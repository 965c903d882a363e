import LinearReduction.Program.Effect
import LinearReduction.Session.Basic

/-!
# Outcomes

How computations on programs and sessions end. A breach ends everything, and nothing is said about it.
Otherwise a computation is done, with a result and a state, or it is stopped by a fault. A computation
completes if it neither is refused nor breaks anything. Main statements: for both notions, one rule for each
way of composing computations, so that a computation is followed step by step.
-/

namespace LinearReduction

namespace Fault

variable {α σ β γ : Type}

theorem bind_of_eq_ok {work : EStateM (Fault α) σ β} {next : β → EStateM (Fault α) σ γ}
    {before after : σ} {result : β} (run : work before = .ok result after) :
    (work >>= next) before = next result after := by
  simp only [Bind.bind, EStateM.bind, run]

theorem bind_of_eq_error {work : EStateM (Fault α) σ β} {next : β → EStateM (Fault α) σ γ} {before after : σ}
    {fault : Fault α} (run : work before = .error fault after) :
    (work >>= next) before = .error fault after := by
  simp only [Bind.bind, EStateM.bind, run]

theorem discard_of_eq_ok {work : EStateM (Fault α) σ β} {before after : σ} {result : β}
    (run : work before = .ok result after) : discard work before = .ok () after := by
  simp only [discard, Functor.discard, Functor.mapConst, Function.comp, EStateM.map, run]

theorem discard_of_eq_error {work : EStateM (Fault α) σ β} {before after : σ} {fault : Fault α}
    (run : work before = .error fault after) : discard work before = .error fault after := by
  simp only [discard, Functor.discard, Functor.mapConst, Function.comp, EStateM.map, run]

theorem forM_cons_of_eq_ok {ι : Type} (body : ι → EStateM (Fault α) σ PUnit) {before after : σ} {x : ι}
    (run : body x before = .ok ⟨⟩ after) (rest : List ι) :
    (x :: rest).forM body before = rest.forM body after :=
  bind_of_eq_ok run

/-- A loop of which every round leaves things as they are does so itself. -/
theorem forM_still {ι : Type} {body : ι → EStateM (Fault α) σ PUnit} {before : σ} {list : List ι}
    (still : ∀ x ∈ list, body x before = .ok ⟨⟩ before) : list.forM body before = .ok ⟨⟩ before := by
  induction list with
  | nil => rfl
  | cons x rest inductionHypothesis =>
    rw [forM_cons_of_eq_ok body (still x List.mem_cons_self)]
    exact inductionHypothesis fun y later => still y (List.mem_cons_of_mem x later)

/-- Whatever isn't a breach is as described: the result and the state of a computation that is done, the
    fault and the state of one that is stopped. -/
def Ends (work : EStateM (Fault α) σ β) (before : σ) (done : β → σ → Prop) (stopped : Fault α → σ → Prop) :
    Prop :=
  match work before with
  | .ok result after => done result after
  | .error (.breached _) _ => True
  | .error fault after => stopped fault after

namespace Ends

variable {work : EStateM (Fault α) σ β} {before after : σ} {done : β → σ → Prop}
  {stopped : Fault α → σ → Prop} {result : β}

theorem of_eq_ok (run : work before = .ok result after) (holds : done result after) :
    Ends work before done stopped := by
  rw [Ends, run]
  exact holds

theorem done_of_eq_ok (ends : Ends work before done stopped) (run : work before = .ok result after) :
    done result after := by
  rw [Ends, run] at ends
  exact ends

theorem stopped_of_noOptimum (ends : Ends work before done stopped) {cause : NoOptimum α}
    (run : work before = .error (.noOptimum cause) after) : stopped (.noOptimum cause) after := by
  rw [Ends, run] at ends
  exact ends

theorem stopped_of_refused (ends : Ends work before done stopped) {cause : Refusal}
    (run : work before = .error (.refused cause) after) : stopped (.refused cause) after := by
  rw [Ends, run] at ends
  exact ends

theorem mono {finished : β → σ → Prop} {halted : Fault α → σ → Prop} (ends : Ends work before done stopped)
    (done_mono : ∀ result after, done result after → finished result after)
    (stopped_mono : ∀ fault after, stopped fault after → halted fault after) :
    Ends work before finished halted := by
  unfold Ends at ends ⊢
  split <;> simp_all

/-- What a computation does is known of how it ends. -/
theorem with_result (ends : Ends work before done stopped) : Ends work before
    (fun result after => work before = .ok result after ∧ done result after) stopped := by
  unfold Ends at ends ⊢
  cases run : work before with
  | ok result after =>
    rw [run] at ends
    exact ⟨rfl, ends⟩
  | error fault after =>
    rw [run] at ends
    cases fault with
    | breached cause => trivial
    | noOptimum cause | refused cause => exact ends

theorem and {finished : β → σ → Prop} (ends : Ends work before done stopped)
    (also : Ends work before finished stopped) :
    Ends work before (fun result after => done result after ∧ finished result after) stopped := by
  unfold Ends at ends also ⊢
  split <;> simp_all

/-- Nothing has to be known of a computation to say what holds anyway. -/
theorem always (holds : ∀ result after, done result after) (stops : ∀ fault after, stopped fault after) :
    Ends work before done stopped := by
  unfold Ends
  split
  · exact holds ..
  · trivial
  · exact stops ..

theorem pure {value : β} (holds : done value before) : Ends (Pure.pure value) before done stopped :=
  holds

theorem refuse {cause : Refusal} (holds : stopped (.refused cause) before) :
    Ends (throw (.refused cause) : EStateM (Fault α) σ β) before done stopped :=
  holds

theorem reject {cause : NoOptimum α} (holds : stopped (.noOptimum cause) before) :
    Ends (throw (.noOptimum cause) : EStateM (Fault α) σ β) before done stopped :=
  holds

/-- What follows starts where the first part is done. -/
theorem bind {next : β → EStateM (Fault α) σ γ} {done : γ → σ → Prop}
    (first : Ends work before (fun result between => Ends (next result) between done stopped) stopped) :
    Ends (work >>= next) before done stopped := by
  unfold Ends at first ⊢
  simp only [Bind.bind, EStateM.bind]
  cases run : work before with
  | ok result between => simpa only [run] using first
  -- A breach in the first part remains one. Any other fault ends both parts, in the state it left.
  | error fault between =>
    rw [run] at first
    cases fault with
    | breached cause => trivial
    | noOptimum cause | refused cause => exact first

theorem map {f : β → γ} {done : γ → σ → Prop}
    (first : Ends work before (fun result after => done (f result) after) stopped) :
    Ends (f <$> work) before done stopped := by
  unfold Ends at first ⊢
  simp only [Functor.map, EStateM.map]
  cases run : work before with
  | ok result between => simpa only [run] using first
  | error fault between =>
    rw [run] at first
    cases fault with
    | breached cause => trivial
    | noOptimum cause | refused cause => exact first

theorem discard {done : Unit → σ → Prop} (first : Ends work before (fun _ after => done () after) stopped) :
    Ends (discard work) before done stopped :=
  map first

theorem get {done : σ → σ → Prop} (holds : done before before) :
    Ends (MonadState.get : EStateM (Fault α) σ σ) before done stopped :=
  holds

theorem modify {f : σ → σ} {done : Unit → σ → Prop} (holds : done () (f before)) :
    Ends (modify f : EStateM (Fault α) σ Unit) before done stopped :=
  holds

theorem require {fits : Bool} {otherwise : Refusal} {done : Unit → σ → Prop}
    (holds : fits = true → done () before) (fails : fits = false → stopped (.refused otherwise) before) :
    Ends (require fits otherwise : EStateM (Fault α) σ Unit) before done stopped := by
  cases fits
  · exact fails rfl
  · exact holds rfl

theorem ensure {property : Bool} {otherwise : Breach} {done : Unit → σ → Prop}
    (holds : property = true → done () before) :
    Ends (ensure property otherwise : EStateM (Fault α) σ Unit) before done stopped := by
  cases property
  · trivial
  · exact holds rfl

/-- What is kept may depend on the part of the list that is still to come. -/
theorem forM_along {ι : Type} {list : List ι} {body : ι → EStateM (Fault α) σ PUnit}
    (kept : List ι → σ → Prop) (start : kept list before)
    (round : ∀ x rest s, kept (x :: rest) s → Ends (body x) s (fun _ t => kept rest t) stopped) :
    Ends (list.forM body) before (fun _ after => kept [] after) stopped := by
  -- The induction is on the list, for any state to start from, since every round leaves another one to the
  -- rest.
  induction list generalizing before with
  | nil => exact start
  | cons x rest inductionHypothesis =>
    exact bind ((round x rest before start).mono (fun _ between holds => inductionHypothesis holds)
      fun _ _ holds => holds)

theorem forM {ι : Type} {list : List ι} {body : ι → EStateM (Fault α) σ PUnit} {kept : σ → Prop}
    (start : kept before)
    (round : ∀ x ∈ list, ∀ s, kept s → Ends (body x) s (fun _ t => kept t) stopped) :
    Ends (list.forM body) before (fun _ after => kept after) stopped := by
  refine (forM_along (fun rest s => kept s ∧ ∀ x ∈ rest, x ∈ list) ⟨start, fun _ listed => listed⟩ ?_).mono
    (fun _ _ holds => holds.1) fun _ _ holds => holds
  rintro x rest s ⟨holds, listed⟩
  refine (round x (listed x List.mem_cons_self) s holds).mono (fun _ t holds => ?_) fun _ _ holds => holds
  exact ⟨holds, fun y later => listed y (List.mem_cons_of_mem x later)⟩

theorem edit {change : Edit α β} {s : Session α} {done : β → Session α → Prop}
    {stopped : Fault α → Session α → Prop}
    (ends : Ends change s.program (fun result p => done result { s with program := p })
      fun fault p => stopped fault { s with program := p }) :
    Ends (Step.edit change) s done stopped := by
  unfold Ends at ends ⊢
  simp only [Step.edit]
  cases run : change s.program with
  | ok result p => simpa only [run] using ends
  | error fault p =>
    rw [run] at ends
    cases fault with
    | breached cause => trivial
    | noOptimum cause | refused cause => exact ends

end Ends

/-! ## Computations that complete -/

/-- A computation is done as described, unless a program turns out to have no optimal solution. It is never
    refused and breaks nothing. -/
def Completes (work : EStateM (Fault α) σ β) (before : σ) (done : β → σ → Prop) : Prop :=
  match work before with
  | .ok result after => done result after
  | .error (.noOptimum _) _ => True
  | .error _ _ => False

namespace Completes

variable {work : EStateM (Fault α) σ β} {before after : σ} {done : β → σ → Prop} {result : β}

theorem of_eq_ok (run : work before = .ok result after) (holds : done result after) :
    Completes work before done := by
  rw [Completes, run]
  exact holds

theorem ok_or_noOptimum (completes : Completes work before done) :
    ∃ after, (∃ result, work before = .ok result after ∧ done result after) ∨
      ∃ cause, work before = .error (.noOptimum cause) after := by
  unfold Completes at completes
  cases run : work before with
  | ok result after =>
    rw [run] at completes
    exact ⟨after, .inl ⟨result, rfl, completes⟩⟩
  | error fault after =>
    rw [run] at completes
    cases fault with
    | noOptimum cause => exact ⟨after, .inr ⟨cause, rfl⟩⟩
    | refused cause | breached cause => exact completes.elim

theorem mono {finished : β → σ → Prop} (completes : Completes work before done)
    (done_mono : ∀ result after, done result after → finished result after) :
    Completes work before finished := by
  unfold Completes at completes ⊢
  split <;> simp_all

/-- However a computation ends, if it completes then this is how. -/
theorem with_ends {finished : β → σ → Prop} {stopped : Fault α → σ → Prop}
    (completes : Completes work before done) (ends : Ends work before finished stopped) :
    Completes work before fun result after => done result after ∧ finished result after := by
  unfold Completes at completes ⊢
  unfold Ends at ends
  split <;> simp_all

theorem pure {value : β} (holds : done value before) :
    Completes (Pure.pure value : EStateM (Fault α) σ β) before done :=
  holds

theorem reject {cause : NoOptimum α} :
    Completes (throw (.noOptimum cause) : EStateM (Fault α) σ β) before done :=
  trivial

theorem bind {next : β → EStateM (Fault α) σ γ} {done : γ → σ → Prop}
    (first : Completes work before fun result between => Completes (next result) between done) :
    Completes (work >>= next) before done := by
  unfold Completes at first ⊢
  simp only [Bind.bind, EStateM.bind]
  cases run : work before with
  | ok result between => simpa only [run] using first
  | error fault between =>
    rw [run] at first
    cases fault with
    | noOptimum cause => trivial
    | refused cause | breached cause => exact first

theorem map {f : β → γ} {done : γ → σ → Prop}
    (first : Completes work before fun result after => done (f result) after) :
    Completes (f <$> work) before done := by
  unfold Completes at first ⊢
  simp only [Functor.map, EStateM.map]
  cases run : work before with
  | ok result between => simpa only [run] using first
  | error fault between =>
    rw [run] at first
    cases fault with
    | noOptimum cause => trivial
    | refused cause | breached cause => exact first

theorem discard {done : Unit → σ → Prop} (first : Completes work before fun _ after => done () after) :
    Completes (discard work) before done :=
  map first

theorem get {done : σ → σ → Prop} (holds : done before before) :
    Completes (MonadState.get : EStateM (Fault α) σ σ) before done :=
  holds

theorem modify {f : σ → σ} {done : Unit → σ → Prop} (holds : done () (f before)) :
    Completes (modify f : EStateM (Fault α) σ Unit) before done :=
  holds

theorem require {fits : Bool} {otherwise : Refusal} {done : Unit → σ → Prop} (given : fits = true)
    (holds : done () before) : Completes (require fits otherwise : EStateM (Fault α) σ Unit) before done := by
  rw [given]
  exact holds

theorem ensure {property : Bool} {otherwise : Breach} {done : Unit → σ → Prop} (given : property = true)
    (holds : done () before) : Completes (ensure property otherwise : EStateM (Fault α) σ Unit)
    before done := by
  rw [given]
  exact holds

/-- What is kept may depend on the part of the list that is still to come. -/
theorem forM {ι : Type} {list : List ι} {body : ι → EStateM (Fault α) σ PUnit} (kept : List ι → σ → Prop)
    (start : kept list before)
    (round : ∀ x rest s, kept (x :: rest) s → Completes (body x) s fun _ t => kept rest t) :
    Completes (list.forM body) before fun _ after => kept [] after := by
  induction list generalizing before with
  | nil => exact start
  | cons x rest inductionHypothesis =>
    exact bind ((round x rest before start).mono fun _ between holds => inductionHypothesis holds)

theorem edit {change : Edit α β} {s : Session α} {done : β → Session α → Prop}
    (completes : Completes change s.program fun result p => done result { s with program := p }) :
    Completes (Step.edit change) s done := by
  unfold Completes at completes ⊢
  simp only [Step.edit]
  cases run : change s.program with
  | ok result p => simpa only [run] using completes
  | error fault p =>
    rw [run] at completes
    cases fault with
    | noOptimum cause => trivial
    | refused cause | breached cause => exact completes

theorem edit_of_eq_ok {change : Edit α β} {s : Session α} {p : Program α} {done : β → Session α → Prop}
    (run : change s.program = .ok result p) (holds : done result { s with program := p }) :
    Completes (Step.edit change) s done :=
  .edit (.of_eq_ok run holds)

end Completes

end Fault

end LinearReduction
