import LinearReduction.Proofs.Outcome
import LinearReduction.Recovery.Solution
import LinearReduction.Session.Reachable

/-!
# The origin of a session

What a session remembers of the program at the start is of no account for what is done to the program it works
on. Only the summary tells how many rows and columns there were at first. Main statement: two sessions that
differ in their origins, but not in these counts, give the same answers to the same calls, and differ in
nothing else after each of them.
-/

namespace LinearReduction

variable {α : Type}

/-- As many rows and columns at the start. -/
structure Origin.SizedAs (o other : Origin α) : Prop where
  rowCount_eq : other.rowCount = o.rowCount
  columnCount_eq : other.columnCount = o.columnCount

/-- The session as if it had begun with another program. -/
def Session.withOrigin (s : Session α) (o : Origin α) : Session α :=
  { s with origin := o }

namespace Step

/-- A computation that doesn't tell one origin of its session from another one of the same size, and keeps
    either. -/
structure Blind {β : Type} (work : Step α β) : Prop where
  alike : ∀ s o, s.origin.SizedAs o → match work s with
    | .ok result t => t.origin = s.origin ∧ work (s.withOrigin o) = .ok result (t.withOrigin o)
    | .error fault t => t.origin = s.origin ∧ work (s.withOrigin o) = .error fault (t.withOrigin o)

namespace Blind

variable {β γ : Type} {work : Step α β}

theorem pure (result : β) : Blind (Pure.pure result : Step α β) :=
  ⟨fun _ _ _ => ⟨rfl, rfl⟩⟩

theorem throw (fault : Fault α) : Blind (throw fault : Step α β) :=
  ⟨fun _ _ _ => ⟨rfl, rfl⟩⟩

theorem bind {next : β → Step α γ} (first : Blind work) (later : ∀ result, Blind (next result)) :
    Blind (work >>= next) := by
  refine ⟨fun s o sized => ?_⟩
  have start := first.alike s o sized
  simp only [Bind.bind, EStateM.bind]
  cases run : work s with
  | ok result t =>
    rw [run] at start
    obtain ⟨kept, same⟩ := start
    have rest := (later result).alike t o (by rwa [kept])
    rw [same]
    dsimp only
    cases run : next result t with
    | ok answer u =>
      rw [run] at rest
      exact ⟨rest.1.trans kept, rest.2⟩
    | error fault u =>
      rw [run] at rest
      exact ⟨rest.1.trans kept, rest.2⟩
  | error fault t =>
    rw [run] at start
    rw [start.2]
    exact ⟨start.1, rfl⟩

/-- What is read of a session may be used, unless it depends on the origin beyond its size. -/
theorem get {next : Session α → Step α β} (fair : ∀ s o, s.origin.SizedAs o → next (s.withOrigin o) = next s)
    (later : ∀ s, Blind (next s)) : Blind (MonadState.get >>= next) := by
  refine ⟨fun s o sized => ?_⟩
  have rest := (later s).alike s o sized
  have same : (MonadState.get >>= next) (s.withOrigin o) = next s (s.withOrigin o) :=
    congrArg (· (s.withOrigin o)) (fair s o sized)
  rw [same]
  exact rest

theorem map (f : β → γ) (blind : Blind work) : Blind (f <$> work) := by
  refine ⟨fun s o sized => ?_⟩
  have start := blind.alike s o sized
  simp only [Functor.map, EStateM.map]
  cases run : work s with
  | ok result t =>
    rw [run] at start
    rw [start.2]
    exact ⟨start.1, rfl⟩
  | error fault t =>
    rw [run] at start
    rw [start.2]
    exact ⟨start.1, rfl⟩

theorem discard (blind : Blind work) : Blind (discard work) :=
  map _ blind

theorem require {fits : Bool} {otherwise : Refusal} : Blind (Fault.require fits otherwise : Step α Unit) := by
  cases fits
  · exact throw _
  · exact pure _

theorem ensure {holds : Bool} {otherwise : Breach} : Blind (Fault.ensure holds otherwise : Step α Unit) := by
  cases holds
  · exact throw _
  · exact pure _

theorem forM {ι : Type} {body : ι → Step α PUnit} (round : ∀ x, Blind (body x)) (list : List ι) :
    Blind (list.forM body) := by
  induction list with
  | nil => exact pure _
  | cons x rest inductionHypothesis => exact bind (round x) fun _ => inductionHypothesis

theorem edit (change : Edit α β) : Blind (edit change) := by
  refine ⟨fun s o _ => ?_⟩
  simp only [Step.edit, Session.withOrigin]
  cases change s.program <;> exact ⟨rfl, rfl⟩

theorem record (r : Record α) : Blind (record r) :=
  ⟨fun _ _ _ => ⟨rfl, rfl⟩⟩

end Blind

/-! ## Reductions -/

variable [Scalar α]

theorem dropFreeRow_blind (i : Nat) : Blind (dropFreeRow i : Step α Unit) :=
  .bind (.edit _) fun _ => .bind .require fun _ => .bind (.edit _) fun _ => .record _

theorem dropEmptyRow_blind (i : Nat) : Blind (dropEmptyRow i : Step α Unit) := by
  refine .bind (.edit _) fun _ => .bind .require fun _ => .get (fun _ _ _ => rfl) fun _ => ?_
  dsimp only
  split
  · exact .bind (.throw _) fun _ => .bind (.discard (.edit _)) fun _ => .record _
  · exact .bind (.discard (.edit _)) fun _ => .record _

theorem addSurplus_blind (i : Nat) : Blind (addSurplus i : Step α Nat) :=
  .bind (.edit _) fun _ => .bind .require fun _ => .bind .require fun _ => .bind (.edit _) fun _ =>
    .bind (.record _) fun _ => .pure _

theorem addSlack_blind (i : Nat) : Blind (addSlack i : Step α Nat) :=
  .bind (.edit _) fun _ => .bind .require fun _ => .bind .require fun _ => .bind (.edit _) fun _ =>
    .bind (.record _) fun _ => .pure _

theorem splitFree_blind (j : Nat) : Blind (splitFree j : Step α Nat) :=
  .bind (.edit _) fun _ => .bind .require fun _ => .bind (.edit _) fun _ => .bind (.edit _) fun _ =>
    .bind (.record _) fun _ => .pure _

theorem shiftLower_blind (j : Nat) : Blind (shiftLower j : Step α Unit) :=
  .bind (.edit _) fun _ => .bind .require fun _ => .bind (.edit _) fun _ => .bind (.edit _) fun _ => .record _

theorem flipUpper_blind (j : Nat) : Blind (flipUpper j : Step α Unit) :=
  .bind (.edit _) fun _ => .bind .require fun _ => .bind (.edit _) fun _ => .bind (.edit _) fun _ =>
    .bind (.edit _) fun _ => .bind (.edit _) fun _ => .record _

theorem splitUpper_blind (j : Nat) : Blind (splitUpper j : Step α (Nat × Nat)) :=
  .bind (.edit _) fun _ => .bind .require fun _ => .bind .require fun _ => .bind (.edit _) fun _ =>
    .bind (.edit _) fun _ => .bind (.record _) fun _ => .pure _

theorem substituteFixed_blind (j : Nat) : Blind (substituteFixed j : Step α Unit) :=
  .bind (.edit _) fun _ => .bind .require fun _ => .bind (.edit _) fun _ => .bind (.edit _) fun _ => .record _

theorem fixColumn_blind (j : Nat) (value : α) : Blind (fixColumn j value) :=
  .bind (.edit _) fun _ => substituteFixed_blind j

theorem settleEmpty_blind (j : Nat) : Blind (settleEmpty j : Step α Unit) := by
  refine .bind (.edit _) fun _ => .bind .require fun _ => .get (fun _ _ _ => rfl) fun _ => ?_
  dsimp only
  split
  · exact .bind (.throw _) fun _ => .bind (.record _) fun _ => fixColumn_blind ..
  · exact .bind (.record _) fun _ => fixColumn_blind ..

theorem settleSingleton_blind (i : Nat) : Blind (settleSingleton i : Step α Unit) := by
  refine .bind (.edit _) fun _ => .bind .require fun _ => ?_
  split
  case h_1 =>
    refine .bind (.edit _) fun _ => .get (fun _ _ _ => rfl) fun _ => ?_
    dsimp only
    have settle : ∀ {j : Nat} {coefficient value : α}, Blind (do
        Step.record (.settleSingleton i j coefficient value)
        Functor.discard (Step.edit (Edit.dropRow i))
        fixColumn j value) :=
      .bind (.record _) fun _ => .bind (.discard (.edit _)) fun _ => fixColumn_blind ..
    split
    · exact settle
    · exact .bind (.throw _) fun _ => settle
  case h_2 => exact .throw _

theorem reduce_blind (r : Reduction) (k : Nat) : Blind (reduce r k : Step α Added) := by
  cases r with
  | dropFreeRow => exact .bind (dropFreeRow_blind k) fun _ => .pure _
  | addSurplus => exact .bind (addSurplus_blind k) fun _ => .pure _
  | addSlack => exact .bind (addSlack_blind k) fun _ => .pure _
  | splitFree => exact .bind (splitFree_blind k) fun _ => .pure _
  | shiftLower => exact .bind (shiftLower_blind k) fun _ => .pure _
  | flipUpper => exact .bind (flipUpper_blind k) fun _ => .pure _
  | splitUpper => exact .bind (splitUpper_blind k) fun _ => .pure _
  | substituteFixed => exact .bind (substituteFixed_blind k) fun _ => .pure _
  | dropEmptyRow => exact .bind (dropEmptyRow_blind k) fun _ => .pure _
  | settleEmpty => exact .bind (settleEmpty_blind k) fun _ => .pure _
  | settleSingleton => exact .bind (settleSingleton_blind k) fun _ => .pure _

/-! ## Simplification -/

theorem workThrough_blind (budget : Nat) (agenda : Agenda) :
    Blind (workThrough budget agenda : Step α Unit) := by
  induction budget generalizing agenda with
  | zero => exact .pure _
  | succ budget inductionHypothesis =>
    -- The agenda looks at the program and the settings only.
    refine .get (fun _ _ _ => rfl) fun s => ?_
    split
    · exact .pure _
    · exact .bind (.discard (reduce_blind ..)) fun _ => inductionHypothesis _

theorem exhaust_blind : Blind (exhaust : Step α Unit) :=
  .get (fun _ _ _ => rfl) fun _ => workThrough_blind ..

theorem equateRow_blind (i : Nat) : Blind (equateRow i : Step α Unit) := by
  refine .bind (.edit _) fun row => ?_
  split
  · exact .discard (reduce_blind ..)
  · split <;> exact .discard (reduce_blind ..)

theorem groundColumn_blind (j : Nat) : Blind (groundColumn j : Step α Unit) := by
  refine .bind (.edit _) fun column => ?_
  split
  · exact .discard (reduce_blind ..)
  · split
    · split
      · exact .pure _
      · exact .discard (reduce_blind ..)
    · exact .discard (reduce_blind ..)

theorem toStandardForm_blind : Blind (toStandardForm : Step α Unit) := by
  refine .get (fun _ _ _ => rfl) fun _ => .bind (.forM (fun _ => equateRow_blind _) _) fun _ => ?_
  refine .get (fun _ _ _ => rfl) fun _ => .bind (.forM groundColumn_blind _) fun _ => ?_
  refine .get (fun _ _ _ => rfl) fun _ => ?_
  dsimp only
  split
  · exact .forM (fun _ => .discard (reduce_blind ..)) _
  · exact .pure _

theorem conclude_blind : Blind (conclude : Step α Summary) := by
  refine .get (fun s o sized => ?_) fun _ => .bind .ensure fun _ => .pure _
  -- The summary is the one answer that tells of the origin, and it tells the counts.
  have same : (s.withOrigin o).summary = s.summary := by
    rw [Session.summary, Session.summary]
    simp only [Session.withOrigin, sized.rowCount_eq, sized.columnCount_eq]
  rw [same]
  rfl

theorem simplify_blind : Blind (simplify : Step α Summary) := by
  refine .bind exhaust_blind fun _ => .get (fun _ _ _ => rfl) fun _ => ?_
  dsimp only
  split
  · exact .bind toStandardForm_blind fun _ => conclude_blind
  · exact conclude_blind

end Step

/-! ## Calls one after the other -/

variable [Scalar α]

theorem Call.respond_blind (call : Call) : (call.respond : Step α Response).Blind := by
  cases call with
  | reduce r k => exact .bind (Step.reduce_blind r k) fun _ => .pure _
  | simplify => exact .bind Step.simplify_blind fun _ => .pure _

namespace Session

variable {s : Session α} {o : Origin α}

theorem origin_run (s : Session α) (calls : List Call) : (s.run calls).2.origin = s.origin := by
  induction calls generalizing s with
  | nil => rfl
  | cons call rest inductionHypothesis =>
    have alike := call.respond_blind.alike s s.origin ⟨rfl, rfl⟩
    rw [run]
    cases answered : call.respond s with
    | ok response t | error fault t =>
      rw [answered] at alike
      exact (inductionHypothesis t).trans alike.1

/-- Calls are answered alike whatever the origin, and nothing else is different after them. -/
theorem run_withOrigin (sized : s.origin.SizedAs o) (calls : List Call) :
    (s.withOrigin o).run calls = ((s.run calls).1, (s.run calls).2.withOrigin o) := by
  induction calls generalizing s with
  | nil => rfl
  | cons call rest inductionHypothesis =>
    have alike := call.respond_blind.alike s o sized
    rw [run, run]
    cases answered : call.respond s with
    | ok response t | error fault t =>
      rw [answered] at alike
      obtain ⟨kept, same⟩ := alike
      rw [same]
      dsimp only
      rw [inductionHypothesis (by rwa [kept])]

theorem replay_withOrigin (sized : s.origin.SizedAs o) (reduced : Solution α) :
    (s.withOrigin o).replay reduced = s.replay reduced := by
  simp only [replay, seed, withOrigin, sized.rowCount_eq, sized.columnCount_eq]

end Session

end LinearReduction
