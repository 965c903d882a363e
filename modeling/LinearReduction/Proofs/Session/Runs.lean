import LinearReduction.Proofs.Program.Coherent
import LinearReduction.Proofs.Session.Rules
import LinearReduction.Session.Reachable

/-!
# Runs of a session

A call makes any number of moves, and if it stops, then after such moves. Main statements: `perform_ends` for
one call, and `Session.Reaches.advances` for every sequence of calls, stopped ones included.
-/

namespace LinearReduction

variable {α : Type} [Scalar α]

namespace Session

/-- A session after any number of moves of its program. -/
structure Advances (s t : Session α) : Prop where
  settings_eq : t.settings = s.settings
  origin_eq : t.origin = s.origin
  history : ∃ news, History s.settings s.program news t.program ∧ t.records = news ++ s.records

namespace Advances

variable {s t u : Session α}

theorem refl (s : Session α) : s.Advances s :=
  ⟨rfl, rfl, [], .refl, rfl⟩

theorem trans (first : s.Advances t) (later : t.Advances u) : s.Advances u := by
  obtain ⟨news, history, records⟩ := first.history
  obtain ⟨others, continued, recorded⟩ := later.history
  rw [first.settings_eq] at continued
  refine ⟨later.settings_eq.trans first.settings_eq, later.origin_eq.trans first.origin_eq, others ++ news,
    history.trans continued, ?_⟩
  rw [recorded, records, List.append_assoc]

theorem of_moves (moves : s.Moves t) : s.Advances t := by
  obtain ⟨news, move, records⟩ := moves.move
  exact ⟨moves.settings_eq, moves.origin_eq, news, .of_move move, records⟩

theorem transposed (advances : s.Advances t) (same : s.program.Transposed) : t.program.Transposed := by
  obtain ⟨news, history, records⟩ := advances.history
  exact history.transposed same

end Advances

/-- A session that stops after any number of moves. -/
def HaltsAt (s : Session α) (fault : Fault α) (t : Session α) : Prop :=
  s.Advances t ∧ fault.Evident t.settings t.program

theorem HaltsAt.refused {s t : Session α} (advances : s.Advances t) {cause : Refusal} :
    s.HaltsAt (.refused cause) t :=
  ⟨advances, .refused⟩

end Session

/-- Whether a reduction is one of those that bring a program in standard form. -/
def Reduction.isForming : Reduction → Bool
  | .dropFreeRow | .addSurplus | .addSlack | .splitFree | .shiftLower | .flipUpper | .splitUpper => true
  | _ => false

namespace Step

open Fault (Ends)

variable {s t : Session α}

/-! ## What reductions keep -/

section

variable {kept : Session α → Prop} {stopped : Fault α → Session α → Prop}

theorem workThrough_keeps (round : ∀ t, kept t → ∀ r k, Ends (reduce r k) t (fun _ u => kept u) stopped)
    (start : kept s) (budget : Nat) (agenda : Agenda) :
    Ends (workThrough budget agenda) s (fun _ t => kept t) stopped := by
  induction budget generalizing s agenda with
  | zero => exact .pure start
  | succ budget inductionHypothesis =>
    refine .bind (.get ?_)
    cases agenda.next? s with
    | none => exact .pure start
    | some found =>
      refine .bind (.discard ((round s start _ _).mono (fun _ t holds => ?_) fun _ _ stops => stops))
      exact inductionHypothesis holds _

theorem exhaust_keeps (round : ∀ t, kept t → ∀ r k, Ends (reduce r k) t (fun _ u => kept u) stopped)
    (start : kept s) : Ends exhaust s (fun _ t => kept t) stopped :=
  .bind (.get (workThrough_keeps round start _ _))

section

variable (round : ∀ t, kept t → ∀ r k, r.isForming = true → Ends (reduce r k) t (fun _ u => kept u) stopped)
  (refuses : ∀ t, kept t → ∀ cause, stopped (.refused cause) t)
include round refuses

theorem equateRow_keeps (start : kept s) (i : Nat) : Ends (equateRow i) s (fun _ t => kept t) stopped := by
  refine .bind (fetchRow_ends (fun row active => ?_) fun _ => refuses s start _)
  split
  · exact .discard (round s start _ _ rfl)
  · split
    · exact .discard (round s start _ _ rfl)
    · exact .discard (round s start _ _ rfl)

theorem groundColumn_keeps (start : kept s) (j : Nat) :
    Ends (groundColumn j) s (fun _ t => kept t) stopped := by
  refine .bind (fetchColumn_ends (fun column active => ?_) fun _ => refuses s start _)
  split
  · exact .discard (round s start _ _ rfl)
  · split
    · split
      · exact .pure start
      · exact .discard (round s start _ _ rfl)
    · exact .discard (round s start _ _ rfl)

theorem toStandardForm_keeps (start : kept s) : Ends toStandardForm s (fun _ t => kept t) stopped := by
  refine .bind (.get (.bind ?_))
  -- Three loops, each of which goes on from where the one before it left the session.
  refine (Ends.forM start fun _ _ t holds => equateRow_keeps round refuses holds _).mono (fun _ t holds => ?_)
    fun _ _ stops => stops
  refine .bind (.get (.bind ?_))
  refine (Ends.forM holds fun _ _ u holds => groundColumn_keeps round refuses holds _).mono
    (fun _ u holds => ?_)
    fun _ _ stops => stops
  refine .bind (.get ?_)
  dsimp only
  split
  · exact .forM holds fun _ _ v holds => .discard (round v holds _ _ rfl)
  · exact .pure holds

end

theorem conclude_ends {done : Summary → Session α → Prop} (holds : s.program.isCoherent = true →
      done s.summary s) : Ends conclude s done stopped :=
  .bind (.get (.bind (.ensure fun coherent => .pure (holds coherent))))

/-- Whatever every reduction keeps is kept by all of them in one go. -/
theorem simplify_keeps (round : ∀ t, kept t → ∀ r k, Ends (reduce r k) t (fun _ u => kept u) stopped)
    (refuses : ∀ t, kept t → ∀ cause, stopped (.refused cause) t) (start : kept s) :
    Ends simplify s (fun _ t => kept t) stopped := by
  refine .bind ((exhaust_keeps round start).mono (fun _ t holds => ?_) fun _ _ stops => stops)
  refine .bind (.get ?_)
  dsimp only
  split
  · have formed := toStandardForm_keeps (fun t holds r k _ => round t holds r k) refuses holds
    exact .bind (formed.mono (fun _ _ holds => conclude_ends fun _ => holds) fun _ _ stops => stops)
  · exact conclude_ends fun _ => holds

end

/-! ## Moves -/

variable [LawfulScalar α]

theorem reduce_advances (same : s.program.Transposed) (advances : s.Advances t) (r : Reduction) (k : Nat) :
    Ends (reduce r k) t (fun _ u => s.Advances u) s.HaltsAt := by
  refine (reduce_ends (advances.transposed same) r k).mono (fun _ u performs => ?_) fun fault u stops => ?_
  · exact advances.trans (.of_moves performs.moves)
  · obtain ⟨rfl, evident⟩ := stops
    exact ⟨advances, evident⟩

theorem simplify_advances (same : s.program.Transposed) (advances : s.Advances t) :
    Ends simplify t (fun _ u => s.Advances u) s.HaltsAt :=
  simplify_keeps (fun _ advances r k => reduce_advances same advances r k)
    (fun _ advances _ => .refused advances) advances

end Step

/-! ## Calls -/

theorem Call.discard_respond (call : Call) : discard call.respond = (call.perform : Step α Unit) := by
  have forget : ∀ {β : Type} (work : Step α β) (f : β → Response),
      discard (do return f (← work)) = discard work := by
    intro β work f
    funext s
    simp only [discard, Functor.discard, Functor.mapConst, Function.comp, EStateM.map, bind, EStateM.bind]
    cases work s <;> rfl
  cases call with
  | reduce r k => exact forget (Step.reduce r k) .added
  | simplify => exact forget Step.simplify .summary

theorem Call.perform_of_ok {call : Call} {s t : Session α} {response : Response}
    (answered : call.respond s = .ok response t) : call.perform s = .ok () t := by
  rw [← discard_respond]
  exact Fault.discard_of_eq_ok answered

theorem Call.perform_of_error {call : Call} {s t : Session α} {fault : Fault α}
    (answered : call.respond s = .error fault t) : call.perform s = .error fault t := by
  rw [← discard_respond]
  exact Fault.discard_of_eq_error answered

namespace Session

/-- Calls lead to a session that is reached, if none of them broke anything. -/
theorem run_reaches {start s : Session α} (calls : List Call) (reached : start.Reaches s)
    (unbroken : ∀ cause, .error (.breached cause) ∉ (s.run calls).1) : start.Reaches (s.run calls).2 := by
  induction calls generalizing s with
  | nil => exact reached
  | cons call rest inductionHypothesis =>
    rw [run] at unbroken ⊢
    cases answered : call.respond s with
    | ok response t =>
      rw [answered] at unbroken
      exact inductionHypothesis (.done reached (Call.perform_of_ok answered)) fun cause listed =>
        unbroken cause (List.mem_cons_of_mem _ listed)
    | error fault t =>
      rw [answered] at unbroken
      have performed := Call.perform_of_error answered
      refine inductionHypothesis ?_ fun cause listed => unbroken cause (List.mem_cons_of_mem _ listed)
      cases fault with
      | noOptimum cause => exact .noOptimum reached performed
      | refused cause => exact .refused reached performed
      | breached cause => exact absurd List.mem_cons_self (unbroken cause)

end Session

open Fault (Ends)

variable [LawfulScalar α] {s t : Session α}

/-- Whatever a call does is a sequence of moves, and a program without an optimal solution shows it after
    them. -/
theorem Call.perform_ends (same : s.program.Transposed) {call : Call} :
    Ends call.perform s (fun _ t => s.Advances t) s.HaltsAt := by
  cases call with
  | reduce r k => exact .discard (Step.reduce_advances same (.refl s) r k)
  | simplify => exact .discard (Step.simplify_advances same (.refl s))

namespace Session

theorem Reaches.advances (reaches : s.Reaches t) (same : s.program.Transposed) : s.Advances t := by
  -- A call that stopped has made moves as well, so that its session is one to go on from.
  induction reaches with
  | refl => exact .refl s
  | done before result inductionHypothesis =>
    exact inductionHypothesis.trans
      ((Call.perform_ends (inductionHypothesis.transposed same)).done_of_eq_ok result)
  | noOptimum before result inductionHypothesis =>
    exact inductionHypothesis.trans
      ((Call.perform_ends (inductionHypothesis.transposed same)).stopped_of_noOptimum result).1
  | refused before result inductionHypothesis =>
    exact inductionHypothesis.trans
      ((Call.perform_ends (inductionHypothesis.transposed same)).stopped_of_refused result).1

omit [LawfulScalar α] in
/-- Whether calls that are all done lead to a session can be tested. -/
theorem Reaches.of_run [DecidableEq α] (calls : List Call)
    (test : ((s.run calls).1.all (·.isOk) && decide ((s.run calls).2 = t)) = true) : s.Reaches t := by
  obtain ⟨done, same⟩ := Bool.and_eq_true_iff.1 test
  rw [← of_decide_eq_true same]
  exact run_reaches calls .refl fun cause listed => Bool.false_ne_true (List.all_eq_true.1 done _ listed)

omit [LawfulScalar α] in
/-- Whether a call stops where it is can be tested. -/
theorem stopped_of_test [DecidableEq α] {call : Call} {cause : NoOptimum α}
    (same : (match call.perform s with
      | .error (.noOptimum found) u => decide (found = cause ∧ u = s)
      | _ => false) = true) : call.perform s = .error (.noOptimum cause) s := by
  split at same
  case h_1 found u run =>
    obtain ⟨rfl, rfl⟩ := of_decide_eq_true same
    exact run
  case h_2 => cases same

omit [LawfulScalar α] in
/-- Whether simplification leads to a session can be tested. -/
theorem simplified_of_test [DecidableEq α]
    (same : (match Step.simplify s with
      | .ok summary u => decide (summary = t.summary ∧ u = t)
      | .error _ _ => false) = true) : Step.simplify s = .ok t.summary t := by
  split at same
  case h_1 run =>
    obtain ⟨rfl, rfl⟩ := of_decide_eq_true same
    exact run
  case h_2 => cases same

omit [LawfulScalar α] in
theorem begin_eq_ok {p : Program α} {settings : Settings α} (begun : Session.begin p settings = .ok s) :
    p.isCoherent = true ∧ s = ⟨p.asMinimization, settings, .empty, p.origin⟩ := by
  unfold Session.begin at begun
  split at begun
  case isTrue coherent =>
    cases begun
    exact ⟨coherent, rfl⟩
  case isFalse => cases begun

/-- All that calls did to a session since it began. -/
theorem Reaches.history {p : Program α} {settings : Settings α} (reaches : s.Reaches t)
    (begun : Session.begin p settings = .ok s) : p.Coherent ∧ t.settings = settings ∧ t.origin = p.origin ∧
      History settings p.asMinimization t.records t.program := by
  obtain ⟨test, rfl⟩ := begin_eq_ok begun
  have coherent := Program.isCoherent_iff.1 test
  have advances := reaches.advances coherent.transposed.asMinimization
  obtain ⟨news, history, recorded⟩ := advances.history
  obtain rfl : t.records = news := recorded.trans (List.append_nil news)
  exact ⟨coherent, advances.settings_eq, advances.origin_eq, history⟩

end Session

/-! ## Two columns that share a row -/

/-- Maximize `x + 2y` where `x + y` is at most four, `2y` is two, and `x` is between one and five. -/
def mixedProgram : Program ExtRat :=
  let rows := ((Program.empty .maximize).pushRow ⟨.negInf, .finite 4⟩).pushRow (.point (.finite 2))
  let columns := (rows.pushColumn ⟨.finite 1, .finite 5⟩ .continuous (.finite 1)).pushColumn
    .nonnegative .continuous
    (.finite 2)
  ((columns.link 0 0 (.finite 1)).link 0 1 (.finite 1)).link 1 1 (.finite 2)

def mixedStart : Session ExtRat where
  program := mixedProgram.asMinimization
  settings := ⟨.finite 0, .finite 0, true, true, true, true⟩
  stack := .empty
  origin := mixedProgram.origin

/-- Settle `y`, measure `x` from its lower bound, and make its two other bounds equality rows. -/
def mixedCalls : List Call :=
  [.reduce .settleSingleton 1, .reduce .shiftLower 0, .reduce .addSlack 0, .reduce .splitUpper 0]

/-- The session after these calls. Two rows and three columns are left, and a row and a column are gone. -/
def mixedSession : Session ExtRat where
  program := {
    rows := ⟨#[some ⟨.point (.finite 2), [(0, .finite 1), (2, .finite 1)]⟩, none,
      some ⟨.point (.finite 4), [(0, .finite 1), (3, .finite 1)]⟩], 2⟩
    columns := ⟨#[some ⟨.nonnegative, .continuous, .finite (-1), [(0, .finite 1), (2, .finite 1)]⟩, none,
      some ⟨.nonnegative, .continuous, .finite 0, [(0, .finite 1)]⟩,
      some ⟨.nonnegative, .continuous, .finite 0, [(2, .finite 1)]⟩], 3⟩
    fixedCost := .finite (-3)
    sense := .minimize }
  settings := mixedStart.settings
  stack := .ofRecords [.splitUpper 0 3 2 (.finite 4), .addSlack 0 2,
    .shiftLower 0 (.finite 1) [(0, .finite 1)],
    .substituteFixed 1 (.finite 1) (.finite (-2)) [(0, .finite 1)],
    .settleSingleton 1 1 (.finite 2) (.finite 1)]
  origin := mixedStart.origin

theorem mixedProgram_built : mixedProgram.Built := by
  have one_row := Program.Built.newRow (.empty .maximize)
    (show Build.newRow ⟨.negInf, .finite 4⟩ (Program.empty .maximize : Program ExtRat) = .ok 0 _ by rfl)
  have two_rows := one_row.newRow (show Build.newRow (.point (.finite 2)) _ = .ok 1 _ by rfl)
  have one_column := two_rows.newColumn
    (show Build.newColumn ⟨.finite 1, .finite 5⟩ .continuous (.finite 1) _ = .ok 0 _ by rfl)
  have two_columns := one_column.newColumn
    (show Build.newColumn .nonnegative .continuous (.finite 2) _ = .ok 1 _ by rfl)
  have first := two_columns.newCoefficient (show Build.newCoefficient 0 0 (.finite 1) _ = .ok () _ by rfl)
  have second := first.newCoefficient (show Build.newCoefficient 0 1 (.finite 1) _ = .ok () _ by rfl)
  exact second.newCoefficient (show Build.newCoefficient 1 1 (.finite 2) _ = .ok () mixedProgram by rfl)

theorem mixedStart_begun : Session.begin mixedProgram mixedStart.settings = .ok mixedStart := by
  rfl

theorem mixedSession_reached : mixedStart.Reaches mixedSession :=
  .of_run mixedCalls (by decide +kernel)

end LinearReduction
