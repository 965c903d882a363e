import LinearReduction.Proofs.Recovery.Possible

/-!
# Quantities recovered apart

Primal values, dual values and statuses of a solution are recovered together, record by record, and yet none
of them depends on another one. Main statement: for every session that calls lead to, two solutions that agree
in a quantity are recovered with that quantity alike, whatever kinds they are of and whatever else they say.
-/

namespace LinearReduction

variable {α : Type} [Scalar α]

/-- Recovered solutions agree in each quantity that the solutions of the reduced program agree in. -/
structure Recovered.AgreeLike (x y : Recovered α) (a b : Solution α) : Prop where
  primal : a.primal = b.primal → x.solution.primal = y.solution.primal ∧ x.objective = y.objective
  dual (sides : Sides α) : a.dual? = some sides → b.dual? = some sides →
    ∃ recovered, x.solution.dual? = some recovered ∧ y.solution.dual? = some recovered
  status (sides : Sides Status) : a.status? = some sides → b.status? = some sides →
    ∃ recovered, x.solution.status? = some recovered ∧ y.solution.status? = some recovered

namespace Session

variable {s start : Session α} {a b : Solution α} {x y : Recovered α}

/-- Where two solutions agree, they are carried back alike. -/
theorem recover_agreeLike (run : s.recover a = .ok x) (also : s.recover b = .ok y) : x.AgreeLike y a b := by
  obtain ⟨undone, undone_run, rfl⟩ := recover_eq_ok_iff.1 run
  obtain ⟨undone', undone_also, rfl⟩ := recover_eq_ok_iff.1 also
  obtain ⟨_, primal_carried, dual_carried, status_carried⟩ := replay_eq_ok undone_run
  obtain ⟨_, primal_carried', dual_carried', status_carried'⟩ := replay_eq_ok undone_also
  refine ⟨fun same => ?_, fun sides given same => ?_, fun sides given same => ?_⟩
  · rw [same, primal_carried'] at primal_carried
    have primal_eq := Except.ok.inj primal_carried
    simp only [primal_inSense, primal_eq, and_self]
  · obtain ⟨dual, dual_eq, carried⟩ := dual_carried sides given
    obtain ⟨dual', dual_eq', carried'⟩ := dual_carried' sides same
    cases carried.symm.trans carried'
    exact ⟨s.signed dual, by rw [dual?_inSense, dual_eq]; rfl, by rw [dual?_inSense, dual_eq']; rfl⟩
  · obtain ⟨status, status_eq, carried⟩ := status_carried sides given
    obtain ⟨status', status_eq', carried'⟩ := status_carried' sides same
    cases carried.symm.trans carried'
    exact ⟨status, (status?_inSense s undone).trans status_eq, (status?_inSense s undone').trans status_eq'⟩

/-- Primal values are recovered as they are without statuses and dual values. -/
theorem recover_integer {p : Program α} (descends : s.DescendsFrom p) (run : s.recover b = .ok y) :
    s.recover (.integer b.primal) = .ok ⟨.integer y.solution.primal, y.objective⟩ := by
  obtain ⟨matched, full, _⟩ := recover_eq_ok_sides descends run
  obtain ⟨x, alone⟩ : ∃ x, s.recover (.integer b.primal) = .ok x :=
    recover_eq_ok descends full matched fun _ given => nomatch given
  obtain ⟨primal_eq, objective_eq⟩ := (recover_agreeLike alone run).primal rfl
  obtain ⟨undone, undone_run, rfl⟩ := recover_eq_ok_iff.1 alone
  have one_pass : s.replay (.integer b.primal) = s.undoAll (.integer b.primal) :=
    replay_eq_undoAll descends matched
  rw [one_pass] at undone_run
  obtain ⟨_, _, undone_run⟩ := exists_of_bind_eq_ok undone_run
  obtain ⟨_, _, undone_run⟩ := exists_of_bind_eq_ok undone_run
  cases undone_run
  rw [alone, ← primal_eq, ← objective_eq, inSense]
  cases s.origin.sense <;> rfl

/-- Every session that calls lead to recovers the quantities of a solution in one pass over its records, with
    the result of one pass for each of them. Solutions that agree in a quantity are recovered with that
    quantity alike, and primal values alone as they are together with the others. -/
theorem Reaches.recoveries_independent [LawfulScalar α] {p : Program α} {settings : Settings α}
    (begun : Session.begin p settings = .ok start) (reaches : start.Reaches s) :
    (∀ reduced, s.recover reduced = s.recoverApart reduced) ∧
    (∀ a b x y, s.recover a = .ok x → s.recover b = .ok y → x.AgreeLike y a b) ∧
    ∀ b y, s.recover b = .ok y →
      s.recover (.integer b.primal) = .ok ⟨.integer y.solution.primal, y.objective⟩ := by
  have descends := reaches.descendsFrom begun
  exact ⟨recover_eq_recoverApart descends, fun _ _ _ _ run also => recover_agreeLike run also,
    fun _ _ run => recover_integer descends run⟩

/-- The dual values of `mixedSolution`, at other primal values. -/
def mixedInterior : Solution ExtRat :=
  .interiorPoint ⟨[.finite 2, .finite 4], [.finite 1, .finite 1, .finite 3]⟩
    ⟨[.finite (-1), .finite 0], [.finite 0, .finite 1, .finite 0]⟩ ⟨rfl, rfl⟩

theorem mixed_recoveries_independent : ∃ x y, mixedSession.recover mixedSolution = .ok x ∧
    mixedSession.recover mixedInterior = .ok y ∧
    (∃ dual, x.solution.dual? = some dual ∧ y.solution.dual? = some dual) ∧
    mixedSession.recover (.integer mixedSolution.primal) = .ok ⟨.integer x.solution.primal, x.objective⟩ := by
  have descends := mixedSession_reached.descendsFrom mixedStart_begun
  have full := Program.full_asMinimization.2 mixedProgram_built.full
  obtain ⟨x, run⟩ : ∃ x, mixedSession.recover mixedSolution = .ok x :=
    recovers_of_grounded descends full (by rfl) mixedSolution_grounded
  obtain ⟨y, also⟩ : ∃ y, mixedSession.recover mixedInterior = .ok y :=
    recover_eq_ok descends full (by rfl) nofun
  obtain ⟨_, alike, alone⟩ := Reaches.recoveries_independent mixedStart_begun mixedSession_reached
  exact ⟨x, y, run, also, (alike _ _ x y run also).dual _ rfl rfl, alone _ x run⟩

end Session

end LinearReduction
