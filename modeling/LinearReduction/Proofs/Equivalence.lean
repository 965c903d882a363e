import LinearReduction.Proofs.Exact.Solutions

/-!
# Equivalent programs

Without a tolerance, a program and its reduced program ask for the same. Main statement: a feasible point of
the reduced program is recovered as a feasible point, and for every feasible point of the program at the start
the reduced program has one of no more cost.
-/

namespace LinearReduction

open ExtRat

/-- A feasible point with the activities of all rows at it. -/
structure Program.Attains {α : Type} [Scalar α] (p : Program α) (primal : Sides α) : Prop where
  rows_length : primal.rows.length = p.rows.size
  feasible : p.Feasible primal.columns
  activities : p.Activities primal

/-- Amounts can be compared apart from a fixed one, unless that is not a number. -/
theorem ExtRat.add_finite_le_add {a b : ℚ} {x : ExtRat} (number : x ≠ .undefined) (order : a ≤ b) :
    x + .finite a ≤ x + .finite b := by
  cases x with
  | finite c => exact finite_le_finite.2 (by linarith)
  | posInf => rfl
  | negInf => rfl
  | undefined => exact absurd rfl number

variable {p c : Program ExtRat} {settings : Settings ExtRat} {start s : Session ExtRat}
    {reduced : Solution ExtRat}

theorem Program.fixedCost_asMinimization_ne (number : p.fixedCost ≠ .undefined) :
    p.asMinimization.fixedCost ≠ .undefined := by
  unfold asMinimization
  split
  · exact number
  · intro undefined
    apply number
    change -p.fixedCost = .undefined at undefined
    cases cost : p.fixedCost <;> rw [cost] at undefined <;> cases undefined

namespace Session

/-- What is recovered from a feasible point is feasible. -/
theorem recovered_feasible (exact : p.Exact) (descends : s.DescendsFrom p.asMinimization)
    (tolerates : s.settings.Tolerates 0 0) (copied : s.program.Copied s.program.columns.active.length c)
    (attains : c.Attains reduced.primal) {recovered : Recovered ExtRat}
    (run : s.recover reduced = .ok recovered) : p.Feasible recovered.solution.primal.columns := by
  have rewrites := descends.history.rewrites
  have exact_after := rewrites.exact exact.asMinimization
  obtain ⟨matched, full, primal_eq, _⟩ := recover_eq_ok_sides descends run
  obtain ⟨u, meets, shows⟩ := attains.feasible.exists_shows (copied.exact exact_after) attains.activities
  have renumbers := s.program.columns.renumbers_idxOf u
  have shows_before := rewrites.shows_before exact.asMinimization
    (shows_spread matched exact_after copied renumbers shows)
  have meets_before := rewrites.meets_before exact.asMinimization (.inl tolerates)
    ((copied.meets_iff exact_after renumbers).1 meets)
  have lists := Program.lists_asMinimization.1 (shows_before.lists_sides full)
  rw [primal_eq]
  exact (lists.feasible_iff exact).2 (Program.meets_asMinimization.1 meets_before)

/-- The reduced program has a point of no more cost. -/
theorem exists_reduced_feasible (exact : p.Exact) (descends : s.DescendsFrom p.asMinimization)
    (tolerance : s.settings.absoluteTolerance = 0)
    (copied : s.program.Copied s.program.columns.active.length c) {point : List ExtRat}
    (feasible : p.Feasible point) : ∃ other, c.Feasible other ∧
      (p.fixedCost ≠ .undefined → c.costAt other ≤ p.asMinimization.costAt point) := by
  have rewrites := descends.history.rewrites
  have exact_after := rewrites.exact exact.asMinimization
  have lists := feasible.isPoint.lists
  have meets := Program.meets_asMinimization.2 ((lists.feasible_iff exact).1 feasible)
  obtain ⟨y, meets_after, cheaper⟩ := rewrites.exists_cheaper exact.asMinimization tolerance meets
  obtain ⟨constant, fixed, same⟩ := rewrites.linearCost_before exact.asMinimization
  have renumbers := s.program.columns.renumbers_getD y
  have exact_copy := copied.exact exact_after
  have lists_copy := c.lists_range fun a => y (s.program.columns.ordinals.getD a 0)
  refine ⟨_, (lists_copy.feasible_iff exact_copy).2 ((copied.meets_iff exact_after renumbers).2 meets_after),
    fun number => ?_⟩
  have cost : c.costAt ((List.range c.columns.size).map fun a =>
      .finite (y (s.program.columns.ordinals.getD a 0))) =
      p.asMinimization.fixedCost + .finite (constant + s.program.linearCost y) := by
    rw [lists_copy.costAt_eq exact_copy, copied.fixedCost_eq, fixed, copied.linearCost_eq renumbers,
      add_finite_add]
  rw [cost, (Program.lists_asMinimization.2 lists).costAt_eq exact.asMinimization]
  apply add_finite_le_add (Program.fixedCost_asMinimization_ne number)
  rw [add_comm, ← same]
  exact cheaper

end Session

/-- Feasible points of the reduced program are recovered as feasible points, and none is lost at any cost. -/
theorem Session.Reaches.reduced_equivalent (built : p.Built) (begun : Session.begin p settings = .ok start)
    (absolute : settings.absoluteTolerance = 0) (relative : settings.relativeTolerance = 0)
    (reaches : start.Reaches s) : ∃ c, s.program.condense = .ok c ∧
      (∀ reduced : Solution ExtRat, c.program.Attains reduced.primal →
        (reduced.status? = none → ∃ recovered, s.recover reduced = .ok recovered) ∧
        ∀ recovered, s.recover reduced = .ok recovered → p.Feasible recovered.solution.primal.columns) ∧
      ∀ point, p.Feasible point → ∃ other, c.program.Feasible other ∧
        (p.fixedCost ≠ .undefined → c.program.costAt other ≤ p.asMinimization.costAt point) := by
  have exact := built.exact
  have descends := reaches.descendsFrom begun
  obtain ⟨_, settings_eq, _, _⟩ := reaches.history begun
  have exact_after := descends.history.rewrites.exact exact.asMinimization
  obtain ⟨c, condensed, copied⟩ :=
    Program.condense_eq_ok exact_after.transposed exact_after.bounded exact_after.nonzero
  have tolerates := Settings.tolerates_zero absolute relative
  rw [← settings_eq] at tolerates
  refine ⟨_, condensed, fun reduced attains => ⟨fun no_status => ?_, fun recovered run => ?_⟩,
    fun point feasible => ?_⟩
  · refine recover_eq_ok descends (Program.full_asMinimization.2 built.full) (isMatchedBy_iff.2 ⟨?_, ?_⟩)
      fun status has_status => ?_
    · exact attains.rows_length.trans copied.rows_size
    · exact attains.feasible.isPoint.length_eq.trans copied.columns_size
    · rw [no_status] at has_status
      cases has_status
  · exact recovered_feasible exact descends tolerates copied attains run
  · exact exists_reduced_feasible exact descends tolerates.absolute_eq copied feasible

theorem mixed_reduced_equivalent :
    (∃ recovered, mixedSession.recover (.integer mixedPrimal) = .ok recovered ∧
      mixedProgram.Feasible recovered.solution.primal.columns) ∧
    ∃ other, mixedReduced.Feasible other ∧
      mixedReduced.costAt other ≤ mixedProgram.asMinimization.costAt [.finite 2, .finite 1] := by
  obtain ⟨c, condensed, back, forth⟩ :=
    Session.Reaches.reduced_equivalent mixedProgram_built mixedStart_begun rfl rfl mixedSession_reached
  obtain rfl := Except.ok.inj (condensed.symm.trans mixedSession_condensed)
  constructor
  · obtain ⟨returns, feasible⟩ := back (.integer mixedPrimal)
      ⟨by rfl, mixedPrimal_optimal.feasible, mixedPrimal_optimal.activities⟩
    obtain ⟨recovered, run⟩ := returns rfl
    exact ⟨recovered, run, feasible recovered run⟩
  · have feasible : mixedProgram.Feasible [.finite 2, .finite 1] := by
      refine ⟨⟨by rfl, by decide⟩, fun i row active => ?_, fun j column active => ?_⟩
      · match i, active with
        | 0, active => cases active; decide +kernel
        | 1, active => cases active; decide +kernel
      · match j, active with
        | 0, active => cases active; decide +kernel
        | 1, active => cases active; decide +kernel
    obtain ⟨other, other_feasible, cost_le⟩ := forth _ feasible
    exact ⟨other, other_feasible, cost_le (by decide)⟩

end LinearReduction
