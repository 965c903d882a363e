import LinearReduction.Proofs.Exact.Solutions

/-!
# Recovered points

Recovery adds up activities record by record, and computes the cost of a point from the costs at the start.
Main statements: the activities belong to the recovered point if those of the reduced program belonged to its
point, and the cost is what the reduced program makes of its point, up to the sign for a program that
maximizes. The point need not be feasible, and reductions may have been within a tolerance.
-/

namespace LinearReduction

open ExtRat

/-- A negation taken twice has no effect, also for what is no number. -/
theorem Sense.price_involutive (sense : Sense) (a : ExtRat) : sense.price (sense.price a) = a := by
  cases sense with
  | minimize => rfl
  | maximize =>
    cases a with
    | finite a => exact Sense.price_price .maximize a
    | posInf => rfl
    | negInf => rfl
    | undefined => rfl

theorem Sense.price_add_finite (sense : Sense) (a : ExtRat) (b : ℚ) :
    sense.price (a + .finite b) = sense.price a + .finite (sense.sign * b) := by
  cases sense with
  | minimize => rw [Sense.sign, one_mul]; rfl
  | maximize =>
    cases a with
    | finite a =>
      rw [finite_add, Sense.price_finite, Sense.price_finite, finite_add, mul_add]
    | posInf => rfl
    | negInf => rfl
    | undefined => rfl

namespace Program

variable {p : Program ExtRat} {point : List ExtRat} {x : Nat → ℚ}

theorem fixedCost_asMinimization (p : Program ExtRat) :
    p.asMinimization.fixedCost = p.sense.price p.fixedCost := by
  unfold asMinimization Sense.price
  cases p.sense <;> rfl

theorem linearCost_asMinimization (p : Program ExtRat) (x : Nat → ℚ) :
    p.asMinimization.linearCost x = p.sense.sign * p.linearCost x := by
  cases sense : p.sense with
  | minimize => rw [linearCost_of_minimize sense, Sense.sign, one_mul]
  | maximize => rw [linearCost_of_maximize sense, Sense.sign, neg_one_mul]

theorem Lists.costAt_asMinimization (lists : p.Lists point x) (exact : p.Exact) :
    p.asMinimization.costAt point = p.sense.price (p.costAt point) := by
  rw [(lists_asMinimization.2 lists).costAt_eq exact.asMinimization, lists.costAt_eq exact,
    fixedCost_asMinimization, linearCost_asMinimization, Sense.price_add_finite]

/-- What is remembered of a program is enough to tell the cost of its points. -/
theorem Full.objective_origin (full : p.Full) (length_eq : point.length = p.columns.size) :
    p.origin.objective point = p.costAt point := by
  have same : List.zipWith (· * ·) p.origin.costs point =
      p.columns.active.map fun (j, column) => column.cost * valueAt point j := by
    refine List.ext_getElem? fun j => ?_
    rw [List.getElem?_zipWith, List.getElem?_map]
    cases active : p.columns.get? j with
    | some column =>
      have inside : j < point.length := length_eq ▸ Slots.lt_size active
      have cell : p.columns.cells.toList[j]? = some (some column) := by
        rw [Array.getElem?_toList]
        exact Option.join_eq_some_iff.1 active
      have value : valueAt point j = point[j] := valueAt_eq_getElem inside
      rw [Slots.getElem?_active_of_full full.columns active, origin, List.getElem?_map, cell,
        List.getElem?_eq_getElem inside, ← value]
      rfl
    | none =>
      have outside : p.columns.size ≤ j := by
        by_contra inside
        have occupied := full.columns j (Nat.lt_of_not_le inside)
        rw [Slots.isActive, active] at occupied
        cases occupied
      have no_value : point[j]? = none := List.getElem?_eq_none (length_eq ▸ outside)
      have no_column : p.columns.active[j]? = none := by
        rwa [List.getElem?_eq_none_iff, Slots.length_active_of_full full.columns]
      rw [no_value, no_column]
      cases p.origin.costs[j]? <;> rfl
  rw [Origin.objective, costAt, same]
  rfl

end Program

variable {p c : Program ExtRat} {settings : Settings ExtRat} {start s : Session ExtRat}

/-- Values that are matched are a point of the reduced program. -/
theorem Session.isPoint_of_matched (copied : s.program.Copied s.program.columns.active.length c)
    {reduced : Sides ExtRat} (matched : s.isMatchedBy reduced = true)
    (finite : ∀ value ∈ reduced.columns, Scalar.isFinite value) : c.IsPoint reduced.columns :=
  ⟨(isMatchedBy_iff.1 matched).2.trans copied.columns_size.symm, finite⟩

/-! ## A column above its lower bound -/

/-- Maximize five more than three times a column that is at least one, with a row for twice the column. -/
def raisedProgram : Program ExtRat :=
  { (((Program.empty .maximize).pushRow ⟨.negInf, .finite 6⟩).pushColumn ⟨.finite 1, .posInf⟩ .continuous
      (.finite 3)).link 0 0 (.finite 2) with fixedCost := .finite 5 }

/-- The session that begins with the column, without a tolerance. -/
def raisedStart : Session ExtRat where
  program := raisedProgram.asMinimization
  settings := ⟨.finite 0, .finite 0, true, true, true, true⟩
  stack := .empty
  origin := raisedProgram.origin

/-- The session after the column is measured from its lower bound. -/
def raisedSession : Session ExtRat where
  program := raisedStart.program.shiftedColumn 0
    ⟨⟨.finite 1, .posInf⟩, .continuous, .finite (-3), [(0, .finite 2)]⟩
  settings := raisedStart.settings
  stack := .ofRecords [.shiftLower 0 (.finite 1) [(0, .finite 2)]]
  origin := raisedStart.origin

/-- A point out of the bounds of the row, with its activity. -/
def raisedPrimal : Sides ExtRat :=
  ⟨[.finite 14], [.finite 7]⟩

theorem raisedProgram_built : raisedProgram.Built := by
  have with_row := Program.Built.newRow (.empty .maximize)
    (show Build.newRow ⟨.negInf, .finite 6⟩ (Program.empty .maximize : Program ExtRat) = .ok 0 _ by rfl)
  have with_column := with_row.newColumn
    (show Build.newColumn ⟨.finite 1, .posInf⟩ .continuous (.finite 3) _ = .ok 0 _ by rfl)
  have with_coefficient := with_column.newCoefficient
    (show Build.newCoefficient 0 0 (.finite 2) _ = .ok () _ by rfl)
  exact with_coefficient.fixCost (show Build.fixCost (.finite 5) _ = .ok () raisedProgram by rfl)

theorem raisedStart_begun : Session.begin raisedProgram raisedStart.settings = .ok raisedStart := by
  rfl

theorem raisedSession_reached : raisedStart.Reaches raisedSession :=
  .of_run [.reduce .shiftLower 0] (by decide +kernel)

theorem raisedSession_condensed : raisedSession.program.condense = .ok ⟨raisedSession.program, [0], [0]⟩ := by
  decide +kernel

theorem raisedPrimal_activities : raisedSession.program.Activities raisedPrimal := by
  intro i row active
  match i, active with
  | 0, active =>
    cases active
    decide +kernel

theorem raisedPrimal_recovered : ∃ recovered, raisedSession.recover (.integer raisedPrimal) = .ok recovered :=
  Session.recover_eq_ok (raisedSession_reached.descendsFrom raisedStart_begun)
    (Program.full_asMinimization.2 raisedProgram_built.full) (by decide +kernel) nofun

/-! ## What a recovered point is worth -/

/-- Activities of a point are recovered as the activities of the recovered point. -/
theorem Session.Reaches.activities_recovered (built : p.Built) (begun : Session.begin p settings = .ok start)
    (reaches : start.Reaches s) : ∃ c, s.program.condense = .ok c ∧
      ∀ (reduced : Solution ExtRat) (recovered : Recovered ExtRat),
        (∀ value ∈ reduced.primal.columns, Scalar.isFinite value) → c.program.Activities reduced.primal →
          s.recover reduced = .ok recovered →
            p.IsQuantity recovered.solution.primal ∧ p.Activities recovered.solution.primal := by
  have exact := built.exact
  have descends := reaches.descendsFrom begun
  have rewrites := descends.history.rewrites
  have exact_after := rewrites.exact exact.asMinimization
  obtain ⟨c, condensed, copied⟩ := exact_after.condense_eq_ok
  refine ⟨_, condensed, fun reduced recovered finite activities run => ?_⟩
  obtain ⟨matched, full, primal_eq, _⟩ := recover_eq_ok_sides descends run
  have isPoint := isPoint_of_matched copied matched finite
  obtain ⟨u, lists, shows⟩ := isPoint.exists_shows (copied.exact exact_after) activities
  have shows_before := Program.shows_of_asMinimization (rewrites.shows_before exact.asMinimization
    (shows_spread matched exact_after copied (s.program.columns.renumbers_idxOf u) shows))
  have own := Program.full_asMinimization.1 full
  rw [primal_eq, Program.rows_asMinimization, Program.size_columns_asMinimization]
  exact ⟨shows_before.isQuantity_sides own, shows_before.activities_sides exact own⟩

theorem raised_activities_recovered : ∃ recovered,
    raisedSession.recover (.integer raisedPrimal) = .ok recovered ∧
    raisedProgram.Activities recovered.solution.primal := by
  obtain ⟨c, condensed, activities⟩ :=
    Session.Reaches.activities_recovered raisedProgram_built raisedStart_begun raisedSession_reached
  obtain rfl := Except.ok.inj (condensed.symm.trans raisedSession_condensed)
  obtain ⟨recovered, run⟩ := raisedPrimal_recovered
  exact ⟨recovered, run, (activities (.integer raisedPrimal) recovered (by decide)
    raisedPrimal_activities run).2⟩

/-- The cost of a recovered solution is that of its point, and that of the point of the reduced program. -/
theorem Session.Reaches.objective_recovered (built : p.Built) (begun : Session.begin p settings = .ok start)
    (reaches : start.Reaches s) : ∃ c, s.program.condense = .ok c ∧
      ∀ (reduced : Solution ExtRat) (recovered : Recovered ExtRat),
        (∀ value ∈ reduced.primal.columns, Scalar.isFinite value) → s.recover reduced = .ok recovered →
          recovered.objective = p.costAt recovered.solution.primal.columns ∧
            recovered.objective = p.sense.price (c.program.costAt reduced.primal.columns) := by
  have exact := built.exact
  have descends := reaches.descendsFrom begun
  obtain ⟨_, _, origin_eq, _⟩ := reaches.history begun
  have rewrites := descends.history.rewrites
  have exact_after := rewrites.exact exact.asMinimization
  obtain ⟨c, condensed, copied⟩ := exact_after.condense_eq_ok
  refine ⟨_, condensed, fun reduced recovered finite run => ?_⟩
  obtain ⟨matched, full, primal_eq, _⟩ := recover_eq_ok_sides descends run
  have own := Program.full_asMinimization.1 full
  -- The columns are followed on their own, as activities have no part in the cost.
  have lists_copy := (isPoint_of_matched copied matched finite).lists
  have renumbers := s.program.columns.renumbers_idxOf fun a => (valueAt reduced.primal.columns a).toRat
  have shown : p.asMinimization.ShowsColumns (s.primalBefore reduced.primal) _ :=
    rewrites.columns_shown_before exact.asMinimization
      (columns_shown_spread matched copied renumbers lists_copy.value)
  have lists := shown.lists_sides full
  rw [← primal_eq] at lists
  have lists_own := Program.lists_asMinimization.1 lists
  have reported : recovered.objective = p.costAt recovered.solution.primal.columns := by
    rw [← own.objective_origin lists_own.isPoint.length_eq, ← origin_eq]
    exact recover_eq_ok_objective run
  refine ⟨reported, ?_⟩
  obtain ⟨constant, fixed, same⟩ := rewrites.linearCost_before exact.asMinimization
  have cost : c.costAt reduced.primal.columns =
      p.asMinimization.costAt recovered.solution.primal.columns := by
    rw [lists_copy.costAt_eq (copied.exact exact_after), copied.fixedCost_eq,
      copied.linearCost_eq renumbers, fixed,
      add_finite_add, add_comm constant, ← same, ← lists.costAt_eq exact.asMinimization]
  change _ = p.sense.price (c.costAt reduced.primal.columns)
  rw [reported, cost, lists_own.costAt_asMinimization exact, Sense.price_involutive]

theorem raised_objective_recovered : ∃ recovered,
    raisedSession.recover (.integer raisedPrimal) = .ok recovered ∧
    recovered.objective = raisedProgram.sense.price (raisedSession.program.costAt raisedPrimal.columns) := by
  obtain ⟨c, condensed, objective⟩ :=
    Session.Reaches.objective_recovered raisedProgram_built raisedStart_begun raisedSession_reached
  obtain rfl := Except.ok.inj (condensed.symm.trans raisedSession_condensed)
  obtain ⟨recovered, run⟩ := raisedPrimal_recovered
  exact ⟨recovered, run, (objective (.integer raisedPrimal) recovered (by decide) run).2⟩

end LinearReduction
