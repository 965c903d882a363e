import LinearReduction.Proofs.Exact.Agreement
import LinearReduction.Proofs.RecoveredBasis

/-!
# Recovered statuses

Statuses and values are recovered independently of each other. Main statement: if the statuses of a feasible
basic solution tell the truth about the reduced program, the recovered statuses tell the truth about the
recovered values and the bounds of the program at the start. Reductions may have been within a tolerance.
-/

namespace LinearReduction

open ExtRat

variable {p c : Program ExtRat} {settings : Settings ExtRat} {start s : Session ExtRat}
    {status : Sides Status}
  {primal : Sides ExtRat} {u x : Nat → ℚ}

namespace Program.StatusesAgree

/-- A nonnegative column that tells the truth is in the basis or at zero. -/
theorem groundsNonnegative (agree : c.StatusesAgree status primal) (isPoint : c.IsPoint primal.columns)
    (copied : s.program.Copied s.program.columns.active.length c) : s.GroundsNonnegative status := by
  intro k j column st listed bounds given
  have found := copied.column_eq listed
  have truth := agree.columns k _ st found given
  rw [isPoint.lists.value k _ found] at truth
  change st.AgreesWith column.bounds _ at truth
  rw [bounds] at truth
  exact truth.of_nonnegative.imp_right fun at_zero => at_zero.1

/-- Statuses that are spread over the ordinals tell the truth if they did before. -/
theorem agrees_spread (agree : c.StatusesAgree status primal) (matched : s.isMatchedBy status = true)
    (exact : s.program.Exact) (copied : s.program.Copied s.program.columns.active.length c)
    (renumbers : s.program.columns.Renumbers u x) (shows : c.Shows primal.valuation u)
    (meets : s.program.Meets x) : s.program.Agrees (s.spread .basic status) x := by
  obtain ⟨rows_fit, columns_fit⟩ := Session.isMatchedBy_iff.1 matched
  have columns_read : ∀ j column, s.program.columns.get? j = some column → ∃ b,
      s.program.columns.active[b]? = some (j, column) ∧ ∃ inside : b < status.columns.length,
        (s.spread .basic status).columns j = status.columns[b] := by
    intro j column active
    have listed := Slots.getElem?_active_iff.2 ⟨active, rfl⟩
    have inside := columns_fit ▸ (List.getElem?_eq_some_iff.1 listed).1
    exact ⟨_, listed, inside, Slots.spread_eq columns_fit listed (List.getElem?_eq_getElem inside)⟩
  refine ⟨fun i row active => ?_, fun j column active => ?_, fun j occupied free => ?_, fun i row _ active =>
    meets.rows i row active⟩
  · have listed := Slots.getElem?_active_iff.2 ⟨active, rfl⟩
    have inside := rows_fit ▸ (List.getElem?_eq_some_iff.1 listed).1
    obtain ⟨row', found, bounds⟩ := copied.row_eq listed
    have truth := agree.rows _ row' _ found (List.getElem?_eq_getElem inside)
    have read : (s.spread .basic status).rows i = status.rows[s.program.rows.ordinals.idxOf i] :=
      Slots.spread_eq rows_fit listed (List.getElem?_eq_getElem inside)
    rw [read, ← bounds, ← copied.row_value exact renumbers listed found, ← shows.rows _ row' found]
    exact truth
  · obtain ⟨b, listed, inside, read⟩ := columns_read j column active
    have found := copied.column_eq listed
    have truth := agree.columns b _ _ found (List.getElem?_eq_getElem inside)
    rw [read, ← renumbers b j column listed, ← shows.columns b _ found]
    exact truth
  · obtain ⟨column, active⟩ := Slots.isActive_iff.1 occupied
    obtain ⟨b, listed, inside, read⟩ := columns_read j column active
    have zero := agree.free_columns b (by rw [List.getElem?_eq_getElem inside, ← read, free])
    have shown := shows.columns b _ (copied.column_eq listed)
    rw [← renumbers b j column listed]
    exact ExtRat.finite.inj (shown.symm.trans zero)

end Program.StatusesAgree

/-- Statuses that tell the truth about a point do so when they are listed. -/
theorem Program.Agrees.statusesAgree {w : Valuation Status} {v : Valuation ExtRat}
    (agrees : p.asMinimization.Agrees w x) (shows : p.Shows v x) (full : p.Full) :
    p.StatusesAgree (w.sides p.rows.size p.columns.size) (v.sides p.rows.size p.columns.size) := by
  constructor
  · intro i row st active given
    have inside := Slots.lt_size active
    obtain rfl : w.rows i = st := by simpa [Valuation.sides, inside] using given
    rw [Valuation.valueAt_rows_sides inside, shows.rows i row active]
    exact agrees.rows i row (by rwa [rows_asMinimization])
  · intro j column st active given
    have inside := Slots.lt_size active
    obtain rfl : w.columns j = st := by simpa [Valuation.sides, inside] using given
    rw [Valuation.valueAt_columns_sides inside, shows.columns j column active]
    exact agrees.columns j { column with cost := p.sense.price column.cost }
      (by rw [columns_asMinimization, active, Option.map_some])
  · intro j given
    have inside : j < p.columns.size := by simpa [Valuation.sides] using (List.getElem?_eq_some_iff.1 given).1
    have free : w.columns j = .free := by simpa [Valuation.sides, inside] using given
    have occupied := full.columns j inside
    obtain ⟨column, active⟩ := Slots.isActive_iff.1 occupied
    have zero := agrees.zeros j (by rwa [isActive_columns_asMinimization]) free
    rw [Valuation.valueAt_columns_sides inside, shows.columns j column active, zero, zero_eq]

/-- Statuses that tell the truth about a feasible point are recovered as statuses that tell the truth about
    the recovered point. -/
theorem Session.Reaches.statuses_recovered (built : p.Built) (begun : Session.begin p settings = .ok start)
    (reaches : start.Reaches s) : ∃ c, s.program.condense = .ok c ∧
      ∀ (reduced : Solution ExtRat) (status : Sides Status), reduced.status? = some status →
        c.program.IsQuantity reduced.primal → c.program.Feasible reduced.primal.columns →
          c.program.Activities reduced.primal → c.program.StatusesAgree status reduced.primal →
            ∃ recovered status', s.recover reduced = .ok recovered ∧
              recovered.solution.status? = some status' ∧
              p.IsQuantity recovered.solution.primal ∧ p.StatusesAgree status' recovered.solution.primal := by
  have exact := built.exact
  have descends := reaches.descendsFrom begun
  have rewrites := descends.history.rewrites
  have exact_after := rewrites.exact exact.asMinimization
  obtain ⟨c, condensed, copied⟩ := exact_after.condense_eq_ok
  refine ⟨_, condensed, fun reduced status given isQuantity feasible activities agree => ?_⟩
  change c.StatusesAgree status reduced.primal at agree
  have full := Program.full_asMinimization.2 built.full
  have matched : s.isMatchedBy reduced.primal = true := Session.isMatchedBy_iff.2
    ⟨isQuantity.rows_length.trans copied.rows_size, isQuantity.columns_length.trans copied.columns_size⟩
  have status_matched := isMatchedBy_of_fits (Solution.fits_of_status given) matched
  -- The statuses have an answer for every record, so that the solution is recovered.
  obtain ⟨w, possible, _⟩ := descends.history.statuses_possible descends.transposed
    (fits_spread status_matched (agree.groundsNonnegative feasible.isPoint copied))
  obtain ⟨recovered, run⟩ := recover_eq_ok descends full matched (by
    intro other also
    cases given.symm.trans also
    exact ⟨w, possible⟩)
  -- Statuses and values are followed together from the reduced program back to the start.
  obtain ⟨u, meets, shows⟩ := feasible.exists_shows (copied.exact exact_after) activities
  have renumbers := s.program.columns.renumbers_idxOf u
  have meets_after := (copied.meets_iff exact_after renumbers).1 meets
  have agrees := descends.history.agrees_before exact.asMinimization possible
    (agree.agrees_spread status_matched exact_after copied renumbers shows meets_after)
  have shows_before := Program.shows_of_asMinimization (rewrites.shows_before exact.asMinimization
    (shows_spread matched exact_after copied renumbers shows))
  obtain ⟨_, _, primal_eq, _⟩ := recover_eq_ok_sides descends run
  refine ⟨recovered, _, run, recover_eq_ok_status descends given possible run, ?_, ?_⟩
  · rw [primal_eq, Program.rows_asMinimization, Program.size_columns_asMinimization]
    exact shows_before.isQuantity_sides built.full
  · rw [primal_eq, Program.rows_asMinimization, Program.size_columns_asMinimization]
    exact agrees.statusesAgree shows_before built.full

theorem mixedStatus_agree : mixedReduced.StatusesAgree mixedStatus mixedPrimal where
  rows := by
    intro i row s active given
    match i, active with
    | 0, active => cases active; cases given; exact ⟨rfl, rfl⟩
    | 1, active => cases active; cases given; exact ⟨rfl, rfl⟩
  columns := by
    intro j column s active given
    match j, active with
    | 0, active => cases active; cases given; trivial
    | 1, active => cases active; cases given; exact ⟨rfl, rfl⟩
    | 2, active => cases active; cases given; trivial
  free_columns := by
    intro j given
    match j, given with
    | 0, given => cases given
    | 1, given => cases given
    | 2, given => cases given

/-- The first row is recovered at its upper bound. -/
theorem mixed_statuses_recovered : ∃ recovered status',
    mixedSession.recover Session.mixedSolution = .ok recovered ∧ recovered.solution.status? = some status' ∧
    mixedProgram.IsQuantity recovered.solution.primal ∧
      mixedProgram.StatusesAgree status' recovered.solution.primal := by
  obtain ⟨c, condensed, recovers⟩ :=
    Session.Reaches.statuses_recovered mixedProgram_built mixedStart_begun mixedSession_reached
  obtain rfl := Except.ok.inj (condensed.symm.trans mixedSession_condensed)
  exact recovers Session.mixedSolution mixedStatus rfl mixedPrimal_optimal.primal_isQuantity
    mixedPrimal_optimal.feasible mixedPrimal_optimal.activities mixedStatus_agree

end LinearReduction
