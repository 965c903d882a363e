import LinearReduction.Proofs.Exact.Solutions

/-!
# Optimal solutions

Main statement: without a tolerance, a solution that is optimal for the reduced program is recovered as one
that is optimal for the program at the start, with dual values that prove it.
-/

namespace LinearReduction

variable {p : Program ExtRat} {settings : Settings ExtRat} {start s : Session ExtRat}

/-- An optimal solution of the reduced program is recovered as an optimal solution. -/
theorem Session.Reaches.optimal_recovered (built : p.Built) (begun : Session.begin p settings = .ok start)
    (absolute : settings.absoluteTolerance = 0) (relative : settings.relativeTolerance = 0)
    (reaches : start.Reaches s) : ∃ c, s.program.condense = .ok c ∧
      ∀ (reduced : Solution ExtRat) (dual : Sides ExtRat) (recovered : Recovered ExtRat),
        reduced.dual? = some dual → c.program.Optimal reduced.primal dual →
          s.recover reduced = .ok recovered →
          ∃ dual', recovered.solution.dual? = some dual' ∧ p.Optimal recovered.solution.primal dual' := by
  have exact := built.exact
  have descends := reaches.descendsFrom begun
  obtain ⟨_, _, origin_eq, history⟩ := reaches.history begun
  have rewrites := history.rewrites
  have exact_after := rewrites.exact exact.asMinimization
  obtain ⟨c, condensed, copied⟩ :=
    Program.condense_eq_ok exact_after.transposed exact_after.bounded exact_after.nonzero
  refine ⟨_, condensed, fun reduced dual recovered has_dual optimal run => ?_⟩
  have minimizes : c.sense = .minimize :=
    copied.sense_eq.trans (rewrites.sense_eq.trans p.sense_asMinimization)
  obtain ⟨u, m, shows, prices, certified⟩ := optimal.exists_certified (copied.exact exact_after) minimizes
  obtain ⟨matched, full, primal_eq, dual_eq⟩ := recover_eq_ok_sides descends run
  have dual_matched : s.isMatchedBy dual = true := isMatchedBy_iff.2
    ⟨optimal.dual_isQuantity.rows_length.trans copied.rows_size,
      optimal.dual_isQuantity.columns_length.trans copied.columns_size⟩
  have columns_renumbered := s.program.columns.renumbers_idxOf u
  have rows_renumbered := s.program.rows.renumbers_idxOf m
  -- The values are spread over the ordinals, and from there all records are undone.
  have shows_before := rewrites.shows_before exact.asMinimization
    (shows_spread matched exact_after copied columns_renumbered shows)
  obtain ⟨y, certified_before, prices_before⟩ := rewrites.certified_before exact.asMinimization
    (Settings.tolerates_zero absolute relative)
    (copied.certified exact_after columns_renumbered rows_renumbered certified)
    (prices_spread dual_matched exact_after copied rows_renumbered prices)
  refine ⟨_, dual_eq dual has_dual, ?_⟩
  rw [primal_eq, signed_sides, origin_eq, Program.rows_asMinimization, Program.size_columns_asMinimization]
  exact Program.optimal_of_certified exact (Program.full_asMinimization.1 full) shows_before prices_before
    certified_before

theorem mixed_optimal_recovered : ∃ recovered dual,
    mixedSession.recover (.interiorPoint mixedPrimal mixedDual ⟨rfl, rfl⟩) = .ok recovered ∧
      recovered.solution.dual? = some dual ∧ mixedProgram.Optimal recovered.solution.primal dual := by
  obtain ⟨c, condensed, optimal⟩ :=
    Session.Reaches.optimal_recovered mixedProgram_built mixedStart_begun rfl rfl mixedSession_reached
  obtain rfl := Except.ok.inj (condensed.symm.trans mixedSession_condensed)
  have returns : ∃ recovered,
      mixedSession.recover (.interiorPoint mixedPrimal mixedDual ⟨rfl, rfl⟩) = .ok recovered :=
    Session.recover_eq_ok (mixedSession_reached.descendsFrom mixedStart_begun)
      (Program.full_asMinimization.2 mixedProgram_built.full) (Session.isMatchedBy_iff.2 ⟨by rfl, by rfl⟩)
        nofun
  obtain ⟨recovered, run⟩ := returns
  obtain ⟨dual, has_dual, recovered_optimal⟩ :=
    optimal (.interiorPoint mixedPrimal mixedDual ⟨rfl, rfl⟩) mixedDual
    recovered rfl mixedPrimal_optimal run
  exact ⟨recovered, dual, run, has_dual, recovered_optimal⟩

end LinearReduction
