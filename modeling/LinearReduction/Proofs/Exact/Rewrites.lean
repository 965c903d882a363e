import LinearReduction.Proofs.Exact.Cost
import LinearReduction.Proofs.Exact.Feasibility
import Mathlib.Algebra.Order.BigOperators.Group.Finset

/-!
# Feasible points along all reductions

Main statements: a feasible point before all reductions gives one after them, at no more cost if there is no
tolerance. Where there is no tolerance, or any feasible point before the reductions, feasible points after
them give feasible points before them.
-/

namespace LinearReduction

open ExtRat

variable {settings : Settings ExtRat} {p q : Program ExtRat} {r : Record ExtRat}
    {records : List (Record ExtRat)}
  {x y : Nat → ℚ}

/-- Columns of no more cost make points of no more cost. -/
theorem Program.linearCost_le (each : ∀ k column, p.columns.get? k = some column →
      column.cost.toRat * x k ≤ column.cost.toRat * y k) : p.linearCost x ≤ p.linearCost y := by
  apply Finset.sum_le_sum
  intro k _
  cases active : p.columns.get? k with
  | none => rw [price_of_none active, zero_mul, zero_mul]
  | some column =>
    rw [price_of_active active]
    exact each k column active

theorem Rewrites.exists_meets (rewrites : Rewrites settings p records q) (exact : p.Exact)
    (meets : p.Meets x) : ∃ y, q.Meets y := by
  induction rewrites with
  | refl => exact ⟨x, meets⟩
  | rewrite before rewrite inductionHypothesis =>
    obtain ⟨y, meets⟩ := inductionHypothesis
    obtain ⟨z, carries⟩ := rewrite.exists_carries (before.exact exact) meets
    exact ⟨z, carries.meets⟩

/-- All reductions were exact if there is no tolerance, or any feasible point before them. -/
theorem Rewrites.meets_before (rewrites : Rewrites settings p records q) (exact : p.Exact)
    (certain : settings.Tolerates 0 0 ∨ ∃ x, p.Meets x) (meets : q.Meets y) :
    p.Meets (records.foldl Record.pointBefore y) := by
  induction rewrites generalizing y with
  | refl => exact meets
  | rewrite before rewrite inductionHypothesis =>
    have exact_between := before.exact exact
    refine inductionHypothesis (rewrite.meets_before exact_between ?_ meets)
    rcases certain with tolerates | ⟨x, start⟩
    · exact rewrite.admits_of_tolerance_zero exact_between tolerates
    · obtain ⟨z, between⟩ := before.exists_meets exact start
      exact rewrite.admits_of_meets exact_between between

theorem Rewrites.linearCost_before (rewrites : Rewrites settings p records q) (exact : p.Exact) :
    ∃ constant : ℚ, q.fixedCost = p.fixedCost + .finite constant ∧
      ∀ y, p.linearCost (records.foldl Record.pointBefore y) = q.linearCost y + constant := by
  induction rewrites with
  | refl => exact ⟨0, (add_finite_zero _).symm, fun y => (add_zero _).symm⟩
  | rewrite before rewrite inductionHypothesis =>
    obtain ⟨constant, fixed, same⟩ := inductionHypothesis
    obtain ⟨added, fixed', same'⟩ := rewrite.linearCost_before (before.exact exact)
    refine ⟨constant + added, ?_, fun y => ?_⟩
    · rw [fixed', fixed, add_finite_add]
    · rw [List.foldl_cons, same, same']
      ring

/-- Without a tolerance, a feasible point gives one after all reductions of no more cost. -/
theorem Rewrites.exists_cheaper (rewrites : Rewrites settings p records q) (exact : p.Exact)
    (tolerance : settings.absoluteTolerance = 0) (meets : p.Meets x) :
    ∃ y, q.Meets y ∧ p.linearCost (records.foldl Record.pointBefore y) ≤ p.linearCost x := by
  induction rewrites with
  | refl => exact ⟨x, meets, le_rfl⟩
  | rewrite before rewrite inductionHypothesis =>
    obtain ⟨y, between, cheaper⟩ := inductionHypothesis
    obtain ⟨z, carries⟩ := rewrite.exists_carries (before.exact exact) between
    obtain ⟨constant, _, same⟩ := before.linearCost_before exact
    refine ⟨z, carries.meets, le_trans ?_ cheaper⟩
    rw [List.foldl_cons, same, same, add_le_add_iff_right]
    exact Program.linearCost_le (carries.cost_le tolerance)

end LinearReduction
