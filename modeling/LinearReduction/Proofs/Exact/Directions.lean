import LinearReduction.Proofs.Exact.Basis
import LinearReduction.Proofs.Exact.Carried
import LinearReduction.Proofs.Recovery.Possible

/-!
# Differences and statuses under a reduction

Bases are about differences of points, in which the values that a reduction shifts by cancel out. Main
statements: rows have the same activity at a difference before and after a reduction, apart from the row that
the reduction is about, and which rows and columns are nonbasic before it.
-/

namespace LinearReduction

open ExtRat

/-! ## Differences of points -/

/-- The difference of two points before a reduction, given the one after it. -/
def Record.directionBefore (x : Nat → ℚ) : Record ExtRat → Nat → ℚ
  | .splitFree j k => Function.update x j (x j - x k)
  | .flipUpper j _ _ => Function.update x j (-x j)
  | .substituteFixed j _ _ _ => Function.update x j 0
  | _ => x

theorem Record.pointBefore_eq (r : Record ExtRat) (x : Nat → ℚ) :
    r.pointBefore x = r.directionBefore x + r.pointBefore 0 := by
  have at_own : ∀ (j : Nat) (a b c : ℚ), a = b + c →
      Function.update x j a = Function.update x j b + Function.update (0 : Nat → ℚ) j c := by
    rintro j a b c rfl
    funext k
    by_cases own : k = j
    · subst own
      simp
    · simp [own]
  cases r with
  | splitFree j k => exact at_own j _ _ _ (by simp)
  | shiftLower j bound entries =>
    rw [pointBefore, at_own j _ (x j) bound.toRat (add_comm ..), Function.update_eq_self]
    simp [directionBefore, pointBefore]
  | flipUpper j bound entries => exact at_own j _ _ _ (by simp [sub_eq_neg_add])
  | substituteFixed j value cost entries => exact at_own j _ _ _ (zero_add _).symm
  | _ => exact (add_zero x).symm

theorem Record.directionBefore_of_ne {r : Record ExtRat} {k : Nat} (other : r.ownColumn? ≠ some k)
    (x : Nat → ℚ) : r.directionBefore x k = x k := by
  have whole := congrFun (r.pointBefore_eq x) k
  rw [Pi.add_apply, r.pointBefore_of_ne other, r.pointBefore_of_ne other, Pi.zero_apply, add_zero] at whole
  exact whole.symm

section

variable {settings : Settings ExtRat} {p q : Program ExtRat} {r : Record ExtRat} {v w : Valuation Status}
  {x x' y y' : Nat → ℚ} {i j k l : Nat} {row : Row ExtRat} {column : Column ExtRat}

/-- Every other row has the same activity at a difference, as the shift of its bounds cancels out. -/
theorem Rewrite.value_directionBefore (rewrite : Rewrite settings p r q) (exact : p.Exact) (x : Nat → ℚ)
    (active : p.rows.get? l = some row) (other : r.ownRow? ≠ some l) :
    ∃ row', q.rows.get? l = some row' ∧ row.entries.value (r.directionBefore x) = row'.entries.value x := by
  obtain ⟨row', found, carried⟩ := rewrite.carries_row exact x active other
  obtain ⟨row'', found', carried_zero⟩ := rewrite.carries_row exact 0 active other
  obtain rfl := Option.some.inj (found.symm.trans found')
  refine ⟨row', found, ?_⟩
  have sum : row.entries.value (r.pointBefore x) =
      row.entries.value (r.directionBefore x) + row.entries.value (r.pointBefore 0) := by
    rw [r.pointBefore_eq x, Entries.value_add]
  rw [carried.value, carried_zero.value, Entries.value_zero] at sum
  linarith

/-! ## Statuses and bases -/

/-- A column is nonbasic if it is at one of its two ends. -/
theorem Record.isNonbasic_of_bounded {a b s : Status}
    (bounded : (boundedStatus a b : Except (Fault ExtRat) _) = .ok s) :
    s.isNonbasic = (a.isNonbasic || b.isNonbasic) := by
  cases a <;> cases b <;> cases bounded <;> rfl

theorem Record.isNonbasic_difference (nonbasic : Bool) :
    (differenceStatus nonbasic).isNonbasic = nonbasic := by
  cases nonbasic <;> rfl

theorem Record.statusBefore_splitUpper {n m : Nat} {bound : ExtRat}
    (possible : (Record.splitUpper j n m bound).statusBefore v = .ok w) : w.rows = v.rows ∧
      (w.columns j).isNonbasic = ((v.columns j).isNonbasic || (v.columns n).isNonbasic) := by
  rw [statusBefore] at possible
  cases status : (boundedStatus (v.columns j) (v.columns n) : Except (Fault ExtRat) Status) with
  | error fault =>
    rw [status] at possible
    cases possible
  | ok status' =>
    rw [status] at possible
    cases possible
    refine ⟨rfl, ?_⟩
    rw [Valuation.columns_setColumn, if_pos rfl, isNonbasic_of_bounded status]

theorem Record.statusBefore_settleSingleton {c value : ExtRat}
    (possible : (Record.settleSingleton i j c value).statusBefore v = .ok w) :
    v.columns j = .fixed ∧ w = (v.setColumn j .basic).setRow i .fixed := by
  rw [statusBefore] at possible
  split at possible
  case isTrue fixed =>
    cases possible
    exact ⟨fixed, rfl⟩
  case isFalse => cases possible

/-- The best value is at a bound, or zero for a column without bounds. -/
theorem Step.isNonbasic_bestValue (b : Bounds ExtRat) (cost : ExtRat) :
    (bestValue b cost).2.isNonbasic = true := by
  unfold bestValue
  split
  · rfl
  · rfl
  · rfl
  · split
    · rfl
    · split
      · rfl
      · split
        · rfl
        · split <;> rfl

end

end LinearReduction
