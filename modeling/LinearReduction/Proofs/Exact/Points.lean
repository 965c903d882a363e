import LinearReduction.Proofs.Exact.Rewrites
import LinearReduction.Program.Feasible

/-!
# Points as lists

Points list their values, while reductions are followed in terms of rational numbers for all ordinals. Main
statements: a point is feasible exactly if the numbers that it lists are, its cost is theirs, and both are the
same in the form that minimizes up to the sign of the cost.
-/

namespace LinearReduction

open ExtRat

theorem valueAt_eq_getElem {α : Type} [Scalar α] {values : List α} {k : Nat} (inside : k < values.length) :
    valueAt values k = values[k] := by
  rw [valueAt, List.getD_eq_getElem?_getD, List.getElem?_eq_getElem inside, Option.getD_some]

/-- The numbers that are listed for the columns of a program. -/
structure Program.Lists (p : Program ExtRat) (point : List ExtRat) (x : Nat → ℚ) : Prop where
  isPoint : p.IsPoint point
  value : ∀ j column, p.columns.get? j = some column → valueAt point j = .finite (x j)

namespace Program

variable {p : Program ExtRat} {point : List ExtRat} {x y : Nat → ℚ}

/-- Every point lists some numbers. -/
theorem IsPoint.lists (isPoint : p.IsPoint point) : p.Lists point fun j => (valueAt point j).toRat := by
  refine ⟨isPoint, fun j column active => eq_finite_of_isFinite ?_⟩
  have inside : j < point.length := isPoint.length_eq ▸ Slots.lt_size active
  rw [valueAt_eq_getElem inside]
  exact isPoint.finite _ (List.getElem_mem inside)

/-- All numbers are listed by a point. -/
theorem lists_range (p : Program ExtRat) (x : Nat → ℚ) :
    p.Lists ((List.range p.columns.size).map fun j => .finite (x j)) x := by
  refine ⟨⟨by simp, fun value listed => ?_⟩, fun j column active => ?_⟩
  · obtain ⟨j, _, rfl⟩ := List.mem_map.1 listed
    rfl
  · rw [valueAt_eq_getElem (by simpa using Slots.lt_size active)]
    simp

namespace Lists

theorem activity_eq (lists : p.Lists point x) (exact : p.Exact) {i : Nat} {row : Row ExtRat}
    (active : p.rows.get? i = some row) : row.activity point = .finite (row.entries.value x) := by
  refine Entries.dot_eq_finite (fun entry listed => ((exact.rows i row active).rational entry listed).1)
    fun k listed => ?_
  obtain ⟨column, found⟩ := exact.transposed.column_active active listed
  exact lists.value k column found

theorem feasible_iff (lists : p.Lists point x) (exact : p.Exact) : p.Feasible point ↔ p.Meets x := by
  constructor
  · intro feasible
    refine ⟨fun i row active => ?_, fun j column active => ?_⟩
    · rw [← lists.activity_eq exact active]
      exact feasible.rows i row active
    · rw [← lists.value j column active]
      exact feasible.columns j column active
  · intro meets
    refine ⟨lists.isPoint, fun i row active => ?_, fun j column active => ?_⟩
    · rw [lists.activity_eq exact active]
      exact meets.rows i row active
    · rw [lists.value j column active]
      exact meets.columns j column active

theorem variableCost_eq (lists : p.Lists point x) (exact : p.Exact) :
    p.variableCost point = .finite (p.linearCost x) := by
  have terms : (p.columns.active.map fun (j, column) => column.cost * valueAt point j) =
      (p.columns.active.map fun entry => entry.2.cost.toRat * x entry.1).map ExtRat.finite := by
    rw [List.map_map]
    refine List.map_congr_left fun (j, column) listed => ?_
    have active := Slots.mem_active.1 listed
    change column.cost * valueAt point j = finite (column.cost.toRat * x j)
    rw [lists.value j column active, ← finite_mul, ← (exact.columns j column active).cost]
  rw [variableCost, terms, Entries.sum_finite, ← linearCost_eq_active]

theorem costAt_eq (lists : p.Lists point x) (exact : p.Exact) :
    p.costAt point = p.fixedCost + .finite (p.linearCost x) := by
  rw [costAt, lists.variableCost_eq exact]

end Lists

/-! ## Programs that minimize -/

theorem meets_asMinimization : p.asMinimization.Meets x ↔ p.Meets x := by
  constructor
  · rintro ⟨rows, columns⟩
    rw [rows_asMinimization] at rows
    refine ⟨rows, fun j column active => ?_⟩
    have found : p.asMinimization.columns.get? j =
        some { column with cost := p.sense.price column.cost } := by
      rw [columns_asMinimization, active, Option.map_some]
    have contains := columns j _ found
    exact contains
  · rintro ⟨rows, columns⟩
    refine ⟨by rwa [rows_asMinimization], fun j column active => ?_⟩
    rw [columns_asMinimization, Option.map_eq_some_iff] at active
    obtain ⟨before, active, rfl⟩ := active
    exact columns j before active

theorem lists_asMinimization : p.asMinimization.Lists point x ↔ p.Lists point x := by
  constructor
  · rintro ⟨isPoint, value⟩
    refine ⟨⟨by rw [isPoint.length_eq, size_columns_asMinimization], isPoint.finite⟩,
      fun j column active => ?_⟩
    have found : p.asMinimization.columns.get? j =
        some { column with cost := p.sense.price column.cost } := by
      rw [columns_asMinimization, active, Option.map_some]
    exact value j _ found
  · rintro ⟨isPoint, value⟩
    refine ⟨⟨by rw [isPoint.length_eq, size_columns_asMinimization], isPoint.finite⟩,
      fun j column active => ?_⟩
    rw [columns_asMinimization, Option.map_eq_some_iff] at active
    obtain ⟨before, active, rfl⟩ := active
    exact value j before active

theorem linearCost_of_minimize (sense : p.sense = .minimize) :
    p.asMinimization.linearCost x = p.linearCost x := by
  rw [asMinimization, sense]

theorem linearCost_of_maximize (sense : p.sense = .maximize) :
    p.asMinimization.linearCost x = -p.linearCost x := by
  rw [linearCost, linearCost, size_columns_asMinimization, ← Finset.sum_neg_distrib]
  apply Finset.sum_congr rfl
  intro k _
  rw [price, price, columns_asMinimization, sense]
  cases p.columns.get? k <;> simp [Sense.price]

end Program

end LinearReduction
