import LinearReduction.Proofs.Exact.Carried
import Mathlib.Algebra.BigOperators.Group.Finset.Basic

/-!
# Costs before and after a reduction

Costs are sums over all column slots, where empty slots have no price. Main statement: a point after a
reduction and the one that it gives before it differ in their costs by what the reduction adds to the fixed
cost.
-/

namespace LinearReduction

open ExtRat

namespace Slots

variable {β : Type}

/-- A sum over all entries is one over all slots. -/
theorem sum_active (s : Slots β) (f : Nat → β → ℚ) : (s.active.map fun entry => f entry.1 entry.2).sum =
    ∑ k ∈ Finset.range s.size, ((s.get? k).map (f k)).getD 0 := by
  have along : ∀ (cells : List (Option β)) (start : Nat),
      (((cells.zipIdx start).filterMap fun cell => cell.1.map (cell.2, ·)).map fun entry => f entry.1
        entry.2).sum = ∑ k ∈ Finset.range cells.length, (cells[k]?.join.map (f (start + k))).getD 0 := by
    intro cells
    induction cells with
    | nil => simp
    | cons first rest inductionHypothesis =>
      intro start
      have later := inductionHypothesis (start + 1)
      rw [List.length_cons, Finset.sum_range_succ']
      have shifted : ∀ k, start + 1 + k = start + (k + 1) := fun k => by ring
      simp only [shifted] at later
      cases first with
      | none => simpa using later
      | some entry => simpa [add_comm] using later
  have whole := along s.cells.toList 0
  simp only [zero_add, Array.length_toList, Array.getElem?_toList] at whole
  exact whole

end Slots

namespace Program

/-- Cost of one unit of a column, zero if there is none. -/
def price (p : Program ExtRat) (k : Nat) : ℚ :=
  ((p.columns.get? k).map (·.cost.toRat)).getD 0

/-- Cost of a point, fixed cost left out. -/
def linearCost (p : Program ExtRat) (x : Nat → ℚ) : ℚ :=
  ∑ k ∈ Finset.range p.columns.size, p.price k * x k

variable {p q : Program ExtRat} {x y : Nat → ℚ}

theorem price_of_active {k : Nat} {column : Column ExtRat} (active : p.columns.get? k = some column) :
    p.price k = column.cost.toRat := by
  rw [price, active]
  rfl

theorem price_of_none {k : Nat} (gone : p.columns.get? k = none) : p.price k = 0 := by
  rw [price, gone]
  rfl

/-- Costs are those of the columns that are there. -/
theorem linearCost_eq_active (p : Program ExtRat) (x : Nat → ℚ) :
    p.linearCost x = (p.columns.active.map fun entry => entry.2.cost.toRat * x entry.1).sum := by
  rw [p.columns.sum_active fun k column => column.cost.toRat * x k, linearCost]
  congr 1
  funext k
  rw [price]
  cases p.columns.get? k <;> simp

/-- Slots beyond the last one don't cost anything. -/
theorem linearCost_eq_sum {n : Nat} (inside : p.columns.size ≤ n) :
    p.linearCost x = ∑ k ∈ Finset.range n, p.price k * x k := by
  apply Finset.sum_subset (Finset.range_subset_range.2 inside)
  intro k _ outside
  rw [price_of_none (Slots.get?_of_size_le (by simpa using outside)), zero_mul]

/-- Where columns agree apart from one, costs differ by what that column costs. -/
theorem linearCost_of_one {j : Nat} (inside : j < q.columns.size) (sizes : p.columns.size ≤ q.columns.size)
    (others : ∀ k, k ≠ j → p.price k * x k = q.price k * y k) :
    p.linearCost x = q.linearCost y + (p.price j * x j - q.price j * y j) := by
  have difference : p.linearCost x - q.linearCost y = p.price j * x j - q.price j * y j := by
    rw [linearCost_eq_sum sizes, linearCost, ← Finset.sum_sub_distrib]
    apply Finset.sum_eq_single_of_mem j (Finset.mem_range.2 inside)
    intro k _ other
    rw [others k other, sub_self]
  rw [← difference, add_sub_cancel]

theorem linearCost_congr (sizes : p.columns.size ≤ q.columns.size)
    (same : ∀ k, p.price k * x k = q.price k * y k) : p.linearCost x = q.linearCost y := by
  rw [linearCost_eq_sum sizes, linearCost]
  exact Finset.sum_congr rfl fun k _ => same k

/-! ## Prices after a reduction -/

section

variable {i j k : Nat}

theorem price_withoutRow : (p.withoutRow i).price k = p.price k := by
  simp [price, columns_withoutRow, Function.comp_def]

theorem price_boundedColumn {b : Bounds ExtRat} : (p.boundedColumn j b).price k = p.price k := by
  rw [price, columns_boundedColumn]
  split <;> simp [price, Function.comp_def]

theorem price_withRange {range : Bounds ExtRat} {c b : ExtRat} :
    (p.withRange i range c b).price k = p.price k := by
  rw [price, columns_withRange]
  split
  case isTrue new =>
    rw [price_of_none (Slots.get?_of_size_le new.ge)]
    rfl
  case isFalse => rfl

theorem price_cappedColumn (inside : j < p.columns.size) {b : ExtRat} :
    (p.cappedColumn j b).price k = p.price k := by
  rw [price, columns_cappedColumn _ inside]
  split
  case isTrue new =>
    rw [price_of_none (Slots.get?_of_size_le new.ge)]
    rfl
  case isFalse => split <;> simp [price, Function.comp_def]

theorem price_shiftedColumn {column : Column ExtRat} : (p.shiftedColumn j column).price k = p.price k := by
  rw [price, columns_shiftedColumn]
  split <;> simp [price, Function.comp_def]

theorem price_flippedColumn {column : Column ExtRat} (active : p.columns.get? j = some column) :
    (p.flippedColumn j column).price k = if k = j then -column.cost.toRat else p.price k := by
  rw [price, columns_flippedColumn]
  by_cases same : k = j
  · subst same
    simp [active]
  · rw [if_neg (Ne.symm same), if_neg same, price]

theorem price_substituted {column : Column ExtRat} :
    (p.substituted j column).price k = if k = j then 0 else p.price k := by
  rw [price, columns_substituted]
  by_cases same : k = j
  · rw [if_pos same.symm, if_pos same]
    rfl
  · rw [if_neg (Ne.symm same), if_neg same, price]

theorem price_splitColumn {column : Column ExtRat} :
    (p.splitColumn j column).price k = if k = p.columns.size then -column.cost.toRat else p.price k := by
  rw [price, columns_splitColumn]
  split
  · simp
  · split <;> simp [price, Function.comp_def]

end

theorem fixedCost_absorbed (entries : Entries ExtRat) {cost value : ExtRat}
    (cost_eq : cost = .finite cost.toRat) (value_eq : value = .finite value.toRat) :
    (p.absorbed entries cost value).fixedCost = p.fixedCost + .finite (cost.toRat * value.toRat) := by
  rw [absorbed, ← finite_mul, ← cost_eq, ← value_eq]

end Program

/-! ## Costs before a reduction -/

section

variable {settings : Settings ExtRat} {p q : Program ExtRat} {r : Record ExtRat}

/-- What a reduction changes in the cost of a point is what it adds to the fixed cost. -/
theorem Rewrite.linearCost_before (rewrite : Rewrite settings p r q) (exact : p.Exact) :
    ∃ constant : ℚ, q.fixedCost = p.fixedCost + .finite constant ∧
      ∀ y, p.linearCost (r.pointBefore y) = q.linearCost y + constant := by
  have sizes := rewrite.columns_restored.size_le
  have unchanged : q.fixedCost = p.fixedCost → (∀ y k, p.price k * r.pointBefore y k = q.price k * y k) →
      ∃ constant : ℚ, q.fixedCost = p.fixedCost + .finite constant ∧
        ∀ y, p.linearCost (r.pointBefore y) = q.linearCost y + constant := fun fixed same =>
    ⟨0, by rw [fixed, add_finite_zero], fun y => by rw [Program.linearCost_congr sizes (same y), add_zero]⟩
  -- A column that is changed adds what it costs in excess of what it costs afterwards.
  have changed : ∀ {j : Nat} {constant : ℚ}, j < p.columns.size →
      q.fixedCost = p.fixedCost + .finite constant →
      (∀ y k, k ≠ j → p.price k * r.pointBefore y k = q.price k * y k) →
      (∀ y, p.price j * r.pointBefore y j - q.price j * y j = constant) →
      ∃ constant : ℚ, q.fixedCost = p.fixedCost + .finite constant ∧
        ∀ y, p.linearCost (r.pointBefore y) = q.linearCost y + constant :=
    fun inside fixed others own => ⟨_, fixed, fun y => by
      rw [Program.linearCost_of_one (Nat.lt_of_lt_of_le inside sizes) sizes (others y), own]⟩
  cases rewrite with
  | dropFreeRow active free => exact unchanged rfl fun y k => by rw [Program.price_withoutRow]; rfl
  | addSurplus active finite inequality => exact unchanged rfl fun y k => by rw [Program.price_withRange]; rfl
  | addSlack active finite inequality => exact unchanged rfl fun y k => by rw [Program.price_withRange]; rfl
  | @splitFree j column active free =>
    have fixed : (p.splitColumn j column).fixedCost = p.fixedCost := Program.fixedCost_linkAll ..
    have new := Slots.lt_size_of_isActive (Program.isActive_splitColumn (p := p) j column)
    refine ⟨0, by rw [fixed, add_finite_zero], fun y => ?_⟩
    have moved : p.linearCost (Function.update y j (y j - y p.columns.size)) =
        p.linearCost y - column.cost.toRat * y p.columns.size := by
      rw [Program.linearCost_of_one (Slots.lt_size active) le_rfl
        fun k other => by rw [Function.update_of_ne other],
        Function.update_self, Program.price_of_active active]
      ring
    have added : p.linearCost y =
        (p.splitColumn j column).linearCost y + column.cost.toRat * y p.columns.size := by
      rw [Program.linearCost_of_one new sizes fun k other => by rw [Program.price_splitColumn, if_neg other],
        Program.price_splitColumn, if_pos rfl, Program.price_of_none (Slots.get?_of_size_le le_rfl)]
      ring
    rw [Record.pointBefore, moved, added]
    ring
  | @shiftLower j column active finite =>
    refine changed (Slots.lt_size active)
      (Program.fixedCost_absorbed column.entries (exact.columns j column active).cost
        (eq_finite_of_isFinite finite))
      (fun y k other => ?_) fun y => ?_
    · rw [Program.price_shiftedColumn, Record.pointBefore, Function.update_of_ne other]
    · rw [Program.price_shiftedColumn, Program.price_of_active active, Record.pointBefore,
        Function.update_self]
      ring
  | @flipUpper j column active finite =>
    refine changed (Slots.lt_size active)
      (Program.fixedCost_absorbed column.entries (exact.columns j column active).cost
        (eq_finite_of_isFinite finite))
      (fun y k other => ?_) fun y => ?_
    · rw [Program.price_flippedColumn active, if_neg other, Record.pointBefore, Function.update_of_ne other]
    · rw [Program.price_flippedColumn active, if_pos rfl, Program.price_of_active active, Record.pointBefore,
        Function.update_self]
      ring
  | splitUpper active grounded finite =>
    exact unchanged rfl fun y k => by rw [Program.price_cappedColumn (Slots.lt_size active)]; rfl
  | @substituteFixed j column active fixed finite =>
    refine changed (Slots.lt_size active)
      (Program.fixedCost_absorbed column.entries (exact.columns j column active).cost
        (eq_finite_of_isFinite finite))
      (fun y k other => ?_) fun y => ?_
    · rw [Program.price_substituted, if_neg other, Record.pointBefore, Function.update_of_ne other]
    · rw [Program.price_substituted, if_pos rfl, Program.price_of_active active, Record.pointBefore,
        Function.update_self]
      ring
  | dropEmptyRow active empty within => exact unchanged rfl fun y k => by rw [Program.price_withoutRow]; rfl
  | settleEmpty active empty bounded =>
    exact unchanged rfl fun y k => by rw [Program.price_boundedColumn]; rfl
  | settleSingleton row_active equality single column_active admitted =>
    exact unchanged rfl fun y k => by
      rw [Program.settledBy, Program.price_boundedColumn, Program.price_withoutRow]; rfl

end

end LinearReduction
