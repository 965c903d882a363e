import LinearReduction.Proofs.Exact.Feasibility

/-!
# Certificates of optimality

A point and multipliers of the rows prove each other optimal where a price is only paid at a bound. Each
reduction has its own reason why this stays true before it: a column without bounds has no price, a slack
takes over the price of its row, and a row that settled a column takes over the price of that column. Main
statement: without a tolerance, a certificate after a reduction gives one before it.
-/

namespace LinearReduction

open ExtRat

/-- A feasible point and multipliers of the rows, where activities and values have a price only at a bound. -/
structure Program.Certified (p : Program ExtRat) (x y : Nat → ℚ) : Prop where
  meets : p.Meets x
  rows_held : ∀ i row, p.rows.get? i = some row →
    row.bounds.Holds (.finite (row.entries.value x)) (.finite (y i))
  columns_held : ∀ j column, p.columns.get? j = some column →
    column.bounds.Holds (.finite (x j)) (.finite (column.netCost y))

/-- The price of a row that settled a column makes up for the net cost of that column. -/
def Record.Settles (q : Program ExtRat) (y : Nat → ℚ) (price : ℚ) : Record ExtRat → Prop
  | .settleSingleton _ j coefficient _ => ∀ column, q.columns.get? j = some column →
      coefficient.toRat * price = column.netCost y
  | _ => True

section

variable {settings : Settings ExtRat} {p q : Program ExtRat} {r : Record ExtRat} {x y : Nat → ℚ} {price : ℚ}

/-- There is always such a price. -/
theorem Rewrite.exists_settles (rewrite : Rewrite settings p r q) (exact : p.Exact) (y : Nat → ℚ) :
    ∃ price, r.Settles q y price := by
  cases rewrite with
  | @settleSingleton i j row column coefficient row_active equality single column_active admitted =>
    obtain ⟨_, nonzero⟩ := (exact.rows i row row_active).rational (j, coefficient) (by simp [single])
    cases found : (p.settledBy i j (row.bounds.lower / coefficient)).columns.get? j with
    | none => exact ⟨0, fun column' active => by rw [found] at active; cases active⟩
    | some column' =>
      refine ⟨column'.netCost y / coefficient.toRat, fun other active => ?_⟩
      rw [found] at active
      obtain rfl := Option.some.inj active
      exact mul_div_cancel₀ _ nonzero
  | _ => exact ⟨0, trivial⟩

/-- What a new column says about the price of its row. -/
theorem Program.Certified.withRange {i : Nat} {range : Bounds ExtRat} {c b : ℚ}
    (certified : (p.withRange i range (.finite c) (.finite b)).Certified x y) :
    range.Holds (.finite (x p.columns.size)) (.finite (-(c * y i))) := by
  have held := certified.columns_held p.columns.size _ (by rw [Program.columns_withRange, if_pos rfl])
  simpa [Column.netCost, zero_eq] using held

theorem Column.netCost_opposite {column : Column ExtRat} {bounds : Bounds ExtRat} {domain : Domain} :
    (⟨bounds, domain, -column.cost, column.entries.negate⟩ : Column ExtRat).netCost y =
    -column.netCost y := by
  simp only [netCost, toRat_neg, Entries.value_negate]
  ring

/-- A column and its opposite can only both be worth their cost if they are free of charge. -/
theorem Program.Certified.free_unpriced {j : Nat} {column : Column ExtRat}
    (certified : (p.splitColumn j column).Certified x y) (active : p.columns.get? j = some column) :
    column.netCost y = 0 := by
  have own := certified.columns_held j { column with bounds := .nonnegative } (by
    rw [Program.columns_splitColumn, if_neg (Slots.ne_size active), if_pos rfl, active, Option.map_some])
  have new := certified.columns_held p.columns.size _ (by rw [Program.columns_splitColumn, if_pos rfl])
  rw [Column.netCost_opposite] at new
  have nonnegative := (Bounds.holds_nonnegative.1 own).1
  have nonpositive := (Bounds.holds_nonnegative.1 new).1
  exact le_antisymm (neg_nonneg.1 nonpositive) nonnegative

/-- What a column and its companion say about the price of the row that they share. -/
theorem Program.Certified.cappedColumn {j : Nat} {u : ℚ}
    (certified : (p.cappedColumn j (.finite u)).Certified x y) {column : Column ExtRat}
    (active : p.columns.get? j = some column) :
    (0 ≤ column.netCost y - y p.rows.size ∧ (0 < column.netCost y - y p.rows.size → x j = 0)) ∧
      (0 ≤ -y p.rows.size ∧ (0 < -y p.rows.size → x p.columns.size = 0)) := by
  have inside := Slots.lt_size active
  constructor
  · have own := certified.columns_held j _ (by
      rw [Program.columns_cappedColumn _ inside, if_neg (Slots.ne_size active), if_pos rfl, active,
        Option.map_some])
    rw [Bounds.holds_nonnegative] at own
    simpa [Column.netCost, Entries.value_append, one_eq, sub_sub] using own
  · have new :=
      certified.columns_held p.columns.size _ (by rw [Program.columns_cappedColumn _ inside, if_pos rfl])
    rw [Bounds.holds_nonnegative] at new
    simpa [Column.netCost, zero_eq, one_eq] using new

/-- A row that settled a column leaves that column without a price. -/
theorem Program.Exact.settled_unpriced (exact : p.Exact) {i j : Nat} {row : Row ExtRat}
    {column : Column ExtRat} {c v : ExtRat} (row_active : p.rows.get? i = some row)
    (active : p.columns.get? j = some column) (single : row.entries = [(j, c)])
    (settles : (Record.settleSingleton i j c v).Settles (p.settledBy i j v) y price) :
    column.netCost (Function.update y i price) = 0 := by
  have distinct := exact.transposed.columns_nodup j column active
  have in_column :=
    (exact.transposed.mem_iff row_active active).1 (by rw [single]; exact List.mem_singleton_self _)
  have entry := Entries.coefficient_of_mem distinct in_column
  have balance := settles { column with bounds := .point v, entries := column.entries.erase i } (by
    rw [Program.columns_settledBy, active, Option.map_some, if_pos rfl])
  rw [Column.netCost, Entries.value_erase distinct, entry] at balance
  rw [Column.netCost, Entries.value_update distinct, entry]
  linarith

/-- The price of a row that a reduction is about is only paid at a bound. -/
theorem Rewrite.own_row_held (rewrite : Rewrite settings p r q) (exact : p.Exact)
    (certified : q.Certified x y) (before : p.Meets (r.pointBefore x)) {i : Nat} {row : Row ExtRat}
    (active : p.rows.get? i = some row) (own : r.ownRow? = some i) :
    row.bounds.Holds (.finite (row.entries.value (r.pointBefore x)))
    (.finite (r.multipliersBefore y price i)) := by
  have proper := (exact.rows i row active).proper
  cases rewrite.atRow active own with
  | dropFreeRow free =>
    rw [Record.multipliersBefore, Function.update_self]
    exact Bounds.holds_zero
  | addSurplus finite =>
    rw [eq_finite_of_isFinite finite] at certified
    obtain ⟨balance, _⟩ := Program.Meets.withRange (c := -1) certified.meets active
    have held := Program.Certified.withRange (c := -1) certified
    have activity : row.entries.value x = row.bounds.lower.toRat + x p.columns.size := by linarith
    change row.bounds.Holds (.finite (row.entries.value x)) (.finite (y i))
    rw [activity, ← proper.holds_range_above finite]
    simpa using held
  | addSlack finite =>
    rw [eq_finite_of_isFinite finite] at certified
    obtain ⟨balance, _⟩ := Program.Meets.withRange (c := 1) certified.meets active
    have held := Program.Certified.withRange (c := 1) certified
    have activity : row.entries.value x = row.bounds.upper.toRat - x p.columns.size := by linarith
    change row.bounds.Holds (.finite (row.entries.value x)) (.finite (y i))
    rw [activity, ← neg_neg (y i), ← proper.holds_range_below finite]
    simpa using held
  | dropEmptyRow empty =>
    rw [Record.multipliersBefore, Function.update_self]
    exact Bounds.holds_zero
  | @settleSingleton j column coefficient equality single column_active =>
    obtain ⟨b, point⟩ := proper.eq_point equality
    have contains := before.rows i row active
    rw [point, Bounds.contains_point] at contains
    rw [point, contains]
    exact Bounds.holds_point

/-- The net cost of a column that a reduction is about is only paid at a bound. -/
theorem Rewrite.own_column_held (rewrite : Rewrite settings p r q) (exact : p.Exact)
    (tolerance : settings.absoluteTolerance = 0) (settles : r.Settles q y price) (certified : q.Certified x y)
    {j : Nat} {column : Column ExtRat} (active : p.columns.get? j = some column)
    (own : r.ownColumn? = some j) : column.bounds.Holds (.finite (r.pointBefore x j))
    (.finite (column.netCost (r.multipliersBefore y price))) := by
  have proper := (exact.columns j column active).proper
  cases rewrite.atColumn active own with
  | splitFree free =>
    exact (Bounds.holds_of_isFree free).2 (certified.free_unpriced active)
  | shiftLower finite =>
    have held :=
      certified.columns_held j _ (by rw [Program.columns_shiftedColumn, if_pos rfl, active, Option.map_some])
    rw [Record.pointBefore, Function.update_self]
    exact (proper.holds_range_above finite).1 held
  | flipUpper finite =>
    have held :=
      certified.columns_held j _ (by rw [Program.columns_flippedColumn, if_pos rfl, active, Option.map_some])
    rw [Column.netCost_opposite, proper.holds_range_below finite, neg_neg] at held
    rw [Record.pointBefore, Function.update_self]
    exact held
  | splitUpper grounded finite =>
    rw [eq_finite_of_isFinite finite] at certified
    obtain ⟨⟨own_cost, own_value⟩, new_cost, new_value⟩ := certified.cappedColumn active
    obtain ⟨_, _, total⟩ := certified.meets.cappedColumn active
    refine Bounds.holds_finite.2 ⟨fun positive => ?_, fun negative => ?_⟩
    · change 0 < column.netCost y at positive
      rw [ExtRat.eq_of_beq (a := 0) grounded]
      exact congrArg ExtRat.finite (own_value (by linarith)).symm
    · change column.netCost y < 0 at negative
      have at_zero := new_value (by linarith)
      have at_upper : column.bounds.upper.toRat = x j := by linarith
      rw [eq_finite_of_isFinite finite]
      exact congrArg ExtRat.finite at_upper
  | substituteFixed fixed finite =>
    obtain ⟨a, point⟩ := proper.eq_point fixed
    rw [Record.pointBefore, Function.update_self, point]
    exact Bounds.holds_point
  | settleEmpty empty bounded =>
    obtain ⟨a, best, _⟩ := Step.bestValue_contained proper column.cost
    have cost := (exact.columns j column active).cost
    have settled : x j = a :=
      certified.meets.eq_of_point (by simp [Program.columns_boundedColumn, active, best])
    have unburdened : column.netCost y = column.cost.toRat := by
      rw [Column.netCost, empty, Entries.value_nil, sub_zero]
    rw [tolerance, cost] at bounded
    have holds := Step.bestValue_holds proper bounded
    rw [← cost, best, cost, ← settled, ← unburdened] at holds
    exact holds
  | @settleSingleton l row coefficient row_active equality single =>
    have unpriced := exact.settled_unpriced row_active active single settles
    rw [Record.multipliersBefore, unpriced]
    exact Bounds.holds_zero

/-- Certificates are carried back by every reduction without a tolerance. -/
theorem Rewrite.certified_before (rewrite : Rewrite settings p r q) (exact : p.Exact)
    (tolerates : settings.Tolerates 0 0) (settles : r.Settles q y price) (certified : q.Certified x y) :
    p.Certified (r.pointBefore x) (r.multipliersBefore y price) := by
  have before := rewrite.meets_before exact (rewrite.admits_of_tolerance_zero exact tolerates) certified.meets
  refine ⟨before, fun i row active => ?_, fun j column active => ?_⟩
  · by_cases own : r.ownRow? = some i
    · exact rewrite.own_row_held exact certified before active own
    · obtain ⟨row', found, carried⟩ := rewrite.carries_row exact x active own
      rw [← carried.holds_iff (exact.rows i row active).proper, r.multipliersBefore_of_ne own]
      exact certified.rows_held i row' found
  · by_cases own : r.ownColumn? = some j
    · exact rewrite.own_column_held exact tolerates.absolute_eq settles certified active own
    · obtain ⟨column', found, carried⟩ := rewrite.carries_column exact y price active own
      rw [r.pointBefore_of_ne own, ← carried.netCost_eq, ← carried.bounds]
      exact certified.columns_held j column' found

end

end LinearReduction
