import LinearReduction.Proofs.Exact.Program

/-!
# Rows and columns carried over

A reduction is about one row, one column or both. A point after it gives a point before it, and multipliers of
the rows after it give multipliers before it. Main statements: apart from the row that a reduction is about,
rows have the same activities up to the amount that their bounds were shifted by, and apart from the column
that it is about, columns have the same bounds, costs and reduced costs.
-/

namespace LinearReduction

open ExtRat

/-- The point before a reduction, given one after it. -/
def Record.pointBefore (x : Nat → ℚ) : Record ExtRat → Nat → ℚ
  | .splitFree j k => Function.update x j (x j - x k)
  | .shiftLower j bound _ => Function.update x j (bound.toRat + x j)
  | .flipUpper j bound _ => Function.update x j (bound.toRat - x j)
  | .substituteFixed j value _ _ => Function.update x j value.toRat
  | _ => x

/-- The multipliers before a reduction, given those after it and one for the row that settled a column. -/
def Record.multipliersBefore (y : Nat → ℚ) (settled : ℚ) : Record ExtRat → Nat → ℚ
  | .dropFreeRow i _ | .dropEmptyRow i => Function.update y i 0
  | .settleSingleton i _ _ _ => Function.update y i settled
  | _ => y

/-- What the column of a reduction contributes to a row apart from its value after the reduction. -/
def Record.share (l : Nat) : Record ExtRat → ℚ
  | .shiftLower _ value entries | .flipUpper _ value entries | .substituteFixed _ value _ entries =>
      entries.coefficient l * value.toRat
  | _ => 0

/-- A row whose bounds are shifted by the amount that its activity is less. -/
structure Row.Carried (row row' : Row ExtRat) (t : ℚ) (x y : Nat → ℚ) : Prop where
  bounds : row'.bounds = row.bounds.shift (.finite t)
  value : row.entries.value x = row'.entries.value y + t

namespace Row.Carried

variable {row row' : Row ExtRat} {t : ℚ} {x y : Nat → ℚ}

theorem of_eq (bounds : row'.bounds = row.bounds)
    (value : row.entries.value x = row'.entries.value y) : row.Carried row' 0 x y :=
  ⟨by rw [bounds, Bounds.shift_zero], by rw [value, add_zero]⟩

theorem contains_iff (carried : row.Carried row' t x y) (proper : row.bounds.Proper) :
    row'.bounds.Contains (.finite (row'.entries.value y)) ↔
    row.bounds.Contains (.finite (row.entries.value x)) := by
  rw [carried.bounds, carried.value, proper.contains_shift]

theorem holds_iff (carried : row.Carried row' t x y) (proper : row.bounds.Proper) (d : ℚ) :
    row'.bounds.Holds (.finite (row'.entries.value y)) (.finite d) ↔
      row.bounds.Holds (.finite (row.entries.value x)) (.finite d) := by
  rw [carried.bounds, carried.value, proper.holds_shift]

end Row.Carried

/-- Cost of a column less what its coefficients are worth at multipliers of the rows. -/
def Column.netCost (column : Column ExtRat) (y : Nat → ℚ) : ℚ :=
  column.cost.toRat - column.entries.value y

/-- A column that differs in coefficients whose rows have no price. -/
structure Column.Carried (column column' : Column ExtRat) (y' y : Nat → ℚ) : Prop where
  bounds : column'.bounds = column.bounds
  cost : column'.cost = column.cost
  value : column'.entries.value y = column.entries.value y'

theorem Column.Carried.netCost_eq {column column' : Column ExtRat} {y' y : Nat → ℚ}
    (carried : column.Carried column' y' y) : column'.netCost y = column.netCost y' := by
  rw [netCost, netCost, carried.cost, carried.value]

theorem Column.Carried.refl (column : Column ExtRat) (y : Nat → ℚ) : column.Carried column y y :=
  ⟨rfl, rfl, rfl⟩

theorem Column.Carried.erase {column : Column ExtRat} (distinct : column.entries.ordinals.Nodup) (y : Nat → ℚ)
    (i : Nat) : column.Carried { column with entries := column.entries.erase i }
    (Function.update y i 0) y := by
  refine ⟨rfl, rfl, ?_⟩
  rw [Entries.value_erase distinct, Entries.value_update distinct]
  ring

/-- Only its own column has another value before a reduction. -/
theorem Record.pointBefore_of_ne {r : Record ExtRat} {k : Nat} (other : r.ownColumn? ≠ some k) (x : Nat → ℚ) :
    r.pointBefore x k = x k := by
  cases r with
  | splitFree j _ => exact Function.update_of_ne (fun same => other (congrArg some same.symm)) ..
  | shiftLower j _ _ => exact Function.update_of_ne (fun same => other (congrArg some same.symm)) ..
  | flipUpper j _ _ => exact Function.update_of_ne (fun same => other (congrArg some same.symm)) ..
  | substituteFixed j _ _ _ => exact Function.update_of_ne (fun same => other (congrArg some same.symm)) ..
  | _ => rfl

/-- Only its own row has another multiplier before a reduction. -/
theorem Record.multipliersBefore_of_ne {r : Record ExtRat} {l : Nat}
    (other : r.ownRow? ≠ some l) (y : Nat → ℚ) (settled : ℚ) : r.multipliersBefore y settled l = y l := by
  cases r with
  | dropFreeRow i _ => exact Function.update_of_ne (fun same => other (congrArg some same.symm)) ..
  | dropEmptyRow i => exact Function.update_of_ne (fun same => other (congrArg some same.symm)) ..
  | settleSingleton i _ _ _ => exact Function.update_of_ne (fun same => other (congrArg some same.symm)) ..
  | _ => rfl

section

variable {settings : Settings ExtRat} {p q : Program ExtRat} {r : Record ExtRat} {x y : Nat → ℚ}

theorem Program.Transposed.coefficient_eq (same : p.Transposed) {i j : Nat} {row : Row ExtRat}
    {column : Column ExtRat} (row_active : p.rows.get? i = some row)
    (column_active : p.columns.get? j = some column) :
    row.entries.coefficient j = column.entries.coefficient i := by
  rw [Entries.coefficient, same.lookup_eq row_active column_active, Entries.coefficient]

/-! ## The row and the column of a reduction -/

/-- The reductions of a row. -/
inductive Rewrite.AtRow (settings : Settings ExtRat) (p : Program ExtRat) (i : Nat) (row : Row ExtRat) :
    Record ExtRat → Program ExtRat → Prop where
  | dropFreeRow (free : row.bounds.isFree = true) :
      AtRow settings p i row (.dropFreeRow i row.entries) (p.withoutRow i)
  | addSurplus (finite : Scalar.isFinite row.bounds.lower = true) :
      AtRow settings p i row (.addSurplus i p.columns.size)
        (p.withRange i row.bounds.range (-1) row.bounds.lower)
  | addSlack (finite : Scalar.isFinite row.bounds.upper = true) :
      AtRow settings p i row (.addSlack i p.columns.size) (p.withRange i row.bounds.range 1 row.bounds.upper)
  | dropEmptyRow (empty : row.entries = []) : AtRow settings p i row (.dropEmptyRow i) (p.withoutRow i)
  | settleSingleton {j : Nat} {column : Column ExtRat} {coefficient : ExtRat}
      (equality : row.bounds.isPoint = true)
      (single : row.entries = [(j, coefficient)]) (column_active : p.columns.get? j = some column) :
      AtRow settings p i row (.settleSingleton i j coefficient (row.bounds.lower / coefficient))
        (p.settledBy i j (row.bounds.lower / coefficient))

/-- The reductions of a column. -/
inductive Rewrite.AtColumn (settings : Settings ExtRat) (p : Program ExtRat) (j : Nat)
    (column : Column ExtRat) : Record ExtRat → Program ExtRat → Prop where
  | splitFree (free : column.bounds.isFree = true) :
      AtColumn settings p j column (.splitFree j p.columns.size) (p.splitColumn j column)
  | shiftLower (finite : Scalar.isFinite column.bounds.lower = true) :
      AtColumn settings p j column (.shiftLower j column.bounds.lower column.entries)
        (p.shiftedColumn j column)
  | flipUpper (finite : Scalar.isFinite column.bounds.upper = true) :
      AtColumn settings p j column (.flipUpper j column.bounds.upper column.entries)
        (p.flippedColumn j column)
  | splitUpper (grounded : (column.bounds.lower == 0) = true)
      (finite : Scalar.isFinite column.bounds.upper = true) :
      AtColumn settings p j column (.splitUpper j p.columns.size p.rows.size column.bounds.upper)
        (p.cappedColumn j column.bounds.upper)
  | substituteFixed (fixed : column.bounds.isPoint = true)
      (finite : Scalar.isFinite column.bounds.lower = true) :
      AtColumn settings p j column (.substituteFixed j column.bounds.lower column.cost column.entries)
        (p.substituted j column)
  | settleEmpty (empty : column.entries = [])
      (bounded : Step.isUnboundedDirection column.bounds column.cost settings.absoluteTolerance = false) :
      AtColumn settings p j column
        (.settleEmpty j (Step.bestValue column.bounds column.cost).1
          (Step.bestValue column.bounds column.cost).2)
        (p.boundedColumn j (.point (Step.bestValue column.bounds column.cost).1))
  | settleSingleton {i : Nat} {row : Row ExtRat} {coefficient : ExtRat}
      (row_active : p.rows.get? i = some row)
      (equality : row.bounds.isPoint = true) (single : row.entries = [(j, coefficient)]) :
      AtColumn settings p j column (.settleSingleton i j coefficient (row.bounds.lower / coefficient))
        (p.settledBy i j (row.bounds.lower / coefficient))

theorem Rewrite.atRow (rewrite : Rewrite settings p r q) {i : Nat} {row : Row ExtRat}
    (active : p.rows.get? i = some row) (own : r.ownRow? = some i) : Rewrite.AtRow settings p i row r q := by
  cases rewrite with
  | dropFreeRow active' free =>
    cases own
    obtain rfl := Option.some.inj (active.symm.trans active')
    exact .dropFreeRow free
  | addSurplus active' finite inequality =>
    cases own
    obtain rfl := Option.some.inj (active.symm.trans active')
    exact .addSurplus finite
  | addSlack active' finite inequality =>
    cases own
    obtain rfl := Option.some.inj (active.symm.trans active')
    exact .addSlack finite
  | dropEmptyRow active' empty within =>
    cases own
    obtain rfl := Option.some.inj (active.symm.trans active')
    exact .dropEmptyRow empty
  | settleSingleton row_active equality single column_active admitted =>
    cases own
    obtain rfl := Option.some.inj (active.symm.trans row_active)
    exact .settleSingleton equality single column_active
  | _ => cases own

theorem Rewrite.atColumn (rewrite : Rewrite settings p r q) {j : Nat} {column : Column ExtRat}
    (active : p.columns.get? j = some column) (own : r.ownColumn? = some j) :
    Rewrite.AtColumn settings p j column r q := by
  cases rewrite with
  | splitFree active' free =>
    cases own
    obtain rfl := Option.some.inj (active.symm.trans active')
    exact .splitFree free
  | shiftLower active' finite =>
    cases own
    obtain rfl := Option.some.inj (active.symm.trans active')
    exact .shiftLower finite
  | flipUpper active' finite =>
    cases own
    obtain rfl := Option.some.inj (active.symm.trans active')
    exact .flipUpper finite
  | splitUpper active' grounded finite =>
    cases own
    obtain rfl := Option.some.inj (active.symm.trans active')
    exact .splitUpper grounded finite
  | substituteFixed active' fixed finite =>
    cases own
    obtain rfl := Option.some.inj (active.symm.trans active')
    exact .substituteFixed fixed finite
  | settleEmpty active' empty bounded =>
    cases own
    obtain rfl := Option.some.inj (active.symm.trans active')
    exact .settleEmpty empty bounded
  | settleSingleton row_active equality single column_active admitted =>
    cases own
    obtain rfl := Option.some.inj (active.symm.trans column_active)
    exact .settleSingleton row_active equality single
  | _ => cases own

/-! ## Other rows and columns -/

/-- Every other row is carried. -/
theorem Rewrite.carries_row (rewrite : Rewrite settings p r q) (exact : p.Exact) (y : Nat → ℚ) {l : Nat}
    {row : Row ExtRat} (active : p.rows.get? l = some row) (other : r.ownRow? ≠ some l) :
    ∃ row', q.rows.get? l = some row' ∧ row.Carried row' (r.share l) (r.pointBefore y) y := by
  have proper := (exact.rows l row active).proper
  have distinct_row := exact.transposed.rows_nodup l row active
  cases rewrite with
  | @dropFreeRow i own own_active free =>
    have apart : i ≠ l := fun same => other (congrArg some same)
    exact ⟨row, by rw [Program.rows_withoutRow, if_neg apart, active], .of_eq rfl rfl⟩
  | @addSurplus i own own_active finite inequality =>
    have apart : i ≠ l := fun same => other (congrArg some same)
    exact ⟨row, by rw [Program.rows_withRange, if_neg apart, active], .of_eq rfl rfl⟩
  | @addSlack i own own_active finite inequality =>
    have apart : i ≠ l := fun same => other (congrArg some same)
    exact ⟨row, by rw [Program.rows_withRange, if_neg apart, active], .of_eq rfl rfl⟩
  | @splitFree j column column_active free =>
    have distinct := exact.transposed.columns_nodup j column column_active
    refine ⟨_, by rw [Program.rows_splitColumn _ distinct, active, Option.map_some], .of_eq ?_ ?_⟩
    · rw [Row.bounds_extended]
    · rw [Row.value_extended, Entries.coefficient_negate, Record.pointBefore,
        Entries.value_update distinct_row, exact.transposed.coefficient_eq active column_active]
      ring
  | @shiftLower j column column_active finite =>
    have distinct := exact.transposed.columns_nodup j column column_active
    have same_coefficient := exact.transposed.coefficient_eq active column_active
    refine ⟨_, by rw [Program.rows_shiftedColumn _ distinct, active, Option.map_some], ?_, ?_⟩
    · rw [Record.share, ← Row.bounds_absorbing (exact.column_rational column_active),
        ← eq_finite_of_isFinite finite]
    · rw [Row.entries_absorbing, Record.pointBefore, Record.share, Entries.value_update distinct_row,
        same_coefficient]
      ring
  | @flipUpper j column column_active finite =>
    have distinct := exact.transposed.columns_nodup j column column_active
    have same_coefficient := exact.transposed.coefficient_eq active column_active
    refine ⟨_, by rw [Program.rows_flippedColumn _ distinct, active, Option.map_some], ?_, ?_⟩
    · rw [Record.share, ← Row.bounds_absorbing (exact.column_rational column_active),
        ← eq_finite_of_isFinite finite]
    · rw [Record.pointBefore, Record.share, Entries.value_update distinct_row,
        Entries.value_negateAt distinct_row, same_coefficient]
      ring
  | @splitUpper j column column_active grounded finite =>
    exact ⟨row, by rw [Program.rows_cappedColumn, if_neg (Slots.ne_size active), active], .of_eq rfl rfl⟩
  | @substituteFixed j column column_active fixed finite =>
    have distinct := exact.transposed.columns_nodup j column column_active
    have same_coefficient := exact.transposed.coefficient_eq active column_active
    refine ⟨_, by rw [Program.rows_substituted _ distinct, active, Option.map_some], ?_, ?_⟩
    · rw [Record.share, ← Row.bounds_absorbing (exact.column_rational column_active),
        ← eq_finite_of_isFinite finite]
    · rw [Record.pointBefore, Record.share, Entries.value_update distinct_row,
        Entries.value_erase distinct_row, same_coefficient]
      ring
  | @dropEmptyRow i own own_active empty within =>
    have apart : i ≠ l := fun same => other (congrArg some same)
    exact ⟨row, by rw [Program.rows_withoutRow, if_neg apart, active], .of_eq rfl rfl⟩
  | @settleEmpty j column column_active empty bounded => exact ⟨row, active, .of_eq rfl rfl⟩
  | @settleSingleton i j own column coefficient own_active equality single column_active admitted =>
    have apart : i ≠ l := fun same => other (congrArg some same)
    exact ⟨row, by rw [Program.rows_settledBy, if_neg apart, active], .of_eq rfl rfl⟩

/-- Every other column is carried. -/
theorem Rewrite.carries_column (rewrite : Rewrite settings p r q) (exact : p.Exact)
    (y : Nat → ℚ) (settled : ℚ) {k : Nat} {column : Column ExtRat} (active : p.columns.get? k = some column)
    (other : r.ownColumn? ≠ some k) : ∃ column', q.columns.get? k = some column' ∧
    column.Carried column' (r.multipliersBefore y settled) y := by
  have distinct := exact.transposed.columns_nodup k column active
  cases rewrite with
  | @dropFreeRow i own own_active free =>
    exact ⟨_, by rw [Program.columns_withoutRow, active, Option.map_some], .erase distinct y i⟩
  | @addSurplus i own own_active finite inequality =>
    exact ⟨column, by rw [Program.columns_withRange, if_neg (Slots.ne_size active), active], .refl column y⟩
  | @addSlack i own own_active finite inequality =>
    exact ⟨column, by rw [Program.columns_withRange, if_neg (Slots.ne_size active), active], .refl column y⟩
  | @splitFree j own own_active free =>
    have apart : j ≠ k := fun same => other (congrArg some same)
    exact ⟨column, by rw [Program.columns_splitColumn, if_neg (Slots.ne_size active), if_neg apart, active],
      .refl column y⟩
  | @shiftLower j own own_active finite =>
    have apart : j ≠ k := fun same => other (congrArg some same)
    exact ⟨column, by rw [Program.columns_shiftedColumn, if_neg apart, active], .refl column y⟩
  | @flipUpper j own own_active finite =>
    have apart : j ≠ k := fun same => other (congrArg some same)
    exact ⟨column, by rw [Program.columns_flippedColumn, if_neg apart, active], .refl column y⟩
  | @splitUpper j own own_active grounded finite =>
    have apart : j ≠ k := fun same => other (congrArg some same)
    refine ⟨column, ?_, .refl column y⟩
    rw [Program.columns_cappedColumn _ (Slots.lt_size own_active), if_neg (Slots.ne_size active),
      if_neg apart, active]
  | @substituteFixed j own own_active fixed finite =>
    have apart : j ≠ k := fun same => other (congrArg some same)
    exact ⟨column, by rw [Program.columns_substituted, if_neg apart, active], .refl column y⟩
  | @dropEmptyRow i own own_active empty within =>
    exact ⟨_, by rw [Program.columns_withoutRow, active, Option.map_some], .erase distinct y i⟩
  | @settleEmpty j own own_active empty bounded =>
    have apart : j ≠ k := fun same => other (congrArg some same)
    exact ⟨column, by rw [Program.columns_boundedColumn, if_neg apart, active], .refl column y⟩
  | @settleSingleton i j own own_column coefficient own_active equality single column_active admitted =>
    have apart : j ≠ k := fun same => other (congrArg some same)
    -- The row has no coefficient in this column, so that its multiplier doesn't matter.
    have absent : i ∉ column.entries.ordinals := fun listed => by
      have also := (exact.transposed.mem_ordinals_iff own_active active).2 listed
      rw [single] at also
      exact apart (List.mem_singleton.1 also).symm
    have found : (p.settledBy i j (own.bounds.lower / coefficient)).columns.get? k =
        some { column with entries := column.entries.erase i } := by
      rw [Program.columns_settledBy, active, Option.map_some, if_neg apart]
    refine ⟨_, found, rfl, rfl, ?_⟩
    change Entries.value (column.entries.erase i) y = column.entries.value (Function.update y i settled)
    rw [Entries.value_erase distinct, Entries.coefficient_of_not_mem absent,
      Entries.value_update_of_not_mem absent]
    ring

theorem Rewrite.newRow_of_none (rewrite : Rewrite settings p r q) (exact : p.Exact) {l : Nat}
    {row' : Row ExtRat} (found : q.rows.get? l = some row') (gone : p.rows.get? l = none) :
    r.newRow? = some l := by
  cases rewrite with
  | dropFreeRow active free => simp [Program.rows_withoutRow, gone] at found
  | addSurplus active finite inequality => simp [Program.rows_withRange, gone] at found
  | addSlack active finite inequality => simp [Program.rows_withRange, gone] at found
  | splitFree active free =>
    simp [Program.rows_splitColumn _ (exact.transposed.columns_nodup _ _ active), gone] at found
  | shiftLower active finite =>
    simp [Program.rows_shiftedColumn _ (exact.transposed.columns_nodup _ _ active), gone] at found
  | flipUpper active finite =>
    simp [Program.rows_flippedColumn _ (exact.transposed.columns_nodup _ _ active), gone] at found
  | splitUpper active grounded finite =>
    rw [Program.rows_cappedColumn, gone] at found
    split at found
    case isTrue same => exact congrArg some same.symm
    case isFalse => cases found
  | substituteFixed active fixed finite =>
    simp [Program.rows_substituted _ (exact.transposed.columns_nodup _ _ active), gone] at found
  | dropEmptyRow active empty within => simp [Program.rows_withoutRow, gone] at found
  | settleEmpty active empty bounded => simp [Program.rows_boundedColumn, gone] at found
  | settleSingleton row_active equality single column_active admitted =>
    simp [Program.rows_settledBy, gone] at found

theorem Rewrite.newColumn_of_none (rewrite : Rewrite settings p r q) {k : Nat} {column' : Column ExtRat}
    (found : q.columns.get? k = some column') (gone : p.columns.get? k = none) : r.newColumn? = some k := by
  have new_of_range : ∀ {i : Nat} {range : Bounds ExtRat} {c b : ExtRat},
      (p.withRange i range c b).columns.get? k = some column' → some p.columns.size = some k := by
    intro i range c b found
    rw [Program.columns_withRange, gone] at found
    split at found
    case isTrue same => exact congrArg some same.symm
    case isFalse => cases found
  cases rewrite with
  | dropFreeRow active free => simp [Program.columns_withoutRow, gone] at found
  | addSurplus active finite inequality => exact new_of_range found
  | addSlack active finite inequality => exact new_of_range found
  | splitFree active free =>
    rw [Program.columns_splitColumn, gone] at found
    split at found
    case isTrue same => exact congrArg some same.symm
    case isFalse => split at found <;> cases found
  | shiftLower active finite => simp [Program.columns_shiftedColumn, gone] at found
  | flipUpper active finite => simp [Program.columns_flippedColumn, gone] at found
  | splitUpper active grounded finite =>
    rw [Program.columns_cappedColumn _ (Slots.lt_size active), gone] at found
    split at found
    case isTrue same => exact congrArg some same.symm
    case isFalse => split at found <;> cases found
  | substituteFixed active fixed finite => simp [Program.columns_substituted, gone] at found
  | dropEmptyRow active empty within => simp [Program.columns_withoutRow, gone] at found
  | settleEmpty active empty bounded => simp [Program.columns_boundedColumn, gone] at found
  | settleSingleton row_active equality single column_active admitted =>
    simp [Program.columns_settledBy, gone] at found

end

end LinearReduction
