import LinearReduction.Proofs.Exact.Carried
import LinearReduction.Proofs.Exact.Tolerance

/-!
# Feasible points before and after a reduction

A reduction may only be made up to a tolerance. If it isn't, or if there is a feasible point before it, then
it was exact. Main statements: feasible points are carried forward by every reduction, at no more cost if
there is no tolerance, and back by every exact one.
-/

namespace LinearReduction

open ExtRat

/-- Rational numbers within the bounds of all rows and columns. -/
structure Program.Meets (p : Program ExtRat) (x : Nat → ℚ) : Prop where
  rows : ∀ i row, p.rows.get? i = some row → row.bounds.Contains (.finite (row.entries.value x))
  columns : ∀ j column, p.columns.get? j = some column → column.bounds.Contains (.finite (x j))

theorem Program.Meets.column_contains {p : Program ExtRat} {x : Nat → ℚ} (meets : p.Meets x) {j : Nat}
    {b : Bounds ExtRat} (bounds : (p.columns.get? j).map (·.bounds) = some b) :
    b.Contains (.finite (x j)) := by
  obtain ⟨column, active, rfl⟩ := Option.map_eq_some_iff.1 bounds
  exact meets.columns j column active

theorem Program.Meets.eq_of_point {p : Program ExtRat} {x : Nat → ℚ} (meets : p.Meets x) {j : Nat} {a : ℚ}
    (bounds : (p.columns.get? j).map (·.bounds) = some (.point (.finite a))) : x j = a :=
  Bounds.contains_point.1 (meets.column_contains bounds)

/-- What a reduction took to be within bounds, up to a tolerance, is within bounds. -/
def Program.Admits (p : Program ExtRat) : Record ExtRat → Prop
  | .dropEmptyRow i => ∀ row, p.rows.get? i = some row → row.bounds.Contains 0
  | .settleSingleton _ j _ value => ∀ column, p.columns.get? j = some column → column.bounds.Contains value
  | _ => True

section

variable {settings : Settings ExtRat} {p q : Program ExtRat} {r : Record ExtRat} {x y : Nat → ℚ}

namespace Program.Exact

/-- No row has a coefficient in a column without any. -/
theorem empty_not_mem (exact : p.Exact) {j : Nat} {column : Column ExtRat}
    (active : p.columns.get? j = some column) (empty : column.entries = []) {i : Nat} {row : Row ExtRat}
    (found : p.rows.get? i = some row) : j ∉ row.entries.ordinals := fun listed => by
  have also := (exact.transposed.mem_ordinals_iff found active).1 listed
  rw [empty] at also
  cases also

/-- Activities only depend on the values of active columns. -/
theorem value_congr (exact : p.Exact) (same : ∀ k column, p.columns.get? k = some column → x k = y k)
    {i : Nat} {row : Row ExtRat} (active : p.rows.get? i = some row) :
    row.entries.value x = row.entries.value y := by
  apply Entries.value_congr
  intro k listed
  obtain ⟨column, found⟩ := exact.transposed.column_active active listed
  exact same k column found

/-- The value that a point has in the only column of an equality row is the one that the row leaves to it. -/
theorem settled_value (exact : p.Exact) {i j : Nat} {row : Row ExtRat} {c : ExtRat}
    (active : p.rows.get? i = some row) (equality : row.bounds.isPoint = true)
    (single : row.entries = [(j, c)]) : row.bounds.Contains (.finite (row.entries.value x)) ↔
    row.bounds.lower / c = .finite (x j) := by
  obtain ⟨b, t, bounds, coefficient, nonzero, value⟩ := exact.single_value active equality single
  rw [value, single, bounds, Bounds.contains_point, coefficient, ExtRat.finite.injEq, div_eq_iff nonzero]
  simp [mul_comm, eq_comm]

end Program.Exact

/-! ## Exact reductions -/

/-- Without a tolerance, every reduction is exact. -/
theorem Rewrite.admits_of_tolerance_zero (rewrite : Rewrite settings p r q) (exact : p.Exact)
    (tolerates : settings.Tolerates 0 0) : p.Admits r := by
  cases rewrite with
  | @dropEmptyRow i row active empty within =>
    intro row' active'
    obtain rfl := Option.some.inj (active.symm.trans active')
    rw [tolerates.absolute_eq] at within
    exact (exact.rows i row active).proper.contains_zero within
  | @settleSingleton i j row column coefficient row_active equality single column_active admitted =>
    intro column' active'
    obtain rfl := Option.some.inj (column_active.symm.trans active')
    obtain ⟨b, t, _, _, _, value⟩ := exact.single_value row_active equality single
    rw [value] at admitted ⊢
    exact Step.contains_of_admits tolerates (exact.columns j column column_active).proper admitted
  | _ => trivial

/-- Where there is a feasible point, every reduction is exact. -/
theorem Rewrite.admits_of_meets (rewrite : Rewrite settings p r q) (exact : p.Exact) (meets : p.Meets x) :
    p.Admits r := by
  cases rewrite with
  | @dropEmptyRow i row active empty within =>
    intro row' active'
    obtain rfl := Option.some.inj (active.symm.trans active')
    have contains := meets.rows i row active
    rwa [empty] at contains
  | @settleSingleton i j row column coefficient row_active equality single column_active admitted =>
    intro column' active'
    obtain rfl := Option.some.inj (column_active.symm.trans active')
    rw [(exact.settled_value row_active equality single).1 (meets.rows i row row_active)]
    exact meets.columns j column column_active
  | _ => trivial

/-! ## Carrying points back -/

/-- What a new column adds to its row, and that it takes up the range. -/
theorem Program.Meets.withRange {i : Nat} {range : Bounds ExtRat} {c b : ℚ}
    (meets : (p.withRange i range (.finite c) (.finite b)).Meets y) {row : Row ExtRat}
    (active : p.rows.get? i = some row) :
    row.entries.value y + c * y p.columns.size = b ∧ range.Contains (.finite (y p.columns.size)) := by
  constructor
  · have contains := meets.rows i _ (by rw [Program.rows_withRange, if_pos rfl, active, Option.map_some])
    simpa [Bounds.contains_point, Entries.value_append] using contains
  · exact meets.columns p.columns.size _ (by rw [Program.columns_withRange, if_pos rfl])

/-- A column and its companion make up the bound. -/
theorem Program.Meets.cappedColumn {j : Nat} {u : ℚ} (meets : (p.cappedColumn j (.finite u)).Meets y)
    {column : Column ExtRat} (active : p.columns.get? j = some column) :
    0 ≤ y j ∧ 0 ≤ y p.columns.size ∧ y j + y p.columns.size = u := by
  have inside := Slots.lt_size active
  refine ⟨?_, ?_, ?_⟩
  · refine Bounds.contains_nonnegative.1 (meets.column_contains ?_)
    rw [Program.columns_cappedColumn _ inside, if_neg (Slots.ne_size active), if_pos rfl, active]
    rfl
  · refine Bounds.contains_nonnegative.1 (meets.column_contains ?_)
    rw [Program.columns_cappedColumn _ inside, if_pos rfl]
    rfl
  · have contains := meets.rows p.rows.size _ (by rw [Program.rows_cappedColumn, if_pos rfl])
    simpa [Bounds.contains_point, one_eq] using contains

/-- Where the reduction is exact, the row that it is about is kept. -/
theorem Rewrite.own_row_contains (rewrite : Rewrite settings p r q) (exact : p.Exact) (admits : p.Admits r)
    (meets : q.Meets y) {i : Nat} {row : Row ExtRat} (active : p.rows.get? i = some row)
    (own : r.ownRow? = some i) : row.bounds.Contains (.finite (row.entries.value (r.pointBefore y))) := by
  have proper := (exact.rows i row active).proper
  cases rewrite.atRow active own with
  | dropFreeRow free =>
    exact Bounds.contains_of_isFree free _
  | addSurplus finite =>
    rw [eq_finite_of_isFinite finite] at meets
    obtain ⟨balance, within⟩ := Program.Meets.withRange (c := -1) meets active
    have activity : row.entries.value y = row.bounds.lower.toRat + y p.columns.size := by linarith
    change row.bounds.Contains (.finite (row.entries.value y))
    rw [activity]
    exact (proper.contains_range_above finite).1 within
  | addSlack finite =>
    rw [eq_finite_of_isFinite finite] at meets
    obtain ⟨balance, within⟩ := Program.Meets.withRange (c := 1) meets active
    have activity : row.entries.value y = row.bounds.upper.toRat - y p.columns.size := by linarith
    change row.bounds.Contains (.finite (row.entries.value y))
    rw [activity]
    exact (proper.contains_range_below finite).1 within
  | dropEmptyRow empty =>
    rw [empty]
    exact admits row active
  | @settleSingleton j column coefficient equality single column_active =>
    obtain ⟨b, t, _, _, _, value⟩ := exact.single_value active equality single
    have settled : y j = b / t :=
      meets.eq_of_point (by simp [Program.columns_settledBy, column_active, value])
    change row.bounds.Contains (.finite (row.entries.value y))
    rw [exact.settled_value active equality single, value, settled]

/-- Where the reduction is exact, the bounds of the column that it is about are kept. -/
theorem Rewrite.own_column_contains (rewrite : Rewrite settings p r q) (exact : p.Exact) (admits : p.Admits r)
    (meets : q.Meets y) {j : Nat} {column : Column ExtRat} (active : p.columns.get? j = some column)
    (own : r.ownColumn? = some j) : column.bounds.Contains (.finite (r.pointBefore y j)) := by
  have proper := (exact.columns j column active).proper
  cases rewrite.atColumn active own with
  | splitFree free =>
    exact Bounds.contains_of_isFree free _
  | shiftLower finite =>
    have within :=
      meets.columns j _ (by rw [Program.columns_shiftedColumn, if_pos rfl, active, Option.map_some])
    change column.bounds.Contains (.finite (Function.update y j _ j))
    rw [Function.update_self]
    exact (proper.contains_range_above finite).1 within
  | flipUpper finite =>
    have within :=
      meets.columns j _ (by rw [Program.columns_flippedColumn, if_pos rfl, active, Option.map_some])
    change column.bounds.Contains (.finite (Function.update y j _ j))
    rw [Function.update_self]
    exact (proper.contains_range_below finite).1 within
  | splitUpper grounded finite =>
    rw [eq_finite_of_isFinite finite] at meets
    obtain ⟨above, companion, total⟩ := meets.cappedColumn active
    change column.bounds.Contains (.finite (y j))
    rw [Bounds.contains_finite, ExtRat.eq_of_beq (a := 0) grounded, eq_finite_of_isFinite finite,
      finite_le_finite, finite_le_finite]
    exact ⟨above, by linarith⟩
  | substituteFixed fixed finite =>
    change column.bounds.Contains (.finite (Function.update y j _ j))
    obtain ⟨a, point⟩ := proper.eq_point fixed
    rw [Function.update_self, point]
    exact Bounds.contains_point.2 rfl
  | settleEmpty empty bounded =>
    obtain ⟨a, best, contains⟩ := Step.bestValue_contained proper column.cost
    have settled : y j = a := meets.eq_of_point (by simp [Program.columns_boundedColumn, active, best])
    change column.bounds.Contains (.finite (y j))
    rwa [settled]
  | @settleSingleton l row coefficient row_active equality single =>
    obtain ⟨b, t, _, _, _, value⟩ := exact.single_value row_active equality single
    have settled : y j = b / t := meets.eq_of_point (by simp [Program.columns_settledBy, active, value])
    change column.bounds.Contains (.finite (y j))
    rw [settled, ← value]
    exact admits column active

/-- Feasible points are carried back by every exact reduction. -/
theorem Rewrite.meets_before (rewrite : Rewrite settings p r q) (exact : p.Exact) (admits : p.Admits r)
    (meets : q.Meets y) : p.Meets (r.pointBefore y) := by
  refine ⟨fun i row active => ?_, fun j column active => ?_⟩
  · by_cases own : r.ownRow? = some i
    · exact rewrite.own_row_contains exact admits meets active own
    · obtain ⟨row', found, carried⟩ := rewrite.carries_row exact y active own
      exact (carried.contains_iff (exact.rows i row active).proper).1 (meets.rows i row' found)
  · by_cases own : r.ownColumn? = some j
    · exact rewrite.own_column_contains exact admits meets active own
    · obtain ⟨column', found, carried⟩ := rewrite.carries_column exact y 0 active own
      rw [r.pointBefore_of_ne own, ← carried.bounds]
      exact meets.columns j column' found

/-! ## Carrying points forward -/

/-- A point after a reduction is within the bounds of what the reduction changes or adds. -/
structure Record.Suits (r : Record ExtRat) (q : Program ExtRat) (y : Nat → ℚ) : Prop where
  own_row : ∀ i, r.ownRow? = some i → ∀ row, q.rows.get? i = some row →
    row.bounds.Contains (.finite (row.entries.value y))
  new_row : ∀ i, r.newRow? = some i → ∀ row, q.rows.get? i = some row →
    row.bounds.Contains (.finite (row.entries.value y))
  own_column : ∀ j, r.ownColumn? = some j → ∀ column, q.columns.get? j = some column →
    column.bounds.Contains (.finite (y j))
  new_column : ∀ j, r.newColumn? = some j → ∀ column, q.columns.get? j = some column →
    column.bounds.Contains (.finite (y j))

namespace Record

theorem forall_of_none {place : Option Nat} (absent : place = none) {holds : Nat → Prop} :
    ∀ k, place = some k → holds k := by
  intro k present
  rw [absent] at present
  cases present

theorem suits_of_row {i : Nat} (own_row : r.ownRow? = some i) (new_row : r.newRow? = none)
    (own_column : r.ownColumn? = none) (new_column : r.newColumn? = none) (removed : q.rows.get? i = none) :
    r.Suits q y := by
  refine ⟨fun l own row found => ?_, forall_of_none new_row, forall_of_none own_column,
    forall_of_none new_column⟩
  obtain rfl := Option.some.inj (own_row.symm.trans own)
  rw [removed] at found
  cases found

theorem suits_of_column {j : Nat} (own_row : r.ownRow? = none) (new_row : r.newRow? = none)
    (own_column : r.ownColumn? = some j) (new_column : r.newColumn? = none)
    (within : ∀ column, q.columns.get? j = some column → column.bounds.Contains (.finite (y j))) :
    r.Suits q y := by
  refine ⟨forall_of_none own_row, forall_of_none new_row, fun k own => ?_, forall_of_none new_column⟩
  obtain rfl := Option.some.inj (own_column.symm.trans own)
  exact within

end Record

/-- Apart from that, a point after a reduction is feasible if it agrees with one before it. -/
theorem Rewrite.meets_after (rewrite : Rewrite settings p r q) (exact : p.Exact) (meets : p.Meets x)
    (values : ∀ i row, p.rows.get? i = some row → row.entries.value (r.pointBefore y) = row.entries.value x)
    (others : ∀ j column, p.columns.get? j = some column → r.ownColumn? ≠ some j → y j = x j)
    (suits : r.Suits q y) : q.Meets y := by
  refine ⟨fun i row' found => ?_, fun j column' found => ?_⟩
  · by_cases own : r.ownRow? = some i
    · exact suits.own_row i own row' found
    · cases active : p.rows.get? i with
      | none => exact suits.new_row i (rewrite.newRow_of_none exact found active) row' found
      | some row =>
        obtain ⟨row'', found', carried⟩ := rewrite.carries_row exact y active own
        obtain rfl := Option.some.inj (found.symm.trans found')
        rw [carried.contains_iff (exact.rows i row active).proper, values i row active]
        exact meets.rows i row active
  · by_cases own : r.ownColumn? = some j
    · exact suits.own_column j own column' found
    · cases active : p.columns.get? j with
      | none => exact suits.new_column j (rewrite.newColumn_of_none found active) column' found
      | some column =>
        obtain ⟨column'', found', carried⟩ := rewrite.carries_column exact y 0 active own
        obtain rfl := Option.some.inj (found.symm.trans found')
        rw [carried.bounds, others j column active own]
        exact meets.columns j column active

/-- A feasible point after a reduction that gives one before it of no more cost, if there is no tolerance. -/
structure Rewrite.Carries (settings : Settings ExtRat) (p : Program ExtRat) (r : Record ExtRat)
    (q : Program ExtRat) (x y : Nat → ℚ) : Prop where
  meets : q.Meets y
  cost_le : settings.absoluteTolerance = 0 → ∀ j column, p.columns.get? j = some column →
    column.cost.toRat * r.pointBefore y j ≤ column.cost.toRat * x j

/-- It may give the same point before it. -/
theorem Rewrite.carries_of_same (rewrite : Rewrite settings p r q) (exact : p.Exact) (meets : p.Meets x)
    (same : ∀ k column, p.columns.get? k = some column → r.pointBefore y k = x k) (suits : r.Suits q y) :
    Rewrite.Carries settings p r q x y := by
  refine ⟨rewrite.meets_after exact meets (fun i row active => exact.value_congr same active)
    (fun j column active other => ?_) suits, fun _ j column active => ?_⟩
  · rw [← same j column active, r.pointBefore_of_ne other]
  · rw [same j column active]

/-- A new column takes the value that makes its row an equality. -/
theorem Record.suits_withRange (exact : p.Exact) {i : Nat} {row : Row ExtRat}
    (active : p.rows.get? i = some row) {c b t : ℚ} (own_row : r.ownRow? = some i)
    (new_row : r.newRow? = none) (own_column : r.ownColumn? = none)
    (new_column : r.newColumn? = some p.columns.size) (balance : row.entries.value x + c * t = b)
    (within : row.bounds.range.Contains (.finite t)) :
    r.Suits (p.withRange i row.bounds.range (.finite c) (.finite b))
    (Function.update x p.columns.size t) := by
  refine ⟨fun l own row' found => ?_, forall_of_none new_row, forall_of_none own_column,
    fun k added column' found => ?_⟩
  · obtain rfl := Option.some.inj (own_row.symm.trans own)
    rw [Program.rows_withRange, if_pos rfl, active, Option.map_some] at found
    cases found
    have absent := exact.transposed.columns_size_not_mem active
    rw [Bounds.contains_point, Entries.value_append, Entries.value_update_of_not_mem absent]
    simpa using balance
  · obtain rfl := Option.some.inj (new_column.symm.trans added)
    rw [Program.columns_withRange, if_pos rfl] at found
    cases found
    rwa [Function.update_self]

/-! ### Reductions that add or settle columns -/

section

variable {j : Nat} {column : Column ExtRat}

/-- A number is the difference of its positive and its negative part. -/
theorem Rewrite.carries_splitFree (exact : p.Exact) (meets : p.Meets x)
    (active : p.columns.get? j = some column) (free : column.bounds.isFree = true) :
    Rewrite.Carries settings p (.splitFree j p.columns.size) (p.splitColumn j column) x
      (Function.update (Function.update x j (max (x j) 0)) p.columns.size (max (-x j) 0)) := by
  have inside := Slots.ne_size active
  apply Rewrite.carries_of_same (.splitFree active free) exact meets
  · intro k column' found
    rw [Record.pointBefore]
    by_cases same : k = j
    · subst same
      rw [Function.update_self, Function.update_of_ne inside, Function.update_self, Function.update_self]
      rcases le_total 0 (x k) with positive | negative
      · rw [max_eq_left positive, max_eq_right (neg_nonpos.2 positive), sub_zero]
      · rw [max_eq_right negative, max_eq_left (neg_nonneg.2 negative), zero_sub, neg_neg]
    · rw [Function.update_of_ne same, Function.update_of_ne (Slots.ne_size found), Function.update_of_ne same]
  · refine ⟨Record.forall_of_none rfl, Record.forall_of_none rfl, fun k own column' found => ?_,
      fun k added column' found => ?_⟩
    · cases own
      rw [Program.columns_splitColumn, if_neg inside, if_pos rfl, active] at found
      cases found
      rw [Function.update_of_ne inside, Function.update_self]
      exact Bounds.contains_nonnegative.2 (le_max_right ..)
    · cases added
      rw [Program.columns_splitColumn, if_pos rfl] at found
      cases found
      rw [Function.update_self]
      exact Bounds.contains_nonnegative.2 (le_max_right ..)

/-- The companion takes what is left of the upper bound. -/
theorem Rewrite.carries_splitUpper (exact : p.Exact) (meets : p.Meets x)
    (active : p.columns.get? j = some column) (grounded : (column.bounds.lower == 0) = true)
    (finite : Scalar.isFinite column.bounds.upper = true) :
    Rewrite.Carries settings p (.splitUpper j p.columns.size p.rows.size column.bounds.upper)
      (p.cappedColumn j column.bounds.upper) x
          (Function.update x p.columns.size (column.bounds.upper.toRat - x j)) := by
  have inside := Slots.lt_size active
  have apart := Slots.ne_size active
  have contains := meets.columns j column active
  rw [Bounds.contains_finite, ExtRat.eq_of_beq (a := 0) grounded, eq_finite_of_isFinite finite,
    finite_le_finite, finite_le_finite] at contains
  apply Rewrite.carries_of_same (.splitUpper active grounded finite) exact meets
  · exact fun k column' found => Function.update_of_ne (Slots.ne_size found) ..
  · refine ⟨Record.forall_of_none rfl, fun l added row' found => ?_, fun k own column' found => ?_,
      fun k added column' found => ?_⟩
    · cases added
      rw [Program.rows_cappedColumn, if_pos rfl] at found
      cases found
      rw [eq_finite_of_isFinite finite, Bounds.contains_point]
      simp [Function.update_of_ne apart, one_eq]
    · cases own
      rw [Program.columns_cappedColumn _ inside, if_neg apart, if_pos rfl, active] at found
      cases found
      rw [Function.update_of_ne apart]
      exact Bounds.contains_nonnegative.2 contains.1
    · cases added
      rw [Program.columns_cappedColumn _ inside, if_pos rfl] at found
      cases found
      rw [Function.update_self]
      exact Bounds.contains_nonnegative.2 (sub_nonneg.2 contains.2)

/-- A column without coefficients moves to its best bound, which costs no more without a tolerance. -/
theorem Rewrite.exists_carries_settleEmpty (exact : p.Exact) (meets : p.Meets x)
    (active : p.columns.get? j = some column) (empty : column.entries = [])
    (bounded : Step.isUnboundedDirection column.bounds column.cost settings.absoluteTolerance = false) :
    ∃ y, Rewrite.Carries settings p
      (.settleEmpty j (Step.bestValue column.bounds column.cost).1
        (Step.bestValue column.bounds column.cost).2)
      (p.boundedColumn j (.point (Step.bestValue column.bounds column.cost).1)) x y := by
  obtain ⟨proper, cost⟩ := exact.columns j column active
  obtain ⟨a, best, _⟩ := Step.bestValue_contained proper column.cost
  refine ⟨Function.update x j a, ?_, fun tolerance k column' found => ?_⟩
  · apply Rewrite.meets_after (.settleEmpty active empty bounded) exact meets
    · exact fun i row found => Entries.value_update_of_not_mem (exact.empty_not_mem active empty found) a
    · exact fun k column' found other => Function.update_of_ne
        (fun same => other (congrArg some same.symm)) ..
    · apply Record.suits_of_column rfl rfl rfl rfl
      intro column' found
      rw [Program.columns_boundedColumn, if_pos rfl, active, best] at found
      cases found
      rw [Function.update_self]
      exact Bounds.contains_point.2 rfl
  · change column'.cost.toRat * Function.update x j a k ≤ _
    by_cases same : k = j
    · subst same
      obtain rfl := Option.some.inj (active.symm.trans found)
      rw [tolerance, cost] at bounded
      have holds := Step.bestValue_holds proper bounded
      rw [← cost, best, cost] at holds
      rw [Function.update_self]
      exact Bounds.cost_le_of_holds holds (meets.columns k column active)
    · rw [Function.update_of_ne same]

end

/-- Feasible points are carried forward by every reduction, at no more cost if there is no tolerance. -/
theorem Rewrite.exists_carries (rewrite : Rewrite settings p r q) (exact : p.Exact) (meets : p.Meets x) :
    ∃ y, Rewrite.Carries settings p r q x y := by
  have rewritten := rewrite
  cases rewrite with
  | @dropFreeRow i row active free =>
    refine ⟨x, rewritten.carries_of_same exact meets (fun _ _ _ => rfl)
      (Record.suits_of_row rfl rfl rfl rfl ?_)⟩
    rw [Program.rows_withoutRow, if_pos rfl]
  | @addSurplus i row active finite inequality =>
    rw [eq_finite_of_isFinite finite] at rewritten ⊢
    have within := ((exact.rows i row active).proper.contains_range_above finite).2
      (by rw [add_sub_cancel]; exact meets.rows i row active)
    refine ⟨Function.update x p.columns.size (row.entries.value x - row.bounds.lower.toRat),
      rewritten.carries_of_same exact meets (fun k column found => ?_) ?_⟩
    · exact Function.update_of_ne (Slots.ne_size found) ..
    · exact Record.suits_withRange (c := -1) exact active rfl rfl rfl rfl (by ring) within
  | @addSlack i row active finite inequality =>
    rw [eq_finite_of_isFinite finite] at rewritten ⊢
    have within := ((exact.rows i row active).proper.contains_range_below finite).2
      (by rw [sub_sub_cancel]; exact meets.rows i row active)
    refine ⟨Function.update x p.columns.size (row.bounds.upper.toRat - row.entries.value x),
      rewritten.carries_of_same exact meets (fun k column found => ?_) ?_⟩
    · exact Function.update_of_ne (Slots.ne_size found) ..
    · exact Record.suits_withRange (c := 1) exact active rfl rfl rfl rfl (by ring) within
  | splitFree active free => exact ⟨_, Rewrite.carries_splitFree exact meets active free⟩
  | @shiftLower j column active finite =>
    refine ⟨Function.update x j (x j - column.bounds.lower.toRat),
      rewritten.carries_of_same exact meets (fun k column' found => ?_)
        (Record.suits_of_column rfl rfl rfl rfl ?_)⟩
    · rw [Record.pointBefore, Function.update_idem, Function.update_self, add_sub_cancel,
        Function.update_eq_self]
    · intro column' found
      rw [Program.columns_shiftedColumn, if_pos rfl, active] at found
      cases found
      rw [Function.update_self, (exact.columns j column active).proper.contains_range_above finite,
        add_sub_cancel]
      exact meets.columns j column active
  | @flipUpper j column active finite =>
    refine ⟨Function.update x j (column.bounds.upper.toRat - x j),
      rewritten.carries_of_same exact meets (fun k column' found => ?_)
        (Record.suits_of_column rfl rfl rfl rfl ?_)⟩
    · rw [Record.pointBefore, Function.update_idem, Function.update_self, sub_sub_cancel,
        Function.update_eq_self]
    · intro column' found
      rw [Program.columns_flippedColumn, if_pos rfl, active] at found
      cases found
      rw [Function.update_self, (exact.columns j column active).proper.contains_range_below finite,
        sub_sub_cancel]
      exact meets.columns j column active
  | splitUpper active grounded finite =>
    exact ⟨_, Rewrite.carries_splitUpper exact meets active grounded finite⟩
  | @substituteFixed j column active fixed finite =>
    have contains := meets.columns j column active
    obtain ⟨a, point⟩ := (exact.columns j column active).proper.eq_point fixed
    refine ⟨x, rewritten.carries_of_same exact meets (fun k column' found => ?_)
      (Record.suits_of_column rfl rfl rfl rfl ?_)⟩
    · rw [point] at contains
      rw [Record.pointBefore, point, Bounds.point, toRat_finite, ← Bounds.contains_point.1 contains,
        Function.update_eq_self]
    · intro column' found
      simp [Program.columns_substituted] at found
  | @dropEmptyRow i row active empty within =>
    refine ⟨x, rewritten.carries_of_same exact meets (fun _ _ _ => rfl)
      (Record.suits_of_row rfl rfl rfl rfl ?_)⟩
    rw [Program.rows_withoutRow, if_pos rfl]
  | settleEmpty active empty bounded =>
    exact Rewrite.exists_carries_settleEmpty exact meets active empty bounded
  | @settleSingleton i j row column coefficient row_active equality single column_active admitted =>
    refine ⟨x, rewritten.carries_of_same exact meets (fun _ _ _ => rfl)
      ⟨fun l own row' found => ?_, Record.forall_of_none rfl, fun k own column' found => ?_,
        Record.forall_of_none rfl⟩⟩
    · cases own
      simp [Program.rows_settledBy] at found
    · cases own
      rw [Program.columns_settledBy, column_active, Option.map_some, if_pos rfl] at found
      cases found
      rw [(exact.settled_value row_active equality single).1 (meets.rows i row row_active)]
      exact Bounds.contains_point.2 rfl

end

end LinearReduction
