import LinearReduction.Proofs.Exact.Certificate
import LinearReduction.Proofs.Exact.Rewrites
import LinearReduction.Proofs.Recovery.Undone

/-!
# Recovered values

Recovery computes values for all rows and columns, while reductions are followed in terms of numbers for the
columns and multipliers for the rows. Main statements: undoing a record keeps primal values equal to
activities and numbers, and dual values equal to multipliers and net costs.
-/

namespace LinearReduction

open ExtRat

/-- Primal values are the activities of the rows and the numbers of the columns. -/
structure Program.Shows (p : Program ExtRat) (v : Valuation ExtRat) (x : Nat → ℚ) : Prop where
  rows : ∀ i row, p.rows.get? i = some row → v.rows i = .finite (row.entries.value x)
  columns : ∀ j column, p.columns.get? j = some column → v.columns j = .finite (x j)

/-- Values of columns are the numbers that are given for them, whatever the values of rows are. -/
def Program.ShowsColumns (p : Program ExtRat) (v : Valuation ExtRat) (x : Nat → ℚ) : Prop :=
  ∀ j column, p.columns.get? j = some column → v.columns j = .finite (x j)

/-- Dual values are the multipliers of the rows and the net costs of the columns. -/
structure Program.Prices (p : Program ExtRat) (v : Valuation ExtRat) (y : Nat → ℚ) : Prop where
  rows : ∀ i row, p.rows.get? i = some row → v.rows i = .finite (y i)
  columns : ∀ j column, p.columns.get? j = some column → v.columns j = .finite (column.netCost y)

namespace Valuation

variable {v : Valuation ExtRat} {entries : Entries ExtRat} {l : Nat} {a : ℚ}

/-- Every row gets its share of the amount. -/
theorem rows_addActivities (rational : entries.Rational) (distinct : entries.ordinals.Nodup)
    (shown : v.rows l = .finite a) (t : ℚ) :
    (v.addActivities entries (.finite t)).rows l = .finite (a + entries.coefficient l * t) := by
  induction entries generalizing v a with
  | nil => simpa [addActivities, Entries.coefficient] using shown
  | cons first rest inductionHypothesis =>
    obtain ⟨k, c⟩ := first
    obtain ⟨absent, distinct⟩ := List.nodup_cons.1 distinct
    have finite : c = .finite c.toRat := (rational (k, c) (by simp)).1
    have later : Entries.Rational rest := fun entry listed => rational entry (List.mem_cons_of_mem _ listed)
    change ((v.setRow k (v.rows k + c * .finite t)).addActivities rest (.finite t)).rows l = _
    by_cases same : k = l
    · subst same
      have added : (v.setRow k (v.rows k + c * .finite t)).rows k = .finite (a + c.toRat * t) := by
        rw [rows_setRow, if_pos rfl, shown, finite, finite_mul, finite_add, toRat_finite]
      rw [inductionHypothesis later distinct added, Entries.coefficient_of_not_mem absent,
        Entries.coefficient_cons_self, zero_mul, add_zero]
    · have kept : (v.setRow k (v.rows k + c * .finite t)).rows l = .finite a := by
        rw [rows_setRow, if_neg (Ne.symm same), shown]
      rw [inductionHypothesis later distinct kept, Entries.coefficient_cons_of_ne same]

end Valuation

section

variable {settings : Settings ExtRat} {p q : Program ExtRat} {r : Record ExtRat} {v : Valuation ExtRat}
  {x y : Nat → ℚ} {price : ℚ}

/-! ## Primal values -/

/-- The column of a reduction contributes to every other row what its share says. -/
theorem Rewrite.rows_primalBefore (rewrite : Rewrite settings p r q) (exact : p.Exact) {l : Nat} {a : ℚ}
    (other : r.ownRow? ≠ some l) (shown : v.rows l = .finite a) :
    (r.primalBefore v).rows l = .finite (a + r.share l) := by
  have unchanged : v.rows l = .finite (a + 0) := by rw [shown, add_zero]
  have kept : ∀ {i : Nat} {value : ExtRat}, some i ≠ some l →
      (v.setRow i value).rows l = .finite (a + 0) := by
    intro i value apart
    rw [Valuation.rows_setRow, if_neg fun same => apart (congrArg some same.symm), unchanged]
  have shared : ∀ {j : Nat} {column : Column ExtRat} {value bound : ExtRat}, p.columns.get? j = some column →
      Scalar.isFinite bound = true → ((v.setColumn j value).addActivities column.entries bound).rows l =
        .finite (a + column.entries.coefficient l * bound.toRat) := by
    intro j column value bound active finite
    have distinct := exact.transposed.columns_nodup j column active
    rw [eq_finite_of_isFinite finite]
    exact Valuation.rows_addActivities (v := v.setColumn j value) (exact.column_rational active)
      distinct shown _
  cases rewrite with
  | dropFreeRow active free => exact kept other
  | addSurplus active finite inequality => exact kept other
  | addSlack active finite inequality => exact kept other
  | splitFree active free => exact unchanged
  | shiftLower active finite => exact shared active finite
  | flipUpper active finite => exact shared active finite
  | splitUpper active grounded finite => exact unchanged
  | substituteFixed active fixed finite => exact shared active finite
  | dropEmptyRow active empty within => exact kept other
  | settleEmpty active empty bounded => exact unchanged
  | settleSingleton row_active equality single column_active admitted => exact kept other

theorem Program.Shows.withRange {i : Nat} {range : Bounds ExtRat} {c b : ExtRat}
    (shows : (p.withRange i range c b).Shows v x) {row : Row ExtRat} (active : p.rows.get? i = some row) :
    v.rows i = .finite (row.entries.value x + c.toRat * x p.columns.size) ∧
      v.columns p.columns.size = .finite (x p.columns.size) := by
  constructor
  · have shown := shows.rows i _ (by rw [Program.rows_withRange, if_pos rfl, active, Option.map_some])
    rw [shown, Entries.value_append, Entries.value_cons, Entries.value_nil, add_zero]
  · exact shows.columns p.columns.size _ (by rw [Program.columns_withRange, if_pos rfl])

/-- The row that a reduction is about gets its activity. -/
theorem Rewrite.own_row_shown (rewrite : Rewrite settings p r q) (exact : p.Exact)
    (shows : q.Shows v x) {i : Nat} {row : Row ExtRat} (active : p.rows.get? i = some row)
    (own : r.ownRow? = some i) :
    (r.primalBefore v).rows i = .finite (row.entries.value (r.pointBefore x)) := by
  cases rewrite.atRow active own with
  | dropFreeRow free =>
    rw [Record.primalBefore, Valuation.rows_setRow, if_pos rfl]
    refine Entries.sum_eq_finite (fun entry listed => ((exact.rows i row active).rational entry listed).1)
      fun k listed => ?_
    obtain ⟨column, found⟩ := exact.transposed.column_active active listed
    exact shows.columns k _ (by rw [Program.columns_withoutRow, found, Option.map_some])
  | addSurplus finite =>
    obtain ⟨activity, value⟩ := shows.withRange active
    rw [Record.primalBefore, Valuation.rows_setRow, if_pos rfl, activity, value, finite_add]
    congr 1
    simp [Record.pointBefore, one_eq]
  | addSlack finite =>
    obtain ⟨activity, value⟩ := shows.withRange active
    rw [Record.primalBefore, Valuation.rows_setRow, if_pos rfl, activity, value, finite_neg, finite_add]
    congr 1
    simp [Record.pointBefore, one_eq]
  | dropEmptyRow empty =>
    rw [Record.primalBefore, Valuation.rows_setRow, if_pos rfl, empty, Entries.value_nil, zero_eq]
  | @settleSingleton j column coefficient equality single column_active =>
    obtain ⟨b, t, _, coefficient_eq, _, _⟩ := exact.single_value active equality single
    have value := shows.columns j _ (by rw [Program.columns_settledBy, column_active, Option.map_some])
    rw [Record.primalBefore, Valuation.rows_setRow, if_pos rfl, value, coefficient_eq, finite_mul, single,
      Entries.value_cons, Entries.value_nil, add_zero, coefficient_eq]
    rfl

/-- The column that a reduction is about gets its number. -/
theorem Rewrite.own_column_shown (rewrite : Rewrite settings p r q) (shown : q.ShowsColumns v x) {j : Nat}
    {column : Column ExtRat} (active : p.columns.get? j = some column) (own : r.ownColumn? = some j) :
    (r.primalBefore v).columns j = .finite (r.pointBefore x j) := by
  cases rewrite.atColumn active own with
  | splitFree free =>
    have value := shown j _ (by
      rw [Program.columns_splitColumn, if_neg (Slots.ne_size active), if_pos rfl, active, Option.map_some])
    have negative := shown p.columns.size _ (by rw [Program.columns_splitColumn, if_pos rfl])
    rw [Record.primalBefore, Valuation.columns_setColumn, if_pos rfl, value, negative, finite_sub,
      Record.pointBefore, Function.update_self]
  | shiftLower finite =>
    have value := shown j _ (by rw [Program.columns_shiftedColumn, if_pos rfl, active, Option.map_some])
    rw [Record.primalBefore, Valuation.columns_addActivities, Valuation.columns_setColumn, if_pos rfl, value,
      Record.pointBefore, Function.update_self, eq_finite_of_isFinite finite, finite_add, toRat_finite]
  | flipUpper finite =>
    have value := shown j _ (by rw [Program.columns_flippedColumn, if_pos rfl, active, Option.map_some])
    rw [Record.primalBefore, Valuation.columns_addActivities, Valuation.columns_setColumn, if_pos rfl, value,
      Record.pointBefore, Function.update_self, eq_finite_of_isFinite finite, finite_sub, toRat_finite]
  | splitUpper grounded finite =>
    exact shown j _ (by rw [Program.columns_cappedColumn _ (Slots.lt_size active),
      if_neg (Slots.ne_size active), if_pos rfl, active, Option.map_some])
  | substituteFixed fixed finite =>
    rw [Record.primalBefore, Valuation.columns_addActivities, Valuation.columns_setColumn, if_pos rfl,
      Record.pointBefore, Function.update_self]
    exact eq_finite_of_isFinite finite
  | settleEmpty empty bounded =>
    exact shown j _ (by rw [Program.columns_boundedColumn, if_pos rfl, active, Option.map_some])
  | @settleSingleton l row coefficient row_active equality single =>
    exact shown j _ (by rw [Program.columns_settledBy, active, Option.map_some])

/-- Undoing a record keeps values of columns equal to numbers. -/
theorem Rewrite.columns_shown_before (rewrite : Rewrite settings p r q) (exact : p.Exact)
    (shown : q.ShowsColumns v x) : p.ShowsColumns (r.primalBefore v) (r.pointBefore x) := by
  intro j column active
  by_cases own : r.ownColumn? = some j
  · exact rewrite.own_column_shown shown active own
  · obtain ⟨column', found, _⟩ := rewrite.carries_column exact x 0 active own
    rw [Record.columns_primalBefore own, r.pointBefore_of_ne own]
    exact shown j column' found

/-- Undoing a record keeps primal values equal to activities and numbers. -/
theorem Rewrite.shows_before (rewrite : Rewrite settings p r q) (exact : p.Exact) (shows : q.Shows v x) :
    p.Shows (r.primalBefore v) (r.pointBefore x) := by
  refine ⟨fun i row active => ?_, rewrite.columns_shown_before exact shows.columns⟩
  by_cases own : r.ownRow? = some i
  · exact rewrite.own_row_shown exact shows active own
  · obtain ⟨row', found, carried⟩ := rewrite.carries_row exact x active own
    rw [carried.value]
    exact rewrite.rows_primalBefore exact own (shows.rows i row' found)

/-! ## Dual values -/

theorem Program.Prices.withRange {i : Nat} {range : Bounds ExtRat} {c b : ExtRat}
    (prices : (p.withRange i range c b).Prices v y) :
    v.columns p.columns.size = .finite (-(c.toRat * y i)) := by
  have priced := prices.columns p.columns.size _ (by rw [Program.columns_withRange, if_pos rfl])
  rw [priced]
  simp [Column.netCost, zero_eq]

/-- The row that a reduction is about gets its multiplier. -/
theorem Rewrite.own_row_priced (rewrite : Rewrite settings p r q) (exact : p.Exact)
    (settles : r.Settles q y price) (prices : q.Prices v y) {i : Nat} {row : Row ExtRat}
    (active : p.rows.get? i = some row) (own : r.ownRow? = some i) :
    (r.dualBefore v).rows i = .finite (r.multipliersBefore y price i) := by
  cases rewrite.atRow active own with
  | dropFreeRow free =>
    rw [Record.dualBefore, Valuation.rows_setRow, if_pos rfl, Record.multipliersBefore,
      Function.update_self, zero_eq]
  | addSurplus finite =>
    rw [Record.dualBefore, Valuation.rows_setRow, if_pos rfl, prices.withRange]
    simp [Record.multipliersBefore, one_eq]
  | addSlack finite =>
    rw [Record.dualBefore, Valuation.rows_setRow, if_pos rfl, prices.withRange]
    simp [Record.multipliersBefore, one_eq]
  | dropEmptyRow empty =>
    rw [Record.dualBefore, Valuation.rows_setRow, if_pos rfl, Record.multipliersBefore,
      Function.update_self, zero_eq]
  | @settleSingleton j column coefficient equality single column_active =>
    obtain ⟨b, t, _, coefficient_eq, nonzero, _⟩ := exact.single_value active equality single
    have found : (p.settledBy i j (row.bounds.lower / coefficient)).columns.get? j = some { column with
        bounds := .point (row.bounds.lower / coefficient)
        entries := column.entries.erase i } := by
      rw [Program.columns_settledBy, column_active, Option.map_some, if_pos rfl]
    have balance := settles _ found
    have priced := prices.columns j _ found
    rw [Record.dualBefore, Valuation.rows_setColumn, Valuation.rows_setRow, if_pos rfl, priced, ← balance,
      coefficient_eq, finite_div _ nonzero, toRat_finite, mul_div_cancel_left₀ _ nonzero,
      Record.multipliersBefore, Function.update_self]

/-- The column that a reduction is about gets its net cost. -/
theorem Rewrite.own_column_priced (rewrite : Rewrite settings p r q) (exact : p.Exact)
    (settles : r.Settles q y price) (certified : q.Certified x y) (prices : q.Prices v y) {j : Nat}
    {column : Column ExtRat} (active : p.columns.get? j = some column) (own : r.ownColumn? = some j) :
    (r.dualBefore v).columns j = .finite (column.netCost (r.multipliersBefore y price)) := by
  cases rewrite.atColumn active own with
  | splitFree free =>
    rw [Record.dualBefore, Valuation.columns_setColumn, if_pos rfl, zero_eq]
    exact congrArg ExtRat.finite (certified.free_unpriced active).symm
  | shiftLower finite =>
    have priced :=
      prices.columns j _ (by rw [Program.columns_shiftedColumn, if_pos rfl, active, Option.map_some])
    exact priced
  | flipUpper finite =>
    have priced :=
      prices.columns j _ (by rw [Program.columns_flippedColumn, if_pos rfl, active, Option.map_some])
    rw [Record.dualBefore, Valuation.columns_setColumn, if_pos rfl, priced, Column.netCost_opposite,
      finite_neg, neg_neg]
    rfl
  | splitUpper grounded finite =>
    have inside := Slots.lt_size active
    have priced := prices.columns j _ (by
      rw [Program.columns_cappedColumn _ inside, if_neg (Slots.ne_size active), if_pos rfl, active,
        Option.map_some])
    have companion :=
      prices.columns p.columns.size _ (by rw [Program.columns_cappedColumn _ inside, if_pos rfl])
    rw [Record.dualBefore, Valuation.columns_setColumn, if_pos rfl, priced, companion, finite_sub]
    simp [Column.netCost, Entries.value_append, Record.multipliersBefore, zero_eq, one_eq, ← sub_sub]
  | substituteFixed fixed finite =>
    have terms : Scalar.sum (column.entries.map fun entry => entry.2 * v.rows entry.1) =
        .finite (column.entries.value y) := by
      apply Entries.sum_eq_finite (fun entry listed => (exact.column_rational active entry listed).1)
      intro i listed
      obtain ⟨row, row_active⟩ := Slots.isActive_iff.1 (exact.transposed.row_isActive active listed)
      have distinct := exact.transposed.columns_nodup j column active
      exact prices.rows i _ (by rw [Program.rows_substituted _ distinct, row_active, Option.map_some])
    rw [Record.dualBefore, Valuation.columns_setColumn, if_pos rfl, terms,
      (exact.columns j column active).cost, finite_sub]
    rfl
  | settleEmpty empty bounded =>
    have priced :=
      prices.columns j _ (by rw [Program.columns_boundedColumn, if_pos rfl, active, Option.map_some])
    exact priced
  | @settleSingleton l row coefficient row_active equality single =>
    rw [Record.dualBefore, Valuation.columns_setColumn, if_pos rfl, Record.multipliersBefore,
      exact.settled_unpriced row_active active single settles, zero_eq]

/-- Undoing a record keeps dual values equal to multipliers and net costs. -/
theorem Rewrite.prices_before (rewrite : Rewrite settings p r q) (exact : p.Exact)
    (settles : r.Settles q y price) (certified : q.Certified x y) (prices : q.Prices v y) :
    p.Prices (r.dualBefore v) (r.multipliersBefore y price) := by
  constructor
  · intro i row active
    by_cases own : r.ownRow? = some i
    · exact rewrite.own_row_priced exact settles prices active own
    · obtain ⟨row', found, _⟩ := rewrite.carries_row exact x active own
      rw [Record.rows_dualBefore own, r.multipliersBefore_of_ne own]
      exact prices.rows i row' found
  · intro j column active
    by_cases own : r.ownColumn? = some j
    · exact rewrite.own_column_priced exact settles certified prices active own
    · obtain ⟨column', found, carried⟩ := rewrite.carries_column exact y price active own
      rw [Record.columns_dualBefore own, ← carried.netCost_eq]
      exact prices.columns j column' found

end

/-! ## All records -/

section

variable {settings : Settings ExtRat} {p q : Program ExtRat} {records : List (Record ExtRat)}
    {v w : Valuation ExtRat}
  {x y : Nat → ℚ}

theorem Rewrites.columns_shown_before (rewrites : Rewrites settings p records q) (exact : p.Exact)
    (shown : q.ShowsColumns v x) :
    p.ShowsColumns (records.foldl Record.primalBefore v) (records.foldl Record.pointBefore x) := by
  induction rewrites generalizing v x with
  | refl => exact shown
  | rewrite before rewrite inductionHypothesis =>
    exact inductionHypothesis (rewrite.columns_shown_before (before.exact exact) shown)

theorem Rewrites.shows_before (rewrites : Rewrites settings p records q) (exact : p.Exact)
    (shows : q.Shows v x) : p.Shows (records.foldl Record.primalBefore v)
    (records.foldl Record.pointBefore x) := by
  induction rewrites generalizing v x with
  | refl => exact shows
  | rewrite before rewrite inductionHypothesis =>
    exact inductionHypothesis (rewrite.shows_before (before.exact exact) shows)

/-- Without a tolerance, what recovery computes from a certificate is a certificate. -/
theorem Rewrites.certified_before (rewrites : Rewrites settings p records q) (exact : p.Exact)
    (tolerates : settings.Tolerates 0 0) (certified : q.Certified x y) (prices : q.Prices w y) :
    ∃ y', p.Certified (records.foldl Record.pointBefore x) y' ∧
    p.Prices (records.foldl Record.dualBefore w) y' := by
  induction rewrites generalizing w x y with
  | refl => exact ⟨y, certified, prices⟩
  | rewrite before rewrite inductionHypothesis =>
    have exact_between := before.exact exact
    obtain ⟨price, settles⟩ := rewrite.exists_settles exact_between y
    exact inductionHypothesis (rewrite.certified_before exact_between tolerates settles certified)
      (rewrite.prices_before exact_between settles certified prices)

end

end LinearReduction
