import LinearReduction.Proofs.Exact.Condensing
import LinearReduction.Proofs.Exact.Recovered
import LinearReduction.Proofs.Recovery.Replayed

/-!
# Exact solutions

Solutions list their values for rows and columns. Main statements: optimal values are a certificate together
with the values that it gives to rows and columns, certificates and their values are the same for a copy
without empty slots, and a certificate for the form that minimizes gives optimal values for the program
itself.
-/

namespace LinearReduction

open ExtRat

/-- The values that are listed for rows and columns. -/
def Sides.valuation (a : Sides ExtRat) : Valuation ExtRat :=
  ⟨valueAt a.rows, valueAt a.columns⟩

section

variable {p c : Program ExtRat} {primal dual : Sides ExtRat} {v w : Valuation ExtRat} {u m x y : Nat → ℚ}

/-! ## Values of optimal solutions -/

namespace Program

theorem IsQuantity.row_finite (isQuantity : p.IsQuantity primal) {i : Nat} {row : Row ExtRat}
    (active : p.rows.get? i = some row) : valueAt primal.rows i = .finite (valueAt primal.rows i).toRat := by
  have inside : i < primal.rows.length := isQuantity.rows_length ▸ Slots.lt_size active
  apply eq_finite_of_isFinite
  rw [valueAt_eq_getElem inside]
  exact isQuantity.rows_finite _ (List.getElem_mem inside)

/-- A point with its activities. -/
theorem IsPoint.exists_shows (exact : p.Exact) (isPoint : p.IsPoint primal.columns)
    (activities : p.Activities primal) : ∃ x, p.Lists primal.columns x ∧ p.Shows primal.valuation x := by
  refine ⟨_, isPoint.lists, fun i row active => ?_, isPoint.lists.value⟩
  exact (activities i row active).trans (isPoint.lists.activity_eq exact active)

theorem Feasible.exists_shows (exact : p.Exact) (feasible : p.Feasible primal.columns)
    (activities : p.Activities primal) : ∃ x, p.Meets x ∧ p.Shows primal.valuation x := by
  obtain ⟨x, lists, shows⟩ := feasible.isPoint.exists_shows exact activities
  exact ⟨x, (lists.feasible_iff exact).1 feasible, shows⟩

/-- Optimal values are those of a certificate. -/
theorem Optimal.exists_certified (exact : p.Exact) (sense : p.sense = .minimize)
    (optimal : p.Optimal primal dual) : ∃ x y, p.Shows primal.valuation x ∧ p.Prices dual.valuation y ∧
    p.Certified x y := by
  obtain ⟨x, meets, shows⟩ := optimal.feasible.exists_shows exact optimal.activities
  have same_price : ∀ d : ExtRat, p.sense.price d = d := fun d => by rw [sense, Sense.price]
  have prices : p.Prices dual.valuation fun i => (valueAt dual.rows i).toRat := by
    refine ⟨fun i row active => optimal.dual_isQuantity.row_finite active, fun j column active => ?_⟩
    have worth : column.entries.dot dual.rows =
        .finite (column.entries.value fun i => (valueAt dual.rows i).toRat) := by
      apply Entries.dot_eq_finite fun entry listed => (exact.column_rational active entry listed).1
      intro i listed
      obtain ⟨row, found⟩ := Slots.isActive_iff.1 (exact.transposed.row_isActive active listed)
      exact optimal.dual_isQuantity.row_finite found
    apply (optimal.reducedCosts j column active).trans
    rw [Column.reducedCost, worth, (exact.columns j column active).cost, finite_sub]
    rfl
  refine ⟨x, _, shows, prices, meets, fun i row active => ?_, fun j column active => ?_⟩
  · have held := optimal.rows_held i row active
    rw [same_price] at held
    rwa [← shows.rows i row active, ← prices.rows i row active]
  · have held := optimal.columns_held j column active
    rw [same_price] at held
    rwa [← shows.columns j column active, ← prices.columns j column active]

/-! ## Values of copies -/

namespace Copied

theorem certified (copied : p.Copied p.columns.active.length c) (exact : p.Exact)
    (columns_renumbered : p.columns.Renumbers u x) (rows_renumbered : p.rows.Renumbers m y)
    (certified : c.Certified u m) : p.Certified x y := by
  refine ⟨(copied.meets_iff exact columns_renumbered).1 certified.meets, fun i row active => ?_,
    fun j column active => ?_⟩
  · have listed := Slots.getElem?_active_iff.2 ⟨active, rfl⟩
    obtain ⟨row', found, same⟩ := copied.row_eq listed
    rw [← same, ← copied.row_value exact columns_renumbered listed found, ← rows_renumbered _ i row listed]
    exact certified.rows_held _ row' found
  · have listed := Slots.getElem?_active_iff.2 ⟨active, rfl⟩
    have held := certified.columns_held _ _ (copied.column_eq listed)
    rw [Column.netCost, column_value exact rows_renumbered active,
      columns_renumbered _ j column listed] at held
    exact held

end Copied

end Program

/-- The value that is spread to an active slot is the one at its new number. -/
theorem Slots.spread_eq_valueAt {β : Type} {s : Slots β} {values : List ExtRat}
    (fits : values.length = s.active.length) {a i : Nat} {entry : β}
    (listed : s.active[a]? = some (i, entry)) : s.spread 0 values i = valueAt values a := by
  have inside : a < values.length := fits ▸ (List.getElem?_eq_some_iff.1 listed).1
  rw [valueAt_eq_getElem inside]
  exact spread_eq fits listed (List.getElem?_eq_getElem inside)

namespace Session

variable {s : Session ExtRat}

theorem columns_shown_spread (matched : s.isMatchedBy primal = true)
    (copied : s.program.Copied s.program.columns.active.length c)
    (renumbers : s.program.columns.Renumbers u x) (shown : c.ShowsColumns primal.valuation u) :
    s.program.ShowsColumns (s.spread 0 primal) x := by
  intro j column active
  have columns_fit := (isMatchedBy_iff.1 matched).2
  have listed := Slots.getElem?_active_iff.2 ⟨active, rfl⟩
  rw [← renumbers _ j column listed]
  exact (Slots.spread_eq_valueAt columns_fit listed).trans (shown _ _ (copied.column_eq listed))

theorem shows_spread (matched : s.isMatchedBy primal = true) (exact : s.program.Exact)
    (copied : s.program.Copied s.program.columns.active.length c)
    (renumbers : s.program.columns.Renumbers u x) (shows : c.Shows primal.valuation u) :
    s.program.Shows (s.spread 0 primal) x := by
  refine ⟨fun i row active => ?_, columns_shown_spread matched copied renumbers shows.columns⟩
  have rows_fit := (isMatchedBy_iff.1 matched).1
  have listed := Slots.getElem?_active_iff.2 ⟨active, rfl⟩
  obtain ⟨row', found, _⟩ := copied.row_eq listed
  rw [← copied.row_value exact renumbers listed found]
  exact (Slots.spread_eq_valueAt rows_fit listed).trans (shows.rows _ row' found)

theorem prices_spread (matched : s.isMatchedBy dual = true) (exact : s.program.Exact)
    (copied : s.program.Copied s.program.columns.active.length c) (renumbers : s.program.rows.Renumbers m y)
    (prices : c.Prices dual.valuation m) : s.program.Prices (s.spread 0 dual) y := by
  obtain ⟨rows_fit, columns_fit⟩ := isMatchedBy_iff.1 matched
  constructor
  · intro i row active
    have listed := Slots.getElem?_active_iff.2 ⟨active, rfl⟩
    obtain ⟨row', found, _⟩ := copied.row_eq listed
    rw [← renumbers _ i row listed]
    exact (Slots.spread_eq_valueAt rows_fit listed).trans (prices.rows _ row' found)
  · intro j column active
    have listed := Slots.getElem?_active_iff.2 ⟨active, rfl⟩
    have priced := prices.columns _ _ (copied.column_eq listed)
    rw [Column.netCost, Program.Copied.column_value exact renumbers active] at priced
    exact (Slots.spread_eq_valueAt columns_fit listed).trans priced

end Session

/-! ## Values of a program in its own sense -/

/-- The factor that turns costs into those of a program that minimizes. -/
def Sense.sign : Sense → ℚ
  | .minimize => 1
  | .maximize => -1

theorem Sense.sign_mul_sign (sense : Sense) : sense.sign * sense.sign = 1 := by
  cases sense <;> simp [sign]

theorem Sense.price_finite (sense : Sense) (a : ℚ) :
    sense.price (ExtRat.finite a) = .finite (sense.sign * a) := by
  cases sense <;> simp [price, sign]

theorem Sense.price_price (sense : Sense) (a : ℚ) :
    sense.price (sense.price (ExtRat.finite a)) = .finite a := by
  rw [price_finite, price_finite, ← mul_assoc, sign_mul_sign, one_mul]

/-- Dual values as seen by a program of another sense. -/
def Sense.signed (sense : Sense) (v : Valuation ExtRat) : Valuation ExtRat :=
  ⟨fun i => sense.price (v.rows i), fun j => sense.price (v.columns j)⟩

@[simp] theorem Sense.rows_signed (sense : Sense) (v : Valuation ExtRat) (i : Nat) :
    (sense.signed v).rows i = sense.price (v.rows i) := rfl

@[simp] theorem Sense.columns_signed (sense : Sense) (v : Valuation ExtRat) (j : Nat) :
    (sense.signed v).columns j = sense.price (v.columns j) := rfl

theorem Session.signed_sides (s : Session ExtRat) (v : Valuation ExtRat) (rowCount columnCount : Nat) :
    s.signed (v.sides rowCount columnCount) = (s.origin.sense.signed v).sides rowCount columnCount := by
  unfold signed Sense.signed Sense.price
  cases s.origin.sense <;> simp [Valuation.sides, Sides.map]

namespace Valuation

theorem valueAt_rows_sides {rowCount columnCount i : Nat} (inside : i < rowCount) :
    valueAt (v.sides rowCount columnCount).rows i = v.rows i := by
  rw [sides, valueAt_eq_getElem (by simpa using inside)]
  simp

theorem valueAt_columns_sides {rowCount columnCount j : Nat} (inside : j < columnCount) :
    valueAt (v.sides rowCount columnCount).columns j = v.columns j := by
  rw [sides, valueAt_eq_getElem (by simpa using inside)]
  simp

end Valuation

namespace Program

theorem shows_of_asMinimization (shows : p.asMinimization.Shows v x) : p.Shows v x := by
  refine ⟨fun i row active => shows.rows i row (by rwa [rows_asMinimization]), fun j column active => ?_⟩
  exact shows.columns j _ (by rw [columns_asMinimization, active, Option.map_some])

/-- Multipliers change their sign with the costs. -/
theorem prices_of_asMinimization (exact : p.Exact) (prices : p.asMinimization.Prices w y) :
    p.Prices (p.sense.signed w) fun i => p.sense.sign * y i := by
  constructor
  · intro i row active
    have priced := prices.rows i row (by rwa [rows_asMinimization])
    rw [Sense.rows_signed, priced, Sense.price_finite]
  · intro j column active
    have priced := prices.columns j _ (by rw [columns_asMinimization, active, Option.map_some])
    rw [Sense.columns_signed, priced, Sense.price_finite, Column.netCost, Column.netCost,
      Entries.value_mul, mul_sub]
    rw [(exact.columns j column active).cost, Sense.price_finite, toRat_finite, toRat_finite, ← mul_assoc,
      Sense.sign_mul_sign, one_mul]

theorem Full.isQuantity_sides (full : p.Full)
    (rows : ∀ i row, p.rows.get? i = some row → Scalar.isFinite (v.rows i) = true)
    (columns : ∀ j column, p.columns.get? j = some column → Scalar.isFinite (v.columns j) = true) :
    p.IsQuantity (v.sides p.rows.size p.columns.size) := by
  refine ⟨by simp [Valuation.sides], by simp [Valuation.sides], fun value listed => ?_,
    fun value listed => ?_⟩
  · obtain ⟨i, inside, rfl⟩ := List.mem_map.1 listed
    obtain ⟨row, active⟩ := Slots.isActive_iff.1 (full.rows i (List.mem_range.1 inside))
    exact rows i row active
  · obtain ⟨j, inside, rfl⟩ := List.mem_map.1 listed
    obtain ⟨column, active⟩ := Slots.isActive_iff.1 (full.columns j (List.mem_range.1 inside))
    exact columns j column active

theorem Shows.isQuantity_sides (shows : p.Shows v x) (full : p.Full) :
    p.IsQuantity (v.sides p.rows.size p.columns.size) :=
  full.isQuantity_sides (fun i row active => by rw [shows.rows i row active, isFinite_finite])
    fun j column active => by rw [shows.columns j column active, isFinite_finite]

theorem Prices.isQuantity_sides (prices : p.Prices w y) (full : p.Full) :
    p.IsQuantity (w.sides p.rows.size p.columns.size) :=
  full.isQuantity_sides (fun i row active => by rw [prices.rows i row active, isFinite_finite])
    fun j column active => by rw [prices.columns j column active, isFinite_finite]

theorem ShowsColumns.lists_sides (shown : p.ShowsColumns v x) (full : p.Full) :
    p.Lists (v.sides p.rows.size p.columns.size).columns x := by
  refine ⟨⟨by simp [Valuation.sides], fun value listed => ?_⟩, fun j column active => ?_⟩
  · obtain ⟨j, inside, rfl⟩ := List.mem_map.1 listed
    obtain ⟨column, active⟩ := Slots.isActive_iff.1 (full.columns j (List.mem_range.1 inside))
    rw [shown j column active, isFinite_finite]
  · rw [Valuation.valueAt_columns_sides (Slots.lt_size active)]
    exact shown j column active

theorem Shows.lists_sides (shows : p.Shows v x) (full : p.Full) :
    p.Lists (v.sides p.rows.size p.columns.size).columns x :=
  ShowsColumns.lists_sides shows.columns full

theorem Shows.activities_sides (shows : p.Shows v x) (exact : p.Exact) (full : p.Full) :
    p.Activities (v.sides p.rows.size p.columns.size) := by
  intro i row active
  rw [Valuation.valueAt_rows_sides (Slots.lt_size active), shows.rows i row active,
    (shows.lists_sides full).activity_eq exact active]

/-- A certificate for the form that minimizes proves its values optimal. -/
theorem optimal_of_certified (exact : p.Exact) (full : p.Full) (shows : p.asMinimization.Shows v x)
    (prices : p.asMinimization.Prices w y) (certified : p.asMinimization.Certified x y) :
    p.Optimal (v.sides p.rows.size p.columns.size) ((p.sense.signed w).sides p.rows.size p.columns.size) := by
  have shows_own := shows_of_asMinimization shows
  have prices_own := prices_of_asMinimization exact prices
  have lists := shows_own.lists_sides full
  refine ⟨shows_own.isQuantity_sides full, prices_own.isQuantity_sides full,
    (lists.feasible_iff exact).2 (meets_asMinimization.1 certified.meets),
    shows_own.activities_sides exact full,
    fun j column active => ?_, fun i row active => ?_, fun j column active => ?_⟩
  · have worth : column.entries.dot ((p.sense.signed w).sides p.rows.size p.columns.size).rows =
        .finite (column.entries.value fun i => p.sense.sign * y i) := by
      apply Entries.dot_eq_finite fun entry listed => (exact.column_rational active entry listed).1
      intro i listed
      obtain ⟨row, found⟩ := Slots.isActive_iff.1 (exact.transposed.row_isActive active listed)
      rw [Valuation.valueAt_rows_sides (Slots.lt_size found)]
      exact prices_own.rows i row found
    rw [Valuation.valueAt_columns_sides (Slots.lt_size active), prices_own.columns j column active,
      Column.reducedCost, worth, (exact.columns j column active).cost, finite_sub]
    rfl
  · have found : p.asMinimization.rows.get? i = some row := by rwa [rows_asMinimization]
    rw [Valuation.valueAt_rows_sides (Slots.lt_size active),
      Valuation.valueAt_rows_sides (Slots.lt_size active),
      Sense.rows_signed, shows.rows i row found, prices.rows i row found, Sense.price_price]
    exact certified.rows_held i row found
  · have found : p.asMinimization.columns.get? j =
        some { column with cost := p.sense.price column.cost } := by
      rw [columns_asMinimization, active, Option.map_some]
    rw [Valuation.valueAt_columns_sides (Slots.lt_size active),
      Valuation.valueAt_columns_sides (Slots.lt_size active),
      Sense.columns_signed, shows.columns j _ found, prices.columns j _ found, Sense.price_price]
    exact certified.columns_held j _ found

end Program

end

/-! ## An optimum of two columns that share a row -/

/-- The program that is left of `mixedProgram`, without empty slots. -/
def mixedReduced : Program ExtRat where
  sense := .minimize
  fixedCost := .finite (-3)
  rows := ⟨#[some ⟨.point (.finite 2), [(0, .finite 1), (1, .finite 1)]⟩,
    some ⟨.point (.finite 4), [(0, .finite 1), (2, .finite 1)]⟩], 2⟩
  columns := ⟨#[some ⟨.nonnegative, .continuous, .finite (-1), [(0, .finite 1), (1, .finite 1)]⟩,
    some ⟨.nonnegative, .continuous, .finite 0, [(0, .finite 1)]⟩,
    some ⟨.nonnegative, .continuous, .finite 0, [(1, .finite 1)]⟩], 3⟩

/-- Nothing is left for the slack of the first row. -/
def mixedPrimal : Sides ExtRat :=
  ⟨[.finite 2, .finite 4], [.finite 2, .finite 0, .finite 2]⟩

/-- The first row is worth as much as the column costs. -/
def mixedDual : Sides ExtRat :=
  ⟨[.finite (-1), .finite 0], [.finite 0, .finite 1, .finite 0]⟩

theorem mixedSession_condensed : mixedSession.program.condense = .ok ⟨mixedReduced, [0, 2], [0, 2, 3]⟩ := by
  decide +kernel

theorem mixedPrimal_optimal : mixedReduced.Optimal mixedPrimal mixedDual where
  primal_isQuantity := ⟨by rfl, by rfl, by decide, by decide⟩
  dual_isQuantity := ⟨by rfl, by rfl, by decide, by decide⟩
  feasible := by
    refine ⟨⟨by rfl, by decide⟩, fun i row active => ?_, fun j column active => ?_⟩
    · match i, active with
      | 0, active => cases active; decide +kernel
      | 1, active => cases active; decide +kernel
    · match j, active with
      | 0, active => cases active; decide +kernel
      | 1, active => cases active; decide +kernel
      | 2, active => cases active; decide +kernel
  activities := by
    intro i row active
    match i, active with
    | 0, active => cases active; decide +kernel
    | 1, active => cases active; decide +kernel
  reducedCosts := by
    intro j column active
    match j, active with
    | 0, active => cases active; decide +kernel
    | 1, active => cases active; decide +kernel
    | 2, active => cases active; decide +kernel
  rows_held := by
    intro i row active
    match i, active with
    | 0, active => cases active; exact ⟨by decide +kernel, by decide +kernel⟩
    | 1, active => cases active; exact ⟨by decide +kernel, by decide +kernel⟩
  columns_held := by
    intro j column active
    match j, active with
    | 0, active => cases active; exact ⟨by decide +kernel, by decide +kernel⟩
    | 1, active => cases active; exact ⟨by decide +kernel, by decide +kernel⟩
    | 2, active => cases active; exact ⟨by decide +kernel, by decide +kernel⟩

end LinearReduction
