import LinearReduction.Proofs.Exact.Cost
import LinearReduction.Proofs.Session.Eliminations

/-!
# What is left of a program

Leaving rows out and substituting columns by values leaves a program that doesn't depend on the order: every
other row keeps its coefficients in the other columns and asks for what the substituted columns don't
contribute, and every other column keeps its coefficients in the other rows. Main statements: what is left can
be taken in steps, every elimination leaves something out and touches nothing else, and nothing else is left.
-/

namespace LinearReduction

open ExtRat

/-- Rows that are left out, and columns that are substituted by values. -/
structure Removal where
  rows : Nat → Bool
  value? : Nat → Option ℚ

namespace Removal

def nothing : Removal :=
  ⟨fun _ => false, fun _ => none⟩

def row (i : Nat) : Removal :=
  ⟨fun l => l == i, fun _ => none⟩

def column (j : Nat) (a : ℚ) : Removal :=
  ⟨fun _ => false, fun k => if k = j then some a else none⟩

def and (m n : Removal) : Removal :=
  ⟨fun i => m.rows i || n.rows i, fun j => (m.value? j).or (n.value? j)⟩

/-- Values of all columns, zero for those that are not substituted. -/
def point (m : Removal) (j : Nat) : ℚ :=
  (m.value? j).getD 0

/-- Coefficients in columns that are not substituted. -/
def keptIn (m : Removal) (row : Row ExtRat) : Entries ExtRat :=
  row.entries.filter fun entry => (m.value? entry.1).isNone

def remainingRow (m : Removal) (row : Row ExtRat) : Row ExtRat :=
  ⟨row.bounds.shift (.finite (row.entries.value m.point)), m.keptIn row⟩

def remainingColumn (m : Removal) (column : Column ExtRat) : Column ExtRat :=
  { column with entries := column.entries.filter fun entry => !m.rows entry.1 }

variable {m n : Removal}

theorem point_of_some {j : Nat} {a : ℚ} (substituted : m.value? j = some a) : m.point j = a := by
  rw [point, substituted]
  rfl

theorem point_of_none {j : Nat} (kept : m.value? j = none) : m.point j = 0 := by
  rw [point, kept]
  rfl

theorem point_and (m n : Removal) (j : Nat) :
    (m.and n).point j = if (m.value? j).isSome then m.point j else n.point j := by
  change ((m.value? j).or (n.value? j)).getD 0 = if _ then (m.value? j).getD 0 else (n.value? j).getD 0
  cases m.value? j <;> simp

/-- Columns that are substituted contribute in two parts. -/
theorem value_and (m n : Removal) (entries : Entries ExtRat) :
    entries.value (m.and n).point = entries.value m.point +
    Entries.value (entries.filter fun entry => (m.value? entry.1).isNone) n.point := by
  induction entries with
  | nil => simp
  | cons first rest inductionHypothesis =>
    rw [Entries.value_cons, Entries.value_cons, inductionHypothesis, point_and, List.filter_cons]
    cases value : m.value? first.1 with
    | some a =>
      simp only [Option.isSome_some, Option.isNone_some, if_true, Bool.false_eq_true, if_false]
      ring
    | none =>
      rw [point_of_none value]
      simp only [Option.isSome_none, Option.isNone_none, if_true, Bool.false_eq_true, if_false,
        Entries.value_cons]
      ring

theorem remainingRow_and (m n : Removal) : (m.and n).remainingRow = n.remainingRow ∘ m.remainingRow := by
  funext row
  simp only [Function.comp_apply, remainingRow, keptIn, Bounds.shift_shift, value_and, List.filter_filter]
  congr 1
  congr 1
  funext entry
  cases value : m.value? entry.1 <;> simp [Removal.and, value]

theorem remainingColumn_and (m n : Removal) :
    (m.and n).remainingColumn = n.remainingColumn ∘ m.remainingColumn := by
  funext column
  simp only [Function.comp_apply, remainingColumn, List.filter_filter]
  congr 1
  congr 1
  funext entry
  simp [Removal.and, Bool.and_comm]

end Removal

structure Program.Leaves (p : Program ExtRat) (m : Removal) (q : Program ExtRat) : Prop where
  sense_eq : q.sense = p.sense
  fixedCost_eq : q.fixedCost = p.fixedCost + .finite (p.linearCost m.point)
  rows_size : q.rows.size = p.rows.size
  columns_size : q.columns.size = p.columns.size
  rows : ∀ i, q.rows.get? i = if m.rows i then none else (p.rows.get? i).map m.remainingRow
  columns : ∀ j, q.columns.get? j = if (m.value? j).isSome then none
    else (p.columns.get? j).map m.remainingColumn

namespace Program.Leaves

variable {p q u : Program ExtRat} {m n : Removal} {i j : Nat}

theorem price_eq (leaves : p.Leaves m q) (j : Nat) :
    q.price j = if (m.value? j).isSome then 0 else p.price j := by
  rw [price, leaves.columns]
  split
  · rfl
  · rw [price, Option.map_map]
    rfl

/-- Columns that are substituted cost in two parts. -/
theorem linearCost_and (first : p.Leaves m q) (n : Removal) :
    p.linearCost (m.and n).point = p.linearCost m.point + q.linearCost n.point := by
  rw [linearCost, linearCost, linearCost, first.columns_size, ← Finset.sum_add_distrib]
  refine Finset.sum_congr rfl fun j _ => ?_
  rw [first.price_eq, Removal.point_and]
  cases value : m.value? j with
  | some a => simp
  | none => simp [Removal.point_of_none value]

/-- Leaving out some and then more is leaving out all of it. -/
theorem and_iff (first : p.Leaves m q) : p.Leaves (m.and n) u ↔ q.Leaves n u := by
  have cost : p.fixedCost + .finite (p.linearCost (m.and n).point) =
      q.fixedCost + .finite (q.linearCost n.point) := by
    rw [first.fixedCost_eq, add_finite_add, first.linearCost_and]
  have rows : ∀ i, (if (m.and n).rows i then none else (p.rows.get? i).map (m.and n).remainingRow) =
      if n.rows i then none else (q.rows.get? i).map n.remainingRow := by
    intro i
    rw [first.rows, Removal.remainingRow_and, ← Option.map_map]
    change (if m.rows i || n.rows i then none else _) = _
    cases m.rows i <;> cases n.rows i <;> simp
  have columns : ∀ j, (if ((m.and n).value? j).isSome then none else
      (p.columns.get? j).map (m.and n).remainingColumn) =
        if (n.value? j).isSome then none else (q.columns.get? j).map n.remainingColumn := by
    intro j
    rw [first.columns, Removal.remainingColumn_and, ← Option.map_map]
    change (if ((m.value? j).or (n.value? j)).isSome then none else _) = _
    cases m.value? j <;> cases n.value? j <;> simp
  constructor
  · intro all
    exact ⟨all.sense_eq.trans first.sense_eq.symm, all.fixedCost_eq.trans cost,
      all.rows_size.trans first.rows_size.symm, all.columns_size.trans first.columns_size.symm,
      fun i => (all.rows i).trans (rows i), fun j => (all.columns j).trans (columns j)⟩
  · intro later
    exact ⟨later.sense_eq.trans first.sense_eq, later.fixedCost_eq.trans cost.symm,
      later.rows_size.trans first.rows_size, later.columns_size.trans first.columns_size,
      fun i => (later.rows i).trans (rows i).symm, fun j => (later.columns j).trans (columns j).symm⟩

theorem row_kept (leaves : p.Leaves m q) {row : Row ExtRat} (active : p.rows.get? i = some row)
    (kept : m.rows i = false) : q.rows.get? i = some (m.remainingRow row) := by
  rw [leaves.rows, kept, active]
  rfl

theorem of_row (leaves : p.Leaves m q) {row : Row ExtRat} (active : q.rows.get? i = some row) :
    m.rows i = false ∧ ∃ before, p.rows.get? i = some before ∧ m.remainingRow before = row := by
  rw [leaves.rows] at active
  split at active
  · cases active
  · exact ⟨Bool.eq_false_iff.2 ‹_›, Option.map_eq_some_iff.1 active⟩

theorem column_kept (leaves : p.Leaves m q) {column : Column ExtRat} (active : p.columns.get? j = some column)
    (kept : m.value? j = none) : q.columns.get? j = some (m.remainingColumn column) := by
  rw [leaves.columns, kept, active]
  rfl

theorem of_column (leaves : p.Leaves m q) {column : Column ExtRat} (active : q.columns.get? j = some column) :
    m.value? j = none ∧ ∃ before, p.columns.get? j = some before ∧ m.remainingColumn before = column := by
  rw [leaves.columns] at active
  split at active
  · cases active
  · exact ⟨Option.not_isSome_iff_eq_none.1 ‹_›, Option.map_eq_some_iff.1 active⟩

end Program.Leaves

/-! ## One row or column -/

namespace Removal

variable {m : Removal} {i j : Nat} {a : ℚ}

theorem value_of_none {entries : Entries ExtRat} (kept : ∀ k ∈ entries.ordinals, m.value? k = none) :
    entries.value m.point = 0 := by
  induction entries with
  | nil => rfl
  | cons first rest inductionHypothesis =>
    rw [Entries.value_cons, point_of_none (kept _ List.mem_cons_self), mul_zero, zero_add]
    exact inductionHypothesis fun k later => kept k (List.mem_cons_of_mem _ later)

theorem mem_ordinals_keptIn {row : Row ExtRat} {k : Nat} :
    k ∈ (m.keptIn row).ordinals ↔ k ∈ row.entries.ordinals ∧ m.value? k = none := by
  simp only [Entries.mem_ordinals, keptIn, List.mem_filter, Option.isNone_iff_eq_none, exists_and_right]

/-- A row without coefficients in substituted columns stays as it is. -/
theorem remainingRow_of_none {row : Row ExtRat} (kept : ∀ k ∈ row.entries.ordinals, m.value? k = none) :
    m.remainingRow row = row := by
  have entries : m.keptIn row = row.entries :=
    List.filter_eq_self.2 fun entry listed => by rw [kept entry.1 (Entries.mem_ordinals_of_mem listed)]; rfl
  rw [remainingRow, value_of_none kept, Bounds.shift_zero, entries]

theorem remainingColumn_of_kept {column : Column ExtRat} (kept : ∀ i ∈ column.entries.ordinals,
      m.rows i = false) : m.remainingColumn column = column := by
  have entries : (column.entries.filter fun entry => !m.rows entry.1) = column.entries :=
    List.filter_eq_self.2 fun entry listed => by rw [kept entry.1 (Entries.mem_ordinals_of_mem listed)]; rfl
  rw [remainingColumn, entries]

theorem point_column : (column j a).point = Function.update (fun _ => 0) j a := by
  funext k
  by_cases same : k = j
  · subst same
    rw [Function.update_self, point_of_some (if_pos rfl)]
  · rw [Function.update_of_ne same, point_of_none (if_neg same)]

theorem value_column {entries : Entries ExtRat} (distinct : entries.ordinals.Nodup) :
    entries.value (column j a).point = entries.coefficient j * a := by
  have zero : entries.value (fun _ => 0) = 0 := value_of_none (m := nothing) fun _ _ => rfl
  rw [point_column, Entries.value_update distinct, zero, zero_add, sub_zero]

end Removal

namespace Program

variable {p : Program ExtRat} {i j : Nat}

theorem Leaves.nothing (p : Program ExtRat) : p.Leaves .nothing p := by
  refine ⟨rfl, ?_, rfl, rfl, fun i => ?_, fun j => ?_⟩
  · have free : p.linearCost Removal.nothing.point = 0 := Finset.sum_eq_zero fun k _ => mul_zero _
    rw [free, add_finite_zero]
  · cases p.rows.get? i with
    | none => rfl
    | some row => exact congrArg some (Removal.remainingRow_of_none (m := .nothing) fun _ _ => rfl).symm
  · cases p.columns.get? j with
    | none => rfl
    | some column => exact congrArg some (Removal.remainingColumn_of_kept (m := .nothing) fun _ _ => rfl).symm

theorem Transposed.leaves_withoutRow (same : p.Transposed) (i : Nat) :
    p.Leaves (.row i) (p.withoutRow i) := by
  refine ⟨rfl, ?_, Slots.size_clear .., Slots.size_map .., fun l => ?_, fun k => ?_⟩
  · have free : p.linearCost (Removal.row i).point = 0 := Finset.sum_eq_zero fun k _ => mul_zero _
    rw [free, add_finite_zero]
    rfl
  · rw [rows_withoutRow]
    by_cases equal : i = l
    · simp [equal, Removal.row]
    · have kept : (Removal.row i).rows l = false := by simpa [Removal.row] using Ne.symm equal
      rw [if_neg equal, kept, if_neg Bool.false_ne_true]
      cases p.rows.get? l with
      | none => rfl
      | some row => exact congrArg some (Removal.remainingRow_of_none (m := .row i) fun _ _ => rfl).symm
  · rw [columns_withoutRow]
    change _ = (p.columns.get? k).map (Removal.row i).remainingColumn
    cases active : p.columns.get? k with
    | none => rfl
    | some column =>
      rw [Option.map_some, Option.map_some, Entries.erase_eq_filter (same.columns_nodup k column active)]
      rfl

theorem Exact.leaves_substituted (exact : p.Exact) {column : Column ExtRat}
    (active : p.columns.get? j = some column) (a : ℚ) :
    p.Leaves (.column j a) (p.substituted j { column with bounds := .point (.finite a) }) := by
  have distinct := exact.transposed.columns_nodup j column active
  have rows_distinct :
    ({ column with bounds := .point (.finite a) } : Column ExtRat).entries.ordinals.Nodup := distinct
  refine ⟨sense_offset .., ?_, ?_, ?_, fun l => ?_, fun k => ?_⟩
  · have cost : p.linearCost (Removal.column j a).point = column.cost.toRat * a := by
      rw [linearCost, Removal.point_column,
        Finset.sum_eq_single_of_mem j (Finset.mem_range.2 (Slots.lt_size active)),
        Function.update_self, price_of_active active]
      intro k _ other
      rw [Function.update_of_ne other, mul_zero]
    rw [cost]
    exact fixedCost_absorbed column.entries (exact.columns j column active).cost rfl
  · exact (size_rows_offset ..).trans (Slots.size_map ..)
  · exact (congrArg Slots.size (columns_offset ..)).trans (Slots.size_clear ..)
  · rw [rows_substituted l rows_distinct]
    change _ = (p.rows.get? l).map (Removal.column j a).remainingRow
    cases found : p.rows.get? l with
    | none => rfl
    | some row =>
      have row_distinct := exact.transposed.rows_nodup l row found
      have share : column.entries.coefficient l = row.entries.coefficient j := by
        rw [Entries.coefficient, Entries.coefficient, exact.transposed.lookup_eq found active]
      have bounds : (row.absorbing (column.entries.lookup l) (.finite a)).bounds = _ :=
        Row.bounds_absorbing (exact.column_rational active) l a
      have entries : row.entries.erase j = (Removal.column j a).keptIn row := by
        rw [Entries.erase_eq_filter row_distinct]
        refine List.filter_congr fun entry _ => ?_
        by_cases same : entry.1 = j <;> simp [Removal.column, same]
      rw [Option.map_some, Option.map_some, Removal.remainingRow, Removal.value_column row_distinct,
        ← share, ← bounds, ← entries]
      rfl
  · rw [columns_substituted]
    by_cases same : j = k
    · simp [Removal.column, same]
    · have kept : (Removal.column j a).value? k = none := if_neg (Ne.symm same)
      rw [if_neg same, kept, Option.isSome_none, if_neg Bool.false_ne_true]
      cases p.columns.get? k with
      | none => rfl
      | some other =>
        exact congrArg some (Removal.remainingColumn_of_kept (m := .column j a) fun _ _ => rfl).symm

end Program

/-! ## Eliminations -/

/-- What an elimination leaves out, and why. -/
inductive Program.Removes (settings : Settings ExtRat) (p : Program ExtRat) :
    Reduction → Nat → Removal → Prop where
  | dropFreeRow {i : Nat} {row : Row ExtRat} (active : p.rows.get? i = some row)
      (free : row.bounds.isFree = true) : Removes settings p .dropFreeRow i (.row i)
  | dropEmptyRow {i : Nat} {row : Row ExtRat} (active : p.rows.get? i = some row) (empty : row.entries = [])
      (within : ¬ (row.bounds.lower > settings.absoluteTolerance ∨ row.bounds.upper <
        -settings.absoluteTolerance)) :
      Removes settings p .dropEmptyRow i (.row i)
  | substituteFixed {j : Nat} {column : Column ExtRat} {a : ℚ} (active : p.columns.get? j = some column)
      (fixed : column.bounds = .point (.finite a)) : Removes settings p .substituteFixed j (.column j a)
  | settleEmpty {j : Nat} {column : Column ExtRat} {a : ℚ} (active : p.columns.get? j = some column)
      (empty : column.entries = [])
      (bounded : Step.isUnboundedDirection column.bounds column.cost settings.absoluteTolerance = false)
      (best : (Step.bestValue column.bounds column.cost).1 = .finite a) :
      Removes settings p .settleEmpty j (.column j a)
  | settleSingleton {i j : Nat} {row : Row ExtRat} {column : Column ExtRat} {b t : ℚ}
      (row_active : p.rows.get? i = some row) (equality : row.bounds = .point (.finite b))
      (single : row.entries = [(j, .finite t)]) (nonzero : t ≠ 0)
        (column_active : p.columns.get? j = some column)
      (admitted : Step.admits settings column.bounds (.finite (b / t)) = true) :
      Removes settings p .settleSingleton i ((Removal.row i).and (.column j (b / t)))

/-- An elimination leaves something out and touches nothing else. -/
theorem Session.Performs.removes {s t : Session ExtRat} {r : Reduction} {k : Nat} {added : Added}
    (performs : s.Performs r k added t) (elimination : r.isElimination = true) (exact : s.program.Exact) :
    ∃ m, s.program.Removes s.settings r k m ∧ s.program.Leaves m t.program := by
  cases r with
  | dropFreeRow =>
    obtain ⟨row, active, free, left⟩ := performs.of_dropFreeRow
    rw [left]
    exact ⟨_, .dropFreeRow active free, exact.transposed.leaves_withoutRow k⟩
  | dropEmptyRow =>
    obtain ⟨row, active, empty, within, left⟩ := performs.of_dropEmptyRow
    rw [left]
    exact ⟨_, .dropEmptyRow active empty within, exact.transposed.leaves_withoutRow k⟩
  | substituteFixed =>
    obtain ⟨column, active, fixed, _, left⟩ := performs.of_substituteFixed
    obtain ⟨a, bounds⟩ := (exact.columns k column active).proper.eq_point fixed
    have same : column = { column with bounds := .point (.finite a) } := by rw [← bounds]
    rw [left, same]
    exact ⟨_, .substituteFixed active bounds, exact.leaves_substituted active a⟩
  | settleEmpty =>
    obtain ⟨column, active, empty, bounded, left⟩ := performs.of_settleEmpty
    obtain ⟨a, best, _⟩ := Step.bestValue_contained (exact.columns k column active).proper column.cost
    rw [best] at left
    rw [left]
    exact ⟨_, .settleEmpty active empty bounded best, exact.leaves_substituted active a⟩
  | settleSingleton =>
    obtain ⟨row, j, coefficient, column, row_active, equality, single, column_active, admitted, left⟩ :=
      performs.of_settleSingleton
    obtain ⟨b, t, bounds, coefficient_eq, nonzero, value⟩ := exact.single_value row_active equality single
    have reduced := (s.program.columns_withoutRow k j).trans (by rw [column_active, Option.map_some])
    rw [value] at admitted left
    rw [coefficient_eq] at single
    rw [left]
    exact ⟨_, .settleSingleton row_active bounds single nonzero column_active admitted,
      (exact.transposed.leaves_withoutRow k).and_iff.2
        ((exact.withoutRow k).leaves_substituted reduced (b / t))⟩
  | _ => cases elimination

end LinearReduction
