import LinearReduction.Proofs.Exact.Justified

/-!
# Programs in which nothing can be eliminated

Whatever can be eliminated from a program is left out by everything that leads to a program in which nothing
can be eliminated. Main statements: `Program.Settles.removes_within` for a single elimination,
`Program.Settles.not_evident`, that a program which leads there shows no sign of having no optimal solution,
and `Program.Leaves.eq_of_leaves`, that programs that are left of each other are the same.
-/

namespace LinearReduction

open ExtRat

/-- Leaving out something of a program is justified and leads to another program. -/
structure Program.Settles (p : Program ExtRat) (m : Removal) (u : Program ExtRat) : Prop where
  leaves : p.Leaves m u
  justified : m.Justified p

section

variable {settings : Settings ExtRat} {p q u : Program ExtRat} {m n : Removal} {r : Reduction} {i j k : Nat}
  {row : Row ExtRat} {column : Column ExtRat}

theorem Program.Settles.nothing (p : Program ExtRat) : p.Settles .nothing p :=
  ⟨.nothing p, .nothing p⟩

/-! ## Rows and columns that are left out -/

namespace Program.Leaves

variable (leaves : p.Leaves m u) (irreducible : u.Irreducible)
include leaves irreducible

theorem freeRow_removed (active : p.rows.get? i = some row) (proper : row.bounds.Proper)
    (free : row.bounds.isFree = true) : m.rows i = true := by
  by_contra kept
  have left := leaves.row_kept active (Bool.eq_false_iff.2 kept)
  exact irreducible .dropFreeRow i rfl ⟨_, left, (proper.isFree_shift _).trans free⟩

theorem emptyRow_removed (active : p.rows.get? i = some row) (empty : row.entries = []) :
    m.rows i = true := by
  by_contra kept
  have left := leaves.row_kept active (Bool.eq_false_iff.2 kept)
  exact irreducible .dropEmptyRow i rfl ⟨_, left, by rw [Removal.remainingRow, Removal.keptIn, empty]; rfl⟩

theorem singletonRow_removed (active : p.rows.get? i = some row)
    (equality : row.bounds.isPoint = true) {c : ExtRat} (single : row.entries = [(j, c)]) :
    m.rows i = true := by
  by_contra kept
  have left := leaves.row_kept active (Bool.eq_false_iff.2 kept)
  cases value : m.value? j with
  | some a =>
    -- Nothing would be left of the row then, which makes it an empty one.
    have empty : m.keptIn row = [] := by simp [Removal.keptIn, single, value]
    exact irreducible .dropEmptyRow i rfl ⟨_, left, empty⟩
  | none =>
    have unchanged : m.remainingRow row = row :=
      Removal.remainingRow_of_none fun k listed => by
        obtain rfl : k = j := by simpa [single, Entries.ordinals] using listed
        exact value
    rw [unchanged] at left
    exact irreducible .settleSingleton i rfl ⟨row, j, c, left, equality, single⟩

theorem emptyColumn_substituted (active : p.columns.get? j = some column) (empty : column.entries = []) :
    ∃ a, m.value? j = some a := by
  by_contra kept
  have left := leaves.column_kept active (Option.eq_none_iff_forall_ne_some.2 fun a value => kept ⟨a, value⟩)
  exact irreducible .settleEmpty j rfl ⟨_, left, by rw [Removal.remainingColumn, empty]; rfl⟩

theorem fixedColumn_substituted (active : p.columns.get? j = some column)
    (fixed : column.bounds.isPoint = true) : ∃ a, m.value? j = some a := by
  by_contra kept
  have left := leaves.column_kept active (Option.eq_none_iff_forall_ne_some.2 fun a value => kept ⟨a, value⟩)
  exact irreducible .substituteFixed j rfl ⟨_, left, fixed⟩

end Program.Leaves

namespace Program.Settles

variable (settles : p.Settles m u) (irreducible : u.Irreducible)
include settles irreducible

/-- An empty row is left out, and only if it holds. -/
theorem emptyRow_contains (active : p.rows.get? i = some row) (empty : row.entries = []) :
    row.bounds.Contains 0 := by
  have removed := settles.leaves.emptyRow_removed irreducible active empty
  rcases settles.justified.rows active removed with free | ⟨_, contains⟩
  · exact Bounds.contains_of_isFree free 0
  · rwa [empty] at contains

/-- An equality row leaves its only column a single value. -/
theorem singletonRow_value {b t : ℚ} (active : p.rows.get? i = some row)
    (equality : row.bounds = .point (.finite b)) (single : row.entries = [(j, .finite t)]) (nonzero : t ≠ 0) :
    m.value? j = some (b / t) := by
  have point := (congrArg Bounds.isPoint equality).trans (Bounds.isPoint_point b)
  have removed := settles.leaves.singletonRow_removed irreducible active point single
  rcases settles.justified.rows active removed with free | ⟨substituted, contains⟩
  · rw [equality] at free
    cases free
  · obtain ⟨a, value⟩ := Option.isSome_iff_exists.1 (substituted j (by simp [single, Entries.ordinals]))
    rw [single, equality, Bounds.contains_point, Entries.value_cons, Entries.value_nil,
      add_zero, toRat_finite, Removal.point_of_some value] at contains
    rw [value, ← contains, mul_div_cancel_left₀ a nonzero]

/-- No row asks for another value of an empty column than the best one. -/
theorem emptyColumn_value (exact : p.Exact) (active : p.columns.get? j = some column)
    (empty : column.entries = []) : ∃ a, m.value? j = some a ∧
    Step.isUnboundedDirection column.bounds column.cost 0 = false ∧
      (Step.bestValue column.bounds column.cost).1 = .finite a := by
  obtain ⟨a, value⟩ := settles.leaves.emptyColumn_substituted irreducible active empty
  exact ⟨a, value, settles.justified.best active value (.of_empty exact active empty)⟩

theorem fixedColumn_value {a : ℚ} (active : p.columns.get? j = some column)
    (fixed : column.bounds = .point (.finite a)) : m.value? j = some a := by
  have point := (congrArg Bounds.isPoint fixed).trans (Bounds.isPoint_point a)
  obtain ⟨b, value⟩ := settles.leaves.fixedColumn_substituted irreducible active point
  have contains := settles.justified.contained active value
  rw [fixed, Bounds.contains_point] at contains
  rw [value, contains]

/-! ## Eliminations -/

/-- What an elimination leaves out is left out in any case. -/
theorem removes_within (exact : p.Exact) (removes : p.Removes settings r k n) : n.Within m := by
  have row : ∀ {i : Nat}, m.rows i = true → (Removal.row i).Within m := fun removed =>
    ⟨fun l same => by rw [eq_of_beq same, removed], nofun⟩
  have column : ∀ {j : Nat} {a : ℚ}, m.value? j = some a → (Removal.column j a).Within m := fun value =>
    ⟨nofun, fun l b substituted => by
      obtain ⟨rfl, rfl⟩ := Removal.value?_column substituted
      exact value⟩
  cases removes with
  | @dropFreeRow _ other active free =>
    exact row (settles.leaves.freeRow_removed irreducible active (exact.rows k other active).proper free)
  | dropEmptyRow active empty within => exact row (settles.leaves.emptyRow_removed irreducible active empty)
  | substituteFixed active fixed => exact column (settles.fixedColumn_value irreducible active fixed)
  | settleEmpty active empty bounded best =>
    obtain ⟨a, value, _, chosen⟩ := settles.emptyColumn_value irreducible exact active empty
    cases chosen.symm.trans best
    exact column value
  | settleSingleton row_active equality single nonzero column_active admitted =>
    have point := (congrArg Bounds.isPoint equality).trans (Bounds.isPoint_point _)
    have removed := settles.leaves.singletonRow_removed irreducible row_active point single
    have value := settles.singletonRow_value irreducible row_active equality single nonzero
    exact (row removed).and (column value)

/-- The program shows no reason why it could have no optimal solution. -/
theorem not_evident (exact : p.Exact) (tolerates : settings.Tolerates 0 0) (cause : NoOptimum ExtRat) :
    ¬ cause.Evident settings p := by
  cases cause with
  | zeroOutOfBounds i bounds =>
    rintro ⟨row, active, empty, rfl, outside⟩
    rw [tolerates.absolute_eq] at outside
    exact Bounds.zero_within (settles.emptyRow_contains irreducible active empty) le_rfl outside
  | unboundedColumn j cost =>
    rintro ⟨column, active, empty, rfl, unbounded⟩
    rw [tolerates.absolute_eq] at unbounded
    obtain ⟨_, _, bounded, _⟩ := settles.emptyColumn_value irreducible exact active empty
    exact Bool.false_ne_true (bounded.symm.trans unbounded)
  | valueOutOfBounds i j value bounds =>
    rintro ⟨row, column, coefficient, row_active, equality, single, column_active, rfl, rfl, refused⟩
    obtain ⟨b, t, point, rfl, nonzero, value⟩ := exact.single_value row_active equality single
    have substituted := settles.singletonRow_value irreducible row_active point single nonzero
    have admitted := Step.admits_of_contains tolerates (settles.justified.contained column_active substituted)
    rw [value, admitted] at refused
    cases refused

end Program.Settles

/-! ## Programs that are left of each other -/

namespace Program.Leaves

variable (there : p.Leaves m q) (back : q.Leaves n p)
include there back

theorem rows_kept (active : p.rows.get? i = some row) : m.rows i = false := by
  obtain ⟨_, before, found, _⟩ := back.of_row active
  exact (there.of_row found).1

theorem columns_kept (active : p.columns.get? j = some column) : m.value? j = none := by
  obtain ⟨_, before, found, _⟩ := back.of_column active
  exact (there.of_column found).1

theorem eq_of_leaves (same : p.Transposed) (counted : p.Counted) (also : q.Counted) : q = p := by
  have rows : ∀ i, q.rows.get? i = p.rows.get? i := by
    intro i
    cases active : p.rows.get? i with
    | none => rw [there.rows, active, Option.map_none, ite_self]
    | some row =>
      rw [there.row_kept active (there.rows_kept back active), Removal.remainingRow_of_none]
      intro k listed
      obtain ⟨column, found⟩ := same.column_active active listed
      exact there.columns_kept back found
  have columns : ∀ j, q.columns.get? j = p.columns.get? j := by
    intro j
    cases active : p.columns.get? j with
    | none => rw [there.columns, active, Option.map_none, ite_self]
    | some column =>
      rw [there.column_kept active (there.columns_kept back active), Removal.remainingColumn_of_kept]
      intro i listed
      obtain ⟨row, found⟩ := same.row_active active listed
      exact there.rows_kept back found
  have cost : p.linearCost m.point = 0 := Finset.sum_eq_zero fun j _ => by
    cases active : p.columns.get? j with
    | none => rw [price_of_none active, zero_mul]
    | some column => rw [Removal.point_of_none (there.columns_kept back active), mul_zero]
  have fixedCost : q.fixedCost = p.fixedCost := by rw [there.fixedCost_eq, cost, add_finite_zero]
  obtain ⟨sense, constant, p_rows, p_columns⟩ := p
  obtain ⟨_, _, q_rows, q_columns⟩ := q
  obtain rfl : q_rows = p_rows := Slots.IsCounted.ext also.rows counted.rows there.rows_size rows
  obtain rfl : q_columns = p_columns :=
    Slots.IsCounted.ext also.columns counted.columns there.columns_size columns
  obtain rfl : _ = sense := there.sense_eq
  obtain rfl : _ = constant := fixedCost
  rfl

end Program.Leaves

end

end LinearReduction
