import LinearReduction.Program.Coherence

/-!
# The coefficient matrix

What the two views of the coefficients say, and what it means that they say the same. `Coherent` is the
property that `isCoherent` tests, in terms of what is stored and not of how it is tested.
-/

namespace LinearReduction

namespace Program

variable {α : Type}

def RowLists (p : Program α) (i j : Nat) (value : α) : Prop :=
  ∃ row, p.rows.get? i = some row ∧ (j, value) ∈ row.entries

def ColumnLists (p : Program α) (i j : Nat) (value : α) : Prop :=
  ∃ column, p.columns.get? j = some column ∧ (i, value) ∈ column.entries

/-- Both views are the same matrix, in which no coefficient is given twice. -/
structure Transposed (p : Program α) : Prop where
  agree : ∀ i j value, p.RowLists i j value ↔ p.ColumnLists i j value
  rows_nodup : ∀ i row, p.rows.get? i = some row → row.entries.ordinals.Nodup
  columns_nodup : ∀ j column, p.columns.get? j = some column → column.entries.ordinals.Nodup

structure Counted (p : Program α) : Prop where
  rows : p.rows.active.length = p.rows.occupied
  columns : p.columns.active.length = p.columns.occupied

variable [Scalar α]

structure Bounded (p : Program α) : Prop where
  rows : ∀ i row, p.rows.get? i = some row → row.bounds.isProper
  columns : ∀ j column, p.columns.get? j = some column → column.bounds.isProper

/-- No coefficient is zero or undefined. -/
def Nonzero (p : Program α) : Prop :=
  ∀ i j value, p.RowLists i j value → (value != 0) = true ∧ (value == value) = true

/-- Everything that the reductions rely on. -/
structure Coherent (p : Program α) : Prop where
  counted : p.Counted
  bounded : p.Bounded
  nonzero : p.Nonzero
  transposed : p.Transposed

end Program

end LinearReduction
