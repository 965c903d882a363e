import LinearReduction.Program.Feasible
import LinearReduction.Solution

/-!
# Optimality conditions

When primal and dual values prove each other optimal: the point is feasible, the reduced costs are those
of the multipliers, and a value can only have a price where it is held back by a bound.
-/

namespace LinearReduction

variable {α : Type} [Scalar α]

/-- A value has a positive price only at its lower bound and a negative price only at its upper bound,
    and such a bound is finite. -/
structure Bounds.Holds (b : Bounds α) (value price : α) : Prop where
  lower : 0 < price → Scalar.isFinite b.lower ∧ value = b.lower
  upper : price < 0 → Scalar.isFinite b.upper ∧ value = b.upper

/-- The price as seen by a program that minimizes. -/
def Sense.price (sense : Sense) (dual : α) : α :=
  match sense with
  | .minimize => dual
  | .maximize => -dual

/-- A finite value for every row and column slot. -/
structure Program.IsQuantity (p : Program α) (values : Sides α) : Prop where
  rows_length : values.rows.length = p.rows.size
  columns_length : values.columns.length = p.columns.size
  rows_finite : ∀ value ∈ values.rows, Scalar.isFinite value
  columns_finite : ∀ value ∈ values.columns, Scalar.isFinite value

/-- The primal values of the rows are their activities. -/
def Program.Activities (p : Program α) (primal : Sides α) : Prop :=
  ∀ i row, p.rows.get? i = some row → valueAt primal.rows i = row.activity primal.columns

/-- Primal and dual values satisfy the optimality conditions. -/
structure Program.Optimal (p : Program α) (primal dual : Sides α) : Prop where
  primal_isQuantity : p.IsQuantity primal
  dual_isQuantity : p.IsQuantity dual
  feasible : p.Feasible primal.columns
  activities : p.Activities primal
  reducedCosts : ∀ j column, p.columns.get? j = some column →
    valueAt dual.columns j = column.reducedCost dual.rows
  rows_held : ∀ i row, p.rows.get? i = some row →
    row.bounds.Holds (valueAt primal.rows i) (p.sense.price (valueAt dual.rows i))
  columns_held : ∀ j column, p.columns.get? j = some column →
    column.bounds.Holds (valueAt primal.columns j) (p.sense.price (valueAt dual.columns j))

end LinearReduction
