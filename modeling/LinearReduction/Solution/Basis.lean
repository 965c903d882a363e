import LinearReduction.Program.Feasible
import LinearReduction.Solution

/-!
# Bases

What the statuses of a solution mean. The rows and columns outside of the basis determine a point: there
is only one way to give them all the value zero. And each status outside of the basis says where its row
or column stands.
-/

namespace LinearReduction

variable {α : Type} [Scalar α]

/-- A status tells the truth about a value and its bounds. -/
def Status.AgreesWith (status : Status) (b : Bounds α) (value : α) : Prop :=
  match status with
  | .basic => True
  | .atLower => Scalar.isFinite b.lower ∧ value = b.lower
  | .atUpper => Scalar.isFinite b.upper ∧ value = b.upper
  | .free => b.isFree
  | .fixed => b.lower = value ∧ b.upper = value

namespace Program

/-- All statuses tell the truth. A column outside of the basis without bounds is at zero. -/
structure StatusesAgree (p : Program α) (status : Sides Status) (primal : Sides α) : Prop where
  rows : ∀ i row s, p.rows.get? i = some row → status.rows[i]? = some s →
    s.AgreesWith row.bounds (valueAt primal.rows i)
  columns : ∀ j column s, p.columns.get? j = some column → status.columns[j]? = some s →
    s.AgreesWith column.bounds (valueAt primal.columns j)
  free_columns : ∀ j, status.columns[j]? = some .free → valueAt primal.columns j = 0

structure VanishesOutside (p : Program α) (status : Sides Status) (point : List α) : Prop where
  isPoint : p.IsPoint point
  rows : ∀ i row s, p.rows.get? i = some row → status.rows[i]? = some s → s.isNonbasic →
    row.activity point = 0
  columns : ∀ j s, status.columns[j]? = some s → s.isNonbasic → valueAt point j = 0

/-- The basic rows and columns are as many as there are rows, and only the zero point vanishes outside
    of them. -/
structure IsBasis (p : Program α) (status : Sides Status) : Prop where
  rows_length : status.rows.length = p.rows.size
  columns_length : status.columns.length = p.columns.size
  count_eq : status.rows.count .basic + status.columns.count .basic = p.rows.size
  unique : ∀ point, p.VanishesOutside status point → ∀ value ∈ point, value = 0

end Program

end LinearReduction
