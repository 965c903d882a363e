import LinearReduction.Program.Basic

/-!
# Feasible points

What a program asks for. A point gives each column a value, in order of the ordinals, and is feasible if
it keeps all activities and all values within bounds. The domains of the columns are left aside.
-/

namespace LinearReduction

variable {α : Type} [Scalar α]

/-- Value with an ordinal, zero beyond the last one. -/
def valueAt (values : List α) (k : Nat) : α :=
  values.getD k 0

/-- Product of coefficients with the values at their ordinals. -/
def Entries.dot (entries : Entries α) (values : List α) : α :=
  Scalar.sum (entries.map fun (k, coefficient) => coefficient * valueAt values k)

def Bounds.Contains (b : Bounds α) (value : α) : Prop :=
  b.lower ≤ value ∧ value ≤ b.upper

instance (b : Bounds α) (value : α) : Decidable (b.Contains value) :=
  inferInstanceAs (Decidable (_ ∧ _))

def Row.activity (row : Row α) (point : List α) : α :=
  row.entries.dot point

/-- Cost of a column less what its coefficients are worth at the given multipliers of the rows. -/
def Column.reducedCost (column : Column α) (multipliers : List α) : α :=
  column.cost - column.entries.dot multipliers

namespace Program

/-- Cost of a point, as far as it depends on the columns. -/
def variableCost (p : Program α) (point : List α) : α :=
  Scalar.sum (p.columns.active.map fun (j, column) => column.cost * valueAt point j)

def costAt (p : Program α) (point : List α) : α :=
  p.fixedCost + p.variableCost point

/-- A finite value for every column slot. -/
structure IsPoint (p : Program α) (point : List α) : Prop where
  length_eq : point.length = p.columns.size
  finite : ∀ value ∈ point, Scalar.isFinite value

structure Feasible (p : Program α) (point : List α) : Prop where
  isPoint : p.IsPoint point
  rows : ∀ i row, p.rows.get? i = some row → row.bounds.Contains (row.activity point)
  columns : ∀ j column, p.columns.get? j = some column → column.bounds.Contains (valueAt point j)

def Prefers (p : Program α) (cost other : α) : Prop :=
  match p.sense with
  | .minimize => cost ≤ other
  | .maximize => other ≤ cost

/-- A feasible point that no feasible point improves on. -/
structure OptimalPoint (p : Program α) (point : List α) : Prop where
  feasible : p.Feasible point
  best : ∀ other, p.Feasible other → p.Prefers (p.costAt point) (p.costAt other)

end Program

end LinearReduction
