import LinearReduction.Session.Basic

/-!
# Eliminations

Reductions that make the program smaller. Some rows restrict nothing, some columns have their value
settled, and an equality row with one column settles the value of that column. Each reduction checks
first that the row or column is of the kind it handles, and changes the program only after that.
-/

namespace LinearReduction

namespace Step

open Fault (require ensure)

variable {α : Type} [Scalar α]

def dropFreeRow (i : Nat) : Step α Unit := do
  let row ← edit (Edit.fetchRow i)
  require row.bounds.isFree (.notFree .row i)
  let removed ← edit (Edit.dropRow i)
  record (.dropFreeRow i removed.entries)

/-- Remove a row without coefficients. Its activity is zero, which has to be within bounds up to the
    absolute tolerance. -/
def dropEmptyRow (i : Nat) : Step α Unit := do
  let row ← edit (Edit.fetchRow i)
  require (row.degree == 0) (.notEmpty .row i)
  let tolerance := (← get).settings.absoluteTolerance
  if row.bounds.lower > tolerance ∨ row.bounds.upper < -tolerance then
    throw (.noOptimum (.zeroOutOfBounds i row.bounds))
  discard (edit (Edit.dropRow i))
  record (.dropEmptyRow i)

/-- Remove a column whose bounds coincide, and substitute its value everywhere. -/
def substituteFixed (j : Nat) : Step α Unit := do
  let column ← edit (Edit.fetchColumn j)
  require column.bounds.isPoint (.notFixed j)
  let removed ← edit (Edit.dropColumn j)
  let value := removed.bounds.lower
  edit (Edit.absorb removed.entries removed.cost value)
  record (.substituteFixed j value removed.cost removed.entries)

def fixColumn (j : Nat) (value : α) : Step α Unit := do
  edit (Edit.boundColumn j (.point value))
  substituteFixed j

/-- The best value of a column that is in no row, and the status it has at that value. Where the cost
    doesn't tell, the bound of smaller magnitude is taken. -/
def bestValue (bounds : Bounds α) (cost : α) : α × Status :=
  match Scalar.isFinite bounds.lower, Scalar.isFinite bounds.upper with
  | false, false => (0, .free)
  | true, false => (bounds.lower, .atLower)
  | false, true => (bounds.upper, .atUpper)
  | true, true =>
      if bounds.isPoint then (bounds.lower, .fixed)
      else if cost > 0 then (bounds.lower, .atLower)
      else if cost < 0 then (bounds.upper, .atUpper)
      else if Scalar.abs bounds.lower ≤ Scalar.abs bounds.upper then (bounds.lower, .atLower)
      else (bounds.upper, .atUpper)

/-- Whether the cost pushes a column towards a bound that it doesn't have, beyond the tolerance. -/
def isUnboundedDirection (bounds : Bounds α) (cost tolerance : α) : Bool :=
  decide (cost > tolerance) && bounds.lower == Scalar.negInf ||
    decide (cost < -tolerance) && bounds.upper == Scalar.posInf

/-- Remove a column without coefficients at its best value. -/
def settleEmpty (j : Nat) : Step α Unit := do
  let column ← edit (Edit.fetchColumn j)
  require (column.degree == 0) (.notEmpty .column j)
  let tolerance := (← get).settings.absoluteTolerance
  if isUnboundedDirection column.bounds column.cost tolerance then
    throw (.noOptimum (.unboundedColumn j column.cost))
  let (value, status) := bestValue column.bounds column.cost
  record (.settleEmpty j value status)
  fixColumn j value

def admits (settings : Settings α) (bounds : Bounds α) (value : α) : Bool :=
  Scalar.isFinite value &&
  !(Scalar.isFinite bounds.lower && decide (value < bounds.lower - settings.margin bounds.lower)) &&
  !(Scalar.isFinite bounds.upper && decide (value > bounds.upper + settings.margin bounds.upper))

/-- Remove an equality row with one column, and the column at the only value that the row allows. -/
def settleSingleton (i : Nat) : Step α Unit := do
  let row ← edit (Edit.fetchRow i)
  require row.bounds.isPoint (.notEquality i)
  match row.entries with
  | [(j, coefficient)] =>
      let value := row.bounds.lower / coefficient
      let column ← edit (Edit.fetchColumn j)
      unless admits (← get).settings column.bounds value do
        throw (.noOptimum (.valueOutOfBounds i j value column.bounds))
      record (.settleSingleton i j coefficient value)
      discard (edit (Edit.dropRow i))
      fixColumn j value
  | _ => throw (.refused (.notSingleton i))

end Step

end LinearReduction
