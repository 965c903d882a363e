import LinearReduction.Session.Basic

/-!
# Standard form

Reductions that rewrite rows as equalities and columns as nonnegative columns, if need be without an
upper bound. They add columns and rows, which makes the program larger but simpler. Each reduction
checks first that the row or column is of the kind it handles, and changes the program only after that.
-/

namespace LinearReduction

namespace Step

open Fault (require)

variable {α : Type} [Scalar α]

/-- Add a column that takes up the distance of a row to one of its bounds, and make the row an equality
    at that bound. -/
def absorbRange (i : Nat) (range : Bounds α) (coefficient bound : α) : Edit α Nat := do
  let j ← Edit.newColumn range .continuous 0
  Edit.connect i j coefficient
  Edit.boundRow i (.point bound)
  return j

/-- Write `l ≤ ax ≤ u` as `ax - s = l` with `0 ≤ s ≤ u - l`, and return the ordinal of `s`. -/
def addSurplus (i : Nat) : Step α Nat := do
  let row ← edit (Edit.fetchRow i)
  require (Scalar.isFinite row.bounds.lower) (.unbounded .row .lower i)
  require (decide (row.bounds.lower < row.bounds.upper)) (.equality i)
  let surplus ← edit (absorbRange i row.bounds.range (-1) row.bounds.lower)
  record (.addSurplus i surplus)
  return surplus

/-- Write `l ≤ ax ≤ u` as `ax + s = u` with `0 ≤ s ≤ u - l`, and return the ordinal of `s`. -/
def addSlack (i : Nat) : Step α Nat := do
  let row ← edit (Edit.fetchRow i)
  require (Scalar.isFinite row.bounds.upper) (.unbounded .row .upper i)
  require (decide (row.bounds.lower < row.bounds.upper)) (.equality i)
  let slack ← edit (absorbRange i row.bounds.range 1 row.bounds.upper)
  record (.addSlack i slack)
  return slack

def appendNegative (column : Column α) : Edit α Nat := do
  let j ← Edit.newColumn .nonnegative column.domain (-column.cost)
  column.entries.negate.forM fun (i, value) => Edit.connect i j value
  return j

/-- Write a column without bounds as a difference of two nonnegative columns. The first one keeps the
    ordinal, the ordinal of the second one is returned. -/
def splitFree (j : Nat) : Step α Nat := do
  let column ← edit (Edit.fetchColumn j)
  require column.bounds.isFree (.notFree .column j)
  edit (Edit.boundColumn j .nonnegative)
  let negativePart ← edit (appendNegative column)
  record (.splitFree j negativePart)
  return negativePart

/-- Write `x = l + y` with `0 ≤ y ≤ u - l`. -/
def shiftLower (j : Nat) : Step α Unit := do
  let column ← edit (Edit.fetchColumn j)
  let bound := column.bounds.lower
  require (Scalar.isFinite bound) (.unbounded .column .lower j)
  edit (Edit.absorb column.entries column.cost bound)
  edit (Edit.boundColumn j column.bounds.range)
  record (.shiftLower j bound column.entries)

/-- Write `x = u - y` with `0 ≤ y ≤ u - l`. -/
def flipUpper (j : Nat) : Step α Unit := do
  let column ← edit (Edit.fetchColumn j)
  let bound := column.bounds.upper
  require (Scalar.isFinite bound) (.unbounded .column .upper j)
  edit (Edit.absorb column.entries column.cost bound)
  edit (Edit.priceColumn j (-column.cost))
  edit (Edit.reverseColumn j)
  edit (Edit.boundColumn j column.bounds.range)
  record (.flipUpper j bound column.entries)

/-- Add a column and a row that keep a column below a bound, and return their ordinals. -/
def appendCompanion (j : Nat) (bound : α) : Edit α (Nat × Nat) := do
  let companion ← Edit.newColumn .nonnegative .continuous 0
  let row ← Edit.newRow (.point bound)
  Edit.connect row j 1
  Edit.connect row companion 1
  return (companion, row)

/-- Write `0 ≤ x ≤ u` as `x + y = u` with `x` and `y` nonnegative, and return the ordinals of `y` and of
    the new row. -/
def splitUpper (j : Nat) : Step α (Nat × Nat) := do
  let column ← edit (Edit.fetchColumn j)
  let bound := column.bounds.upper
  require (column.bounds.lower == 0) (.notNonnegative j)
  require (Scalar.isFinite bound) (.unbounded .column .upper j)
  edit (Edit.boundColumn j .nonnegative)
  let (companion, row) ← edit (appendCompanion j bound)
  record (.splitUpper j companion row bound)
  return (companion, row)

end Step

end LinearReduction
