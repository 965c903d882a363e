import LinearReduction.Fault
import LinearReduction.Program.Basic

/-!
# Editing programs

The changes that reductions are composed of. Each of them keeps the two views of the coefficients in
agreement, and each checks what it relies on: an ordinal that isn't active is refused, and a change
that would leave the program with meaningless bounds, costs or coefficients is a breach. An edit that
fails leaves the changes it made before the failure.
-/

namespace LinearReduction

/-- A computation that edits a program and may fail. -/
abbrev Edit (α : Type) := EStateM (Fault α) (Program α)

namespace Edit

open Fault (require ensure)

variable {α : Type} [Scalar α]

def fetchRow (i : Nat) : Edit α (Row α) := do
  match (← get).rows.get? i with
  | some row => pure row
  | none => throw (.refused (.inactive .row i))

def fetchColumn (j : Nat) : Edit α (Column α) := do
  match (← get).columns.get? j with
  | some column => pure column
  | none => throw (.refused (.inactive .column j))

def modifyRow (i : Nat) (change : Row α → Row α) : Edit α Unit := do
  discard (fetchRow i)
  modify (·.adjustRow i change)

def modifyColumn (j : Nat) (change : Column α → Column α) : Edit α Unit := do
  discard (fetchColumn j)
  modify (·.adjustColumn j change)

def newRow (bounds : Bounds α) : Edit α Nat := do
  ensure bounds.isProper .improperBounds
  modifyGet fun p => (p.rows.size, p.pushRow bounds)

def newColumn (bounds : Bounds α) (domain : Domain) (cost : α) : Edit α Nat := do
  ensure bounds.isProper .improperBounds
  modifyGet fun p => (p.columns.size, p.pushColumn bounds domain cost)

def connect (i j : Nat) (value : α) : Edit α Unit := do
  ensure (value != 0) .zeroCoefficient
  let column ← fetchColumn j
  ensure (!column.entries.mentions i) .duplicateCoefficient
  discard (fetchRow i)
  modify (·.link i j value)

/-- Leave a removed row out of one of its columns. -/
def forgetRow (i j : Nat) : Edit α Unit := do
  let column ← fetchColumn j
  ensure (column.entries.mentions i) .missingCoefficient
  modify (·.adjustColumn j fun column => { column with entries := column.entries.erase i })

/-- Leave a removed column out of one of its rows. -/
def forgetColumn (j i : Nat) : Edit α Unit := do
  let row ← fetchRow i
  ensure (row.entries.mentions j) .missingCoefficient
  modify (·.adjustRow i fun row => { row with entries := row.entries.erase j })

/-- Remove a row together with its coefficients, and return it as it was. -/
def dropRow (i : Nat) : Edit α (Row α) := do
  let removed ← fetchRow i
  modify fun p => { p with rows := p.rows.clear i }
  removed.entries.ordinals.forM (forgetRow i)
  return removed

/-- Remove a column together with its coefficients, and return it as it was. -/
def dropColumn (j : Nat) : Edit α (Column α) := do
  let removed ← fetchColumn j
  modify fun p => { p with columns := p.columns.clear j }
  removed.entries.ordinals.forM (forgetColumn j)
  return removed

def reverseColumn (j : Nat) : Edit α Unit := do
  let rows := (← fetchColumn j).entries.ordinals
  modifyColumn j fun column => { column with entries := column.entries.negate }
  rows.forM fun i => modifyRow i fun row => { row with entries := row.entries.negateAt j }

def boundRow (i : Nat) (bounds : Bounds α) : Edit α Unit := do
  ensure bounds.isProper .improperBounds
  modifyRow i fun row => { row with bounds := bounds }

def boundColumn (j : Nat) (bounds : Bounds α) : Edit α Unit := do
  ensure bounds.isProper .improperBounds
  modifyColumn j fun column => { column with bounds := bounds }

/-- Take a finite amount away from the activity that a row asks for. Absent bounds stay absent. -/
def offsetRow (i : Nat) (amount : α) : Edit α Unit := do
  ensure (Scalar.isFinite amount) .infiniteShift
  modifyRow i fun row => { row with bounds := row.bounds.shift amount }

def priceColumn (j : Nat) (cost : α) : Edit α Unit := do
  ensure (Scalar.isFinite cost) .infiniteCost
  modifyColumn j fun column => { column with cost := cost }

/-- Give a part of a column a constant value: its share of the activities moves into the row bounds,
    and its share of the cost into the fixed cost. -/
def absorb (entries : Entries α) (cost value : α) : Edit α Unit := do
  ensure (Scalar.isFinite value) .infiniteConstant
  entries.forM fun (i, coefficient) => offsetRow i (coefficient * value)
  modify fun p => { p with fixedCost := p.fixedCost + cost * value }

end Edit

end LinearReduction
