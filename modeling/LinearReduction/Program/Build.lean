import LinearReduction.Program.Basic

/-!
# Building programs

Adding rows, columns and coefficients that come from outside. Whatever would make the program
meaningless is turned away, and the program then stays as it was.
-/

namespace LinearReduction

inductive BuildError (α : Type) where
  | improperRowBounds (bounds : Bounds α)
  | improperColumnBounds (bounds : Bounds α)
  | infiniteCost (cost : α)
  | noRow (row : Nat)
  | noColumn (column : Nat)
  | improperCoefficient (row column : Nat) (value : α)
  | duplicateCoefficient (row column : Nat)
  deriving DecidableEq

abbrev Build (α : Type) := EStateM (BuildError α) (Program α)

namespace Build

variable {α : Type} [Scalar α]

def newRow (bounds : Bounds α) : Build α Nat := do
  unless bounds.isProper do throw (.improperRowBounds bounds)
  modifyGet fun p => (p.rows.size, p.pushRow bounds)

def newColumn (bounds : Bounds α) (domain : Domain) (cost : α) : Build α Nat := do
  unless bounds.isProper do throw (.improperColumnBounds bounds)
  unless Scalar.isFinite cost do throw (.infiniteCost cost)
  modifyGet fun p => (p.columns.size, p.pushColumn bounds domain cost)

/-- Set a coefficient that was not set before, to a finite value other than zero. -/
def newCoefficient (i j : Nat) (value : α) : Build α Unit := do
  let p ← get
  unless p.rows.isActive i do throw (.noRow i)
  let some column := p.columns.get? j | throw (.noColumn j)
  if value == 0 || !Scalar.isFinite value then throw (.improperCoefficient i j value)
  if column.entries.mentions i then throw (.duplicateCoefficient i j)
  set (p.link i j value)

/-- Set the part of the cost that depends on no column. -/
def fixCost (value : α) : Build α Unit :=
  modify fun p => { p with fixedCost := value }

end Build

/-- Data for a program, to be added in one go. -/
structure Draft (α : Type) where
  rows : List (Bounds α) := []
  columns : List (Bounds α × Domain × α) := []
  coefficients : List (Nat × Nat × α) := []
  fixedCost : Option α := none

/-- Add everything in a draft, up to the first piece of data that is turned away. -/
def Draft.build {α : Type} [Scalar α] (draft : Draft α) : Build α Unit := do
  draft.rows.forM fun bounds => discard (Build.newRow bounds)
  draft.columns.forM fun (bounds, domain, cost) => discard (Build.newColumn bounds domain cost)
  draft.coefficients.forM fun (i, j, value) => Build.newCoefficient i j value
  draft.fixedCost.forM Build.fixCost

end LinearReduction
