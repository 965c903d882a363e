import LinearReduction.Bounds
import LinearReduction.Slots

/-!
# Linear programs

A program asks for column values that keep the activity `∑ aᵢⱼ xⱼ` of each row and the value of each
column within bounds, and that make the cost as small or as large as possible. The coefficients are
kept twice, by row and by column. Rows and columns are addressed by their ordinal, the position of
their slot, so that removing some of them leaves the ordinals of all others valid.
-/

namespace LinearReduction

inductive Sense where
  | minimize
  | maximize
  deriving DecidableEq, Repr

/-- Unless told otherwise, a program minimizes. -/
instance : Inhabited Sense := ⟨.minimize⟩

/-- Values that a column may take within its bounds. -/
inductive Domain where
  | continuous
  | integer
  deriving DecidableEq, Repr

/-- Nonzero coefficients of a row or a column, each with the ordinal of the column or row it belongs
    to, in the order in which they were added. -/
abbrev Entries (α : Type) := List (Nat × α)

namespace Entries

variable {α : Type}

def mentions (entries : Entries α) (k : Nat) : Bool :=
  entries.any (·.1 == k)

def erase (entries : Entries α) (k : Nat) : Entries α :=
  entries.eraseP (·.1 == k)

def ordinals (entries : Entries α) : List Nat :=
  entries.map (·.1)

def negate [Neg α] (entries : Entries α) : Entries α :=
  entries.map fun (k, value) => (k, -value)

def negateAt [Neg α] (entries : Entries α) (k : Nat) : Entries α :=
  entries.map fun (l, value) => if l = k then (l, -value) else (l, value)

/-- Put a coefficient in front of the first one that belongs to no smaller ordinal. -/
def insertInOrder (entry : Nat × α) : Entries α → Entries α
  | [] => [entry]
  | first :: rest =>
      if entry.1 ≤ first.1 then entry :: first :: rest else first :: insertInOrder entry rest

def inOrder (entries : Entries α) : Entries α :=
  entries.foldr insertInOrder []

end Entries

/-- A constraint: the activity of the row lies within bounds. -/
structure Row (α : Type) where
  bounds : Bounds α
  /-- Coefficients with the ordinals of their columns. -/
  entries : Entries α
  deriving DecidableEq

/-- A variable, to be given a value within bounds. -/
structure Column (α : Type) where
  bounds : Bounds α
  domain : Domain
  cost : α
  /-- Coefficients with the ordinals of their rows. -/
  entries : Entries α
  deriving DecidableEq

def Row.degree {α : Type} (row : Row α) : Nat :=
  row.entries.length

def Column.degree {α : Type} (column : Column α) : Nat :=
  column.entries.length

structure Program (α : Type) where
  sense : Sense
  /-- Part of the cost that depends on no column. -/
  fixedCost : α
  rows : Slots (Row α)
  columns : Slots (Column α)
  deriving DecidableEq

namespace Program

variable {α : Type}

def empty [Zero α] (sense : Sense) : Program α :=
  ⟨sense, 0, .empty, .empty⟩

/-- Add a row without coefficients, its ordinal is the number of row slots so far. -/
def pushRow (p : Program α) (bounds : Bounds α) : Program α :=
  { p with rows := p.rows.push ⟨bounds, []⟩ }

/-- Add a column without coefficients, its ordinal is the number of column slots so far. -/
def pushColumn (p : Program α) (bounds : Bounds α) (domain : Domain) (cost : α) : Program α :=
  { p with columns := p.columns.push ⟨bounds, domain, cost, []⟩ }

def adjustRow (p : Program α) (i : Nat) (change : Row α → Row α) : Program α :=
  { p with rows := p.rows.modify i change }

def adjustColumn (p : Program α) (j : Nat) (change : Column α → Column α) : Program α :=
  { p with columns := p.columns.modify j change }

/-- Add a coefficient, last in its row and last in its column. -/
def link (p : Program α) (i j : Nat) (value : α) : Program α :=
  (p.adjustRow i fun row => { row with entries := row.entries ++ [(j, value)] }).adjustColumn j
    fun column => { column with entries := column.entries ++ [(i, value)] }

/-- The program that asks for the smallest negated cost instead of the largest cost. A program that
    minimizes already stays as it is. -/
def asMinimization [Neg α] (p : Program α) : Program α :=
  match p.sense with
  | .minimize => p
  | .maximize =>
      { p with
        sense := .minimize
        fixedCost := -p.fixedCost
        columns := p.columns.map fun column => { column with cost := -column.cost } }

end Program

end LinearReduction
