import LinearReduction.Solution

/-!
# Partly known quantities

While records are undone, the values of rows and columns become known one after the other. Reading a value
that isn't known yet is refused, so that no value is ever made up. There is a place for every row and column
that the program ever had, and writing anywhere else is a breach.
-/

namespace LinearReduction

/-- One quantity for the rows and columns of a program, as far as it is known. -/
structure Known (quantity : Quantity) (β : Type) where
  rows : Array (Option β)
  columns : Array (Option β)
  deriving DecidableEq

namespace Known

variable {quantity : Quantity} {β : Type} {α : Type}

def unknown (rowCount columnCount : Nat) : Known quantity β :=
  ⟨Array.replicate rowCount none, Array.replicate columnCount none⟩

/-- What was read, if there was something to read. -/
def demand (quantity : Quantity) (axis : Axis) (ordinal : Nat) : Option β → Except (Fault α) β
  | some value => .ok value
  | none => .error (.refused (.unknownValue quantity axis ordinal))

def row (k : Known quantity β) (i : Nat) : Except (Fault α) β :=
  demand quantity .row i k.rows[i]?.join

def column (k : Known quantity β) (j : Nat) : Except (Fault α) β :=
  demand quantity .column j k.columns[j]?.join

/-- Write a value to its place, if there is one. -/
def write (axis : Axis) (cells : Array (Option β)) (ordinal : Nat) (value : β) :
    Except (Fault α) (Array (Option β)) :=
  if inside : ordinal < cells.size then .ok (cells.set ordinal (some value) inside)
  else .error (.breached (.outOfRange axis ordinal))

def setRow (k : Known quantity β) (i : Nat) (value : β) : Except (Fault α) (Known quantity β) := do
  return { k with rows := ← write .row k.rows i value }

def setColumn (k : Known quantity β) (j : Nat) (value : β) : Except (Fault α) (Known quantity β) := do
  return { k with columns := ← write .column k.columns j value }

def place (axis : Axis) (cells : Array (Option β)) (ordinals : List Nat) (values : List β) :
    Except (Fault α) (Array (Option β)) :=
  (ordinals.zip values).foldlM (fun cells (ordinal, value) => write axis cells ordinal value) cells

def seed (k : Known quantity β) (rows columns : List Nat) (values : Sides β) :
    Except (Fault α) (Known quantity β) := do
  return ⟨← place .row k.rows rows values.rows, ← place .column k.columns columns values.columns⟩

/-- The values of the first rows and columns, all of which have to be known. -/
def values (k : Known quantity β) (rowCount columnCount : Nat) : Except (Fault α) (Sides β) := do
  let rows ← (List.range rowCount).mapM k.row
  let columns ← (List.range columnCount).mapM k.column
  return ⟨rows, columns⟩

end Known

end LinearReduction
