import LinearReduction.Program.Coherence
import LinearReduction.Program.Edit
import LinearReduction.Session.Stack
import LinearReduction.Settings

/-!
# Sessions

A program under reduction. A session keeps the program as it is now, the records of what was done to
it, and what has to be known about the program it began with.
-/

namespace LinearReduction

/-- What a session remembers of the program it began with. -/
structure Origin (α : Type) where
  rowCount : Nat
  columnCount : Nat
  /-- Costs by column ordinal, zero where the column was removed already. -/
  costs : List α
  fixedCost : α
  sense : Sense
  deriving DecidableEq

/-- A program under reduction, always one that minimizes. -/
structure Session (α : Type) where
  program : Program α
  settings : Settings α
  stack : Stack α
  origin : Origin α
  deriving DecidableEq

structure Summary where
  initialRows : Nat
  initialColumns : Nat
  rows : Nat
  columns : Nat
  tally : Tally
  deriving DecidableEq

variable {α : Type} [Scalar α]

def Program.origin (p : Program α) : Origin α where
  rowCount := p.rows.size
  columnCount := p.columns.size
  costs := p.columns.cells.toList.map fun cell => (cell.map (·.cost)).getD 0
  fixedCost := p.fixedCost
  sense := p.sense

def Session.begin (program : Program α) (settings : Settings α) : Except (Fault α) (Session α) :=
  if program.isCoherent then
    .ok {
      program := program.asMinimization
      settings := settings
      stack := .empty
      origin := program.origin }
  else
    .error (.breached .incoherentProgram)

/-- Records of all reductions, the latest one first. -/
abbrev Session.records {α : Type} (s : Session α) : List (Record α) :=
  s.stack.records

abbrev Session.tally {α : Type} (s : Session α) : Tally :=
  s.stack.tally

def Session.summary (s : Session α) : Summary where
  initialRows := s.origin.rowCount
  initialColumns := s.origin.columnCount
  rows := s.program.rows.occupied
  columns := s.program.columns.occupied
  tally := s.tally

/-- A computation that reduces the program of a session and may stop. -/
abbrev Step (α : Type) := EStateM (Fault α) (Session α)

namespace Step

def edit {β : Type} (change : Edit α β) : Step α β := fun s =>
  match change s.program with
  | .ok result program => .ok result { s with program := program }
  | .error fault program => .error fault { s with program := program }

/-- Copy the coefficients of a record into the arena, and put the record on top of the others. -/
def record (r : Record α) : Step α Unit :=
  modify fun s => { s with stack := s.stack.store r }

end Step

end LinearReduction
