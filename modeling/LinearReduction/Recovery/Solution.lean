import LinearReduction.Recovery.Replay
import LinearReduction.Session.Basic

/-!
# Recovering solutions

A solution of the reduced program is carried back to the program that the session began with, by undoing the
records from the latest to the earliest. Whatever a record needs to know is then known already: the rows and
columns it names are either still there, or were removed by a later record.
-/

namespace LinearReduction

structure Recovered (α : Type) where
  solution : Solution α
  objective : α

variable {α : Type}

def Origin.objective [Scalar α] (origin : Origin α) (values : List α) : α :=
  origin.fixedCost + Scalar.sum (List.zipWith (· * ·) origin.costs values)

namespace Session

/-- Whether a quantity is given for the rows and columns of the reduced program. -/
def isMatchedBy {β : Type} (s : Session α) (reduced : Sides β) : Bool :=
  reduced.rows.length == s.program.rows.active.length &&
    reduced.columns.length == s.program.columns.active.length

/-- What a solution of the reduced program says, at the ordinals that it belongs to. -/
def seed (s : Session α) (reduced : Solution α) : Except (Fault α) (Workspace α) :=
  (Workspace.unknown reduced.kind s.program.rows.size s.program.columns.size).seed reduced
    s.program.rows.ordinals s.program.columns.ordinals

variable [Scalar α]

/-- Undo all records in a solution of the reduced program. -/
def replay (s : Session α) (reduced : Solution α) : Except (Fault α) (Solution α) := do
  let w ← s.records.foldlM Workspace.replay (← s.seed reduced)
  w.toSolution s.origin.rowCount s.origin.columnCount

/-- Carry a solution of the reduced program back to the program at the start. The session works on a program
    that minimizes, so that the dual values change sign if the program at the start maximizes. -/
def recover (s : Session α) (reduced : Solution α) : Except (Fault α) (Recovered α) := do
  let undone ← s.replay reduced
  let solution := match s.origin.sense with
    | .minimize => undone
    | .maximize => undone.withOppositeDual
  return ⟨solution, s.origin.objective solution.primal.columns⟩

end Session

end LinearReduction
