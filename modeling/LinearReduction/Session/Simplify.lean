import LinearReduction.Session.Agenda
import LinearReduction.Session.Reduce

/-!
# Simplification

Everything that can be reduced in one go: eliminate rows and columns until nothing applies any more,
then bring what is left in standard form. When the program turns out to have no optimal solution, the
session keeps the reductions that were made up to there.
-/

namespace LinearReduction

namespace Step

open Fault (ensure)

variable {α : Type} [Scalar α]

/-- Work through an agenda, for at most the given number of eliminations. -/
def workThrough : Nat → Agenda → Step α Unit
  | 0, _ => pure ()
  | budget + 1, agenda => do
      match agenda.next? (← get) with
      | none => pure ()
      | some (e, rest) =>
          discard (reduce e.reduction e.ordinal)
          workThrough budget (rest.wake e)

/-- Eliminate rows and columns until nothing applies. Every elimination empties a slot and none adds
    one, so that there can't be more eliminations than slots. -/
def exhaust : Step α Unit := do
  let p := (← get).program
  workThrough (p.rows.size + p.columns.size) (.full p)

def equateRow (i : Nat) : Step α Unit := do
  let row ← edit (Edit.fetchRow i)
  if row.bounds.isFree then
    discard (reduce .dropFreeRow i)
  else if Scalar.isFinite row.bounds.lower then
    discard (reduce .addSurplus i)
  else
    discard (reduce .addSlack i)

/-- Make a column nonnegative, with zero as its lower bound. -/
def groundColumn (j : Nat) : Step α Unit := do
  let column ← edit (Edit.fetchColumn j)
  if column.bounds.isFree then
    discard (reduce .splitFree j)
  else if Scalar.isFinite column.bounds.lower then
    unless column.bounds.lower == 0 do discard (reduce .shiftLower j)
  else
    discard (reduce .flipUpper j)

/-- Bring the program in standard form: first the rows, which may add columns, then all columns, and
    last, if asked for, the upper bounds that are left. -/
def toStandardForm : Step α Unit := do
  let rows := (← get).program.rows.active
  (rows.filter (!·.2.bounds.isPoint)).forM fun (i, _) => equateRow i
  (← get).program.columns.ordinals.forM groundColumn
  let s ← get
  if s.settings.splitUpperBounds then
    (s.program.columns.active.filter (Scalar.isFinite ·.2.bounds.upper)).forM fun (j, _) =>
      discard (reduce .splitUpper j)

def conclude : Step α Summary := do
  let s ← get
  ensure s.program.isCoherent .incoherentProgram
  return s.summary

/-- Reduce the program as far as the settings ask for. -/
def simplify : Step α Summary := do
  exhaust
  if (← get).settings.standardForm then toStandardForm
  conclude

end Step

end LinearReduction
