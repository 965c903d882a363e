import LinearReduction.Session.Basic

/-!
# Agenda

Which rows and columns are still to be looked at while a program is made smaller. Rows come before
columns, and whatever is on the agenda already keeps its place. Rows and columns to which no elimination
applies drop out, and come back when an elimination takes some of their coefficients away.
-/

namespace LinearReduction

/-- An elimination that applies, and the rows and columns to be looked at again once it is done. -/
structure Opportunity where
  reduction : Reduction
  ordinal : Nat
  wakesRows : List Nat
  wakesColumns : List Nat
  deriving DecidableEq, Repr

def Program.rowsOf {α : Type} (p : Program α) (j : Nat) : List Nat :=
  ((p.columns.get? j).map (·.entries.ordinals)).getD []

namespace Session

variable {α : Type} [Scalar α]

def rowOpportunity? (s : Session α) (i : Nat) : Option Opportunity := do
  let row ← s.program.rows.get? i
  if row.degree == 0 && s.settings.dropEmpty then
    return ⟨.dropEmptyRow, i, [], []⟩
  if row.bounds.isFree then
    return ⟨.dropFreeRow, i, [], row.entries.ordinals⟩
  let [(j, _)] := row.entries | none
  unless row.bounds.isPoint && s.settings.dropSingletonRows do none
  return ⟨.settleSingleton, i, (s.program.rowsOf j).filter (· != i), []⟩

def columnOpportunity? (s : Session α) (j : Nat) : Option Opportunity := do
  let column ← s.program.columns.get? j
  if column.degree == 0 && s.settings.dropEmpty then
    return ⟨.settleEmpty, j, [], []⟩
  unless column.bounds.isPoint do none
  return ⟨.substituteFixed, j, column.entries.ordinals, []⟩

end Session

/-- Rows and columns to be looked at, first come, first served. -/
structure Agenda where
  rows : List Nat
  columns : List Nat
  deriving DecidableEq, Repr

namespace Agenda

/-- Put newcomers at the end of the queue, in their order. -/
def enqueue (queue newcomers : List Nat) : List Nat :=
  newcomers.foldl (fun queue k => if k ∈ queue then queue else queue ++ [k]) queue

def full {α : Type} (p : Program α) : Agenda :=
  ⟨p.rows.ordinals, p.columns.ordinals⟩

/-- Look again at the rows and columns that lose coefficients to an elimination. -/
def wake (agenda : Agenda) (e : Opportunity) : Agenda :=
  ⟨enqueue agenda.rows e.wakesRows, enqueue agenda.columns e.wakesColumns⟩

/-- Pass over all ordinals to which nothing applies, up to the first one to which something does. -/
def firstOf (applies : Nat → Option Opportunity) : List Nat → Option (Opportunity × List Nat)
  | [] => none
  | k :: rest =>
      match applies k with
      | some e => some (e, rest)
      | none => firstOf applies rest

/-- The next elimination, and the agenda that is left. -/
def next? {α : Type} [Scalar α] (agenda : Agenda) (s : Session α) : Option (Opportunity × Agenda) :=
  match firstOf s.rowOpportunity? agenda.rows with
  | some (e, rows) => some (e, ⟨rows, agenda.columns⟩)
  | none => (firstOf s.columnOpportunity? agenda.columns).map fun (e, columns) => (e, ⟨[], columns⟩)

end Agenda

end LinearReduction
