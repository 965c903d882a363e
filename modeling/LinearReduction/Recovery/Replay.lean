import LinearReduction.Record
import LinearReduction.Recovery.Known

/-!
# Replaying records

All quantities of a solution recovered in one pass over the records. Whatever is known so far stands in one
place, and each record reads and writes there what it needs, one quantity after the other. Statuses and dual
values have to be left alone for solutions that don't have them: looking for one is a breach.
-/

namespace LinearReduction

/-- What is known of a solution while records are replayed. -/
structure Workspace (α : Type) where
  kind : Kind
  status : Known .status Status
  primal : Known .primal α
  dual : Known .dual α

/-- Status of a column without bounds, nonbasic only if both of its parts are. -/
def Record.differenceStatus (nonbasic : Bool) : Status :=
  if nonbasic then .free else .basic

/-- Status of a column, given its own and that of the distance to its upper bound. Both are nonnegative
    without an upper bound, so that either of them is basic or at zero. -/
def Record.boundedStatus {α : Type} (column companion : Status) : Except (Fault α) Status :=
  match column, companion with
  | .atLower, .basic | .atLower, .atLower => .ok .atLower
  | .basic, .atLower => .ok .atUpper
  | .basic, .basic => .ok .basic
  | _, _ => .error (.refused (.impossibleStatuses column companion))

namespace Workspace

variable {α : Type}

/-- Nothing is known yet, and there are places for so many rows and columns. -/
def unknown (kind : Kind) (rowCount columnCount : Nat) : Workspace α where
  kind := kind
  status := .unknown rowCount columnCount
  primal := .unknown rowCount columnCount
  dual := .unknown rowCount columnCount

/-- Go on only with a quantity that solutions of the kind have. -/
def expect (quantity : Quantity) (given : Bool) : Except (Fault α) Unit :=
  unless given do throw (.breached (.absentQuantity quantity))

/-- Status of a column, which has to be given by the solution or by a record that was replayed before. -/
def columnStatus (w : Workspace α) (j : Nat) : Except (Fault α) Status := do
  expect .status w.kind.givesStatus
  w.status.column j

def columnPrimal (w : Workspace α) (j : Nat) : Except (Fault α) α :=
  w.primal.column j

def rowDual (w : Workspace α) (i : Nat) : Except (Fault α) α := do
  expect .dual w.kind.givesDual
  w.dual.row i

def columnDual (w : Workspace α) (j : Nat) : Except (Fault α) α := do
  expect .dual w.kind.givesDual
  w.dual.column j

def setRowStatus (w : Workspace α) (i : Nat) (status : Status) : Except (Fault α) (Workspace α) := do
  expect .status w.kind.givesStatus
  return { w with status := ← w.status.setRow i status }

def setColumnStatus (w : Workspace α) (j : Nat) (status : Status) : Except (Fault α) (Workspace α) := do
  expect .status w.kind.givesStatus
  return { w with status := ← w.status.setColumn j status }

def setRowPrimal (w : Workspace α) (i : Nat) (value : α) : Except (Fault α) (Workspace α) := do
  return { w with primal := ← w.primal.setRow i value }

/-- Nothing is asked of the kind here: every solution has primal values. -/
def setColumnPrimal (w : Workspace α) (j : Nat) (value : α) : Except (Fault α) (Workspace α) := do
  return { w with primal := ← w.primal.setColumn j value }

def setRowDual (w : Workspace α) (i : Nat) (value : α) : Except (Fault α) (Workspace α) := do
  expect .dual w.kind.givesDual
  return { w with dual := ← w.dual.setRow i value }

def setColumnDual (w : Workspace α) (j : Nat) (value : α) : Except (Fault α) (Workspace α) := do
  expect .dual w.kind.givesDual
  return { w with dual := ← w.dual.setColumn j value }

/-- Values of a quantity that a solution is supposed to have. -/
def given {β : Type} (quantity : Quantity) : Option (Sides β) → Except (Fault α) (Sides β)
  | some sides => return sides
  | none => throw (.breached (.absentQuantity quantity))

/-- Copy a solution in, given to which ordinals its rows and columns belong. -/
def seed (w : Workspace α) (solution : Solution α) (rows columns : List Nat) :
    Except (Fault α) (Workspace α) := do
  unless solution.kind = w.kind do throw (.breached .kindMismatch)
  unless solution.primal.rows.length = rows.length do throw (.refused .sizeMismatch)
  unless solution.primal.columns.length = columns.length do throw (.refused .sizeMismatch)
  let mut w := { w with primal := ← w.primal.seed rows columns solution.primal }
  if w.kind.givesStatus then
    w := { w with status := ← w.status.seed rows columns (← given .status solution.status?) }
  if w.kind.givesDual then
    w := { w with dual := ← w.dual.seed rows columns (← given .dual solution.dual?) }
  return w

variable [Scalar α]

def addToRowPrimal (w : Workspace α) (i : Nat) (amount : α) : Except (Fault α) (Workspace α) := do
  let value ← w.primal.row i
  w.setRowPrimal i (value + amount)

/-- Add the share that a part of a column has in the activities of its rows. -/
def addToActivities (w : Workspace α) (entries : Entries α) (value : α) : Except (Fault α) (Workspace α) :=
  entries.foldlM (fun w (i, coefficient) => w.addToRowPrimal i (coefficient * value)) w

/-- Recover what a reduction removed or changed. -/
def replay (w : Workspace α) : Record α → Except (Fault α) (Workspace α)
  | .dropFreeRow i entries => do
      let mut w := w
      if w.kind.givesStatus then w ← w.setRowStatus i .basic
      let terms ← entries.mapM fun (j, coefficient) => return coefficient * (← w.columnPrimal j)
      w ← w.setRowPrimal i (Scalar.sum terms)
      if w.kind.givesDual then w ← w.setRowDual i 0
      return w
  | .addSurplus i j => do
      let mut w := w
      if w.kind.givesStatus then w ← w.setRowStatus i (← w.columnStatus j)
      w ← w.addToRowPrimal i (← w.columnPrimal j)
      if w.kind.givesDual then w ← w.setRowDual i (← w.columnDual j)
      return w
  | .addSlack i j => do
      let mut w := w
      if w.kind.givesStatus then w ← w.setRowStatus i (← w.columnStatus j).opposite
      w ← w.addToRowPrimal i (-(← w.columnPrimal j))
      if w.kind.givesDual then w ← w.setRowDual i (-(← w.columnDual j))
      return w
  | .splitFree j k => do
      let mut w := w
      if w.kind.givesStatus then
        let nonbasic ← Status.isNonbasic <$> w.columnStatus j <&&> Status.isNonbasic <$> w.columnStatus k
        w ← w.setColumnStatus j (Record.differenceStatus nonbasic)
      w ← w.setColumnPrimal j ((← w.columnPrimal j) - (← w.columnPrimal k))
      if w.kind.givesDual then w ← w.setColumnDual j 0
      return w
  | .shiftLower j bound entries => do
      let w ← w.setColumnPrimal j (bound + (← w.columnPrimal j))
      w.addToActivities entries bound
  | .flipUpper j bound entries => do
      let mut w := w
      if w.kind.givesStatus then w ← w.setColumnStatus j (← w.columnStatus j).opposite
      w ← w.setColumnPrimal j (bound - (← w.columnPrimal j))
      w ← w.addToActivities entries bound
      if w.kind.givesDual then w ← w.setColumnDual j (-(← w.columnDual j))
      return w
  | .splitUpper j k _ _ => do
      let mut w := w
      if w.kind.givesStatus then
        w ← w.setColumnStatus j (← Record.boundedStatus (← w.columnStatus j) (← w.columnStatus k))
      if w.kind.givesDual then w ← w.setColumnDual j ((← w.columnDual j) - (← w.columnDual k))
      return w
  | .substituteFixed j value cost entries => do
      let mut w := w
      if w.kind.givesStatus then w ← w.setColumnStatus j .fixed
      w ← w.setColumnPrimal j value
      w ← w.addToActivities entries value
      if w.kind.givesDual then
        let terms ← entries.mapM fun (i, coefficient) => return coefficient * (← w.rowDual i)
        w ← w.setColumnDual j (cost - Scalar.sum terms)
      return w
  | .dropEmptyRow i => do
      let mut w := w
      if w.kind.givesStatus then w ← w.setRowStatus i .basic
      w ← w.setRowPrimal i 0
      if w.kind.givesDual then w ← w.setRowDual i 0
      return w
  | .settleEmpty j _ status => do
      let mut w := w
      if w.kind.givesStatus then w ← w.setColumnStatus j status
      return w
  | .settleSingleton i j coefficient _ => do
      let mut w := w
      if w.kind.givesStatus then
        -- The row takes the place of the column outside of the basis.
        unless (← w.columnStatus j) = .fixed do throw (.breached .unfixedSingleton)
        w ← w.setColumnStatus j .basic
        w ← w.setRowStatus i .fixed
      w ← w.setRowPrimal i (coefficient * (← w.columnPrimal j))
      if w.kind.givesDual then
        -- The reduced cost of the column is the price of the row.
        w ← w.setRowDual i ((← w.columnDual j) / coefficient)
        w ← w.setColumnDual j 0
      return w

omit [Scalar α] in
/-- The solution of the first rows and columns, all quantities of which have to be known. -/
def toSolution (w : Workspace α) (rowCount columnCount : Nat) : Except (Fault α) (Solution α) := do
  let primal ← w.primal.values rowCount columnCount
  match w.kind with
  | .basic => do
      let status ← w.status.values rowCount columnCount
      Solution.ofBasic status primal (← w.dual.values rowCount columnCount)
  | .interiorPoint => do
      Solution.ofInteriorPoint primal (← w.dual.values rowCount columnCount)
  | .integer => return .integer primal

end Workspace

end LinearReduction
