import LinearReduction.Recovery.Solution

/-!
# Undoing records apart

What a record says about each quantity on its own: statuses, primal values and dual values don't depend on
each other. A solution can as well be recovered by one pass over the records for each of its quantities.
-/

namespace LinearReduction

namespace Known

variable {α : Type} [Scalar α]

def addToRow (k : Known .primal α) (i : Nat) (amount : α) : Except (Fault α) (Known .primal α) := do
  k.setRow i ((← k.row i) + amount)

/-- Add the share that a part of a column has in the activities of its rows. -/
def addActivities (k : Known .primal α) (entries : Entries α) (value : α) :
    Except (Fault α) (Known .primal α) :=
  entries.foldlM (fun k (i, coefficient) => k.addToRow i (coefficient * value)) k

end Known

namespace Record

variable {α : Type} [Scalar α]

omit [Scalar α] in
def undoStatus (known : Known .status Status) : Record α → Except (Fault α) (Known .status Status)
  | .dropFreeRow i _ | .dropEmptyRow i => known.setRow i .basic
  | .addSurplus i j => do known.setRow i (← known.column j)
  | .addSlack i j => do known.setRow i (← known.column j).opposite
  | .splitFree j k => do
      let nonbasic ← Status.isNonbasic <$> known.column j <&&> Status.isNonbasic <$> known.column k
      known.setColumn j (differenceStatus nonbasic)
  | .shiftLower .. => return known
  | .flipUpper j _ _ => do known.setColumn j (← known.column j).opposite
  | .splitUpper j k _ _ => do known.setColumn j (← boundedStatus (← known.column j) (← known.column k))
  | .substituteFixed j _ _ _ => known.setColumn j .fixed
  | .settleEmpty j _ status => known.setColumn j status
  | .settleSingleton i j _ _ => do
      unless (← known.column j) = .fixed do throw (.breached .unfixedSingleton)
      (← known.setColumn j .basic).setRow i .fixed

def undoPrimal (known : Known .primal α) : Record α → Except (Fault α) (Known .primal α)
  | .dropFreeRow i entries => do
      let terms ← entries.mapM fun (j, coefficient) => return coefficient * (← known.column j)
      known.setRow i (Scalar.sum terms)
  | .addSurplus i j => do known.addToRow i (← known.column j)
  | .addSlack i j => do known.addToRow i (-(← known.column j))
  | .splitFree j k => do known.setColumn j ((← known.column j) - (← known.column k))
  | .shiftLower j bound entries => do
      (← known.setColumn j (bound + (← known.column j))).addActivities entries bound
  | .flipUpper j bound entries => do
      (← known.setColumn j (bound - (← known.column j))).addActivities entries bound
  | .splitUpper .. | .settleEmpty .. => return known
  | .substituteFixed j value _ entries => do (← known.setColumn j value).addActivities entries value
  | .dropEmptyRow i => known.setRow i 0
  | .settleSingleton i j coefficient _ => do known.setRow i (coefficient * (← known.column j))

def undoDual (known : Known .dual α) : Record α → Except (Fault α) (Known .dual α)
  | .dropFreeRow i _ | .dropEmptyRow i => known.setRow i 0
  | .addSurplus i j => do known.setRow i (← known.column j)
  | .addSlack i j => do known.setRow i (-(← known.column j))
  | .splitFree j _ => known.setColumn j 0
  | .shiftLower .. | .settleEmpty .. => return known
  | .flipUpper j _ _ => do known.setColumn j (-(← known.column j))
  | .splitUpper j k _ _ => do known.setColumn j ((← known.column j) - (← known.column k))
  | .substituteFixed j _ cost entries => do
      let terms ← entries.mapM fun (i, coefficient) => return coefficient * (← known.row i)
      known.setColumn j (cost - Scalar.sum terms)
  | .settleSingleton i j coefficient _ => do
      (← known.setRow i ((← known.column j) / coefficient)).setColumn j 0

end Record

namespace Session

variable {α : Type} [Scalar α]

omit [Scalar α] in
/-- Spread a quantity of the reduced program over the ordinals that it belongs to. -/
def scatter {quantity : Quantity} {β : Type} (s : Session α) (reduced : Sides β) :
    Except (Fault α) (Known quantity β) :=
  (Known.unknown s.program.rows.size s.program.columns.size).seed s.program.rows.ordinals
    s.program.columns.ordinals reduced

omit [Scalar α] in
/-- Undo all records in a quantity of the reduced program. -/
def unwind {quantity : Quantity} {β : Type} (s : Session α)
    (undo : Known quantity β → Record α → Except (Fault α) (Known quantity β)) (reduced : Sides β) :
    Except (Fault α) (Known quantity β) := do
  s.records.foldlM undo (← s.scatter reduced)

omit [Scalar α] in
/-- The values of the rows and columns that the program had at the start. -/
def collect {quantity : Quantity} {β : Type} (s : Session α) (known : Known quantity β) :
    Except (Fault α) (Sides β) :=
  known.values s.origin.rowCount s.origin.columnCount

/-- Recover all quantities of a solution, each in a pass of its own. -/
def undoAll (s : Session α) : Solution α → Except (Fault α) (Solution α)
  | .basic status primal dual _ _ => do
      let status ← s.unwind Record.undoStatus status
      let primal ← s.unwind Record.undoPrimal primal
      let dual ← s.unwind Record.undoDual dual
      let primal ← s.collect primal
      Solution.ofBasic (← s.collect status) primal (← s.collect dual)
  | .interiorPoint primal dual _ => do
      let primal ← s.unwind Record.undoPrimal primal
      let dual ← s.unwind Record.undoDual dual
      let primal ← s.collect primal
      Solution.ofInteriorPoint primal (← s.collect dual)
  | .integer primal => do
      return .integer (← s.collect (← s.unwind Record.undoPrimal primal))

/-- Carry a solution of the reduced program back to the program at the start, one quantity after the other. -/
def recoverApart (s : Session α) (reduced : Solution α) : Except (Fault α) (Recovered α) := do
  unless s.isMatchedBy reduced.primal do throw (.refused .sizeMismatch)
  let undone ← s.undoAll reduced
  let solution := match s.origin.sense with
    | .minimize => undone
    | .maximize => undone.withOppositeDual
  return ⟨solution, s.origin.objective solution.primal.columns⟩

end Session

end LinearReduction
