import LinearReduction.Report.Message
import LinearReduction.Session.Basic

/-!
# Notices

What a session tells about its progress. There is a line for every reduction, which follows from its
record, a warning when the program has no optimal solution, and a line at the end of a longer piece of
work.
-/

namespace LinearReduction

inductive Level where
  | debug
  | info
  | warn
  deriving DecidableEq, Repr

/-- Something worth telling. -/
inductive Notice (α : Type) where
  | reduced (record : Record α)
  | rejected (cause : NoOptimum α)
  | simplified (summary : Summary) (recordCount : Nat)
  | unwinding (recordCount : Nat) (kind : Kind)
  | recovered (objective : α)
  deriving DecidableEq

/-- Notices of the records that a session has on top of those that it had earlier. -/
def Session.news {α : Type} (earlier later : Session α) : List (Notice α) :=
  ((later.records.take (later.records.length - earlier.records.length)).map .reduced).reverse

/-- Only a dead end is a warning, and single reductions are details. -/
def Notice.level {α : Type} : Notice α → Level
  | .reduced _ | .unwinding _ _ => .debug
  | .simplified _ _ | .recovered _ => .info
  | .rejected _ => .warn

def Level.name : Level → String
  | .debug => "debug"
  | .info => "info"
  | .warn => "warn"

def Record.text : Record Float → String
  | .dropFreeRow i entries => s!"removed free row {i} with {entries.length} coefficients"
  | .addSurplus i j => s!"row {i} made an equality with surplus column {j}"
  | .addSlack i j => s!"row {i} made an equality with slack column {j}"
  | .splitFree j k => s!"split free column {j}, negative part is column {k}"
  | .shiftLower j bound _ => s!"column {j} shifted by its lower bound {Decimal.text bound}"
  | .flipUpper j bound _ => s!"column {j} flipped around its upper bound {Decimal.text bound}"
  | .splitUpper j k i bound =>
      s!"upper bound {Decimal.text bound} of column {j} moved to row {i} with companion column {k}"
  | .substituteFixed j value _ _ => s!"substituted fixed column {j} with value {Decimal.text value}"
  | .dropEmptyRow i => s!"removed empty row {i}"
  | .settleEmpty j value _ => s!"fixing empty column {j} at {Decimal.text value}"
  | .settleSingleton i j _ value => s!"singleton row {i} fixes column {j} at {Decimal.text value}"

/-- Why there is nothing more to do. -/
def NoOptimum.warning : NoOptimum Float → String
  | .zeroOutOfBounds i bounds => s!"empty row {i} with bounds {bounds.text} is infeasible"
  | .unboundedColumn j cost => s!"empty column {j} with cost {Decimal.text cost} makes the problem unbounded"
  | .valueOutOfBounds i j value bounds =>
      s!"singleton row {i} implies value {Decimal.text value} for column {j}, outside of {bounds.text}"

def Notice.text : Notice Float → String
  | .reduced record => record.text
  | .rejected cause => cause.warning
  | .simplified summary recordCount =>
      let before := s!"{summary.initialRows}x{summary.initialColumns}"
      let after := s!"{summary.rows}x{summary.columns}"
      s!"presolve reduced {before} to {after} with {recordCount} reductions"
  | .unwinding recordCount kind => s!"replaying {recordCount} records for a solution of kind {kind.name}"
  | .recovered objective => s!"postsolve complete, objective value {Decimal.text objective}"

def Notice.line (notice : Notice Float) : String :=
  s!"{notice.level.name}: {notice.text}"

end LinearReduction
