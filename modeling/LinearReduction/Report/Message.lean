import LinearReduction.Decimal.Positional
import LinearReduction.Fault
import LinearReduction.Program.Build
import LinearReduction.Settings
import LinearReduction.Solution

/-!
# Messages

The wording of everything that can go wrong, with numbers in positional notation.
-/

namespace LinearReduction

def Axis.word : Axis → String
  | .row => "row"
  | .column => "column"

def Side.word : Side → String
  | .lower => "lower"
  | .upper => "upper"

def Quantity.words : Quantity → String
  | .status => "status"
  | .primal => "primal value"
  | .dual => "dual value"

def Status.name : Status → String
  | .basic => "Basic"
  | .atLower => "NonBasicLower"
  | .atUpper => "NonBasicUpper"
  | .free => "NonBasicFree"
  | .fixed => "NonBasicFixed"

def Kind.name : Kind → String
  | .basic => "Basic"
  | .interiorPoint => "InteriorPoint"
  | .integer => "Integer"

def Bounds.text (b : Bounds Float) : String :=
  s!"[{Decimal.text b.lower}, {Decimal.text b.upper}]"

def BuildError.message : BuildError Float → String
  | .improperRowBounds bounds => s!"row bounds {bounds.text} are invalid"
  | .improperColumnBounds bounds => s!"column bounds {bounds.text} are invalid"
  | .infiniteCost cost => s!"cost coefficient {Decimal.text cost} is not finite"
  | .noRow i => s!"row {i} does not exist"
  | .noColumn j => s!"column {j} does not exist"
  | .improperCoefficient i j value => s!"coefficient {Decimal.text value} at ({i}, {j}) is zero or not finite"
  | .duplicateCoefficient i j => s!"coefficient at ({i}, {j}) was already set"

def SettingsError.message : SettingsError → String
  | .badAbsoluteTolerance => "Bad value for tolerance feasibility_tolerance"
  | .badRelativeTolerance => "Bad value for tolerance relative_bound_tolerance"

/-- Why a program has no optimal solution. -/
def NoOptimum.message : NoOptimum Float → String
  | .zeroOutOfBounds i bounds =>
    s!"row {i} has no coefficients, but its bounds {bounds.text} don't contain zero"
  | .unboundedColumn j cost =>
      s!"column {j} has no coefficients, and cost {Decimal.text cost} pushes it towards a missing bound"
  | .valueOutOfBounds i j value bounds =>
      s!"row {i} implies value {Decimal.text value} for column {j}, outside of {bounds.text}"

def Refusal.message : Refusal → String
  | .inactive axis k => s!"{axis.word} {k} is not active"
  | .notEmpty axis k => s!"{axis.word} {k} is not empty"
  | .notFree axis k => s!"{axis.word} {k} has a finite bound"
  | .unbounded axis side k => s!"{axis.word} {k} has no finite {side.word} bound"
  | .notEquality i => s!"row {i} is not an equality"
  | .equality i => s!"row {i} is an equality"
  | .notSingleton i => s!"row {i} doesn't have a single coefficient"
  | .notFixed j => s!"column {j} is not fixed"
  | .notNonnegative j => s!"column {j} is not nonnegative"
  | .danglingCoefficient i => s!"coefficient refers to removed row {i}"
  | .sizeMismatch => "solution doesn't match the reduced problem"
  | .unknownValue quantity axis k =>
      s!"{quantity.words} of {axis.word} {k} is not known, records were replayed out of order"
  | .impossibleStatuses column companion =>
      s!"statuses {column.name} and {companion.name} are impossible for a column and its companion"

end LinearReduction
