import LinearReduction.Bounds
import LinearReduction.Status

/-!
# Faults

Why an operation on a program or a session stops. There are three kinds of reason. The program may be
found to have no optimal solution, which is a result. An operation may be refused, because what it was
asked to do makes no sense for that row, column or solution. And a step may be about to break a
property that all programs and solutions have, which is a breach.
-/

namespace LinearReduction

inductive Axis where
  | row
  | column
  deriving DecidableEq, Repr

inductive Side where
  | lower
  | upper
  deriving DecidableEq, Repr

inductive Quantity where
  | status
  | primal
  | dual
  deriving DecidableEq, Repr

/-- A request that doesn't fit the row, column or solution it was made for. -/
inductive Refusal where
  /-- The row or column was never added, or was removed. -/
  | inactive (axis : Axis) (ordinal : Nat)
  | notEmpty (axis : Axis) (ordinal : Nat)
  | notFree (axis : Axis) (ordinal : Nat)
  | unbounded (axis : Axis) (side : Side) (ordinal : Nat)
  | notEquality (row : Nat)
  | equality (row : Nat)
  | notSingleton (row : Nat)
  | notFixed (column : Nat)
  | notNonnegative (column : Nat)
  /-- A column has a coefficient in a row that was removed. -/
  | danglingCoefficient (row : Nat)
  /-- A solution doesn't have as many rows and columns as the program it is for. -/
  | sizeMismatch
  /-- A value was needed before any record gave it. -/
  | unknownValue (quantity : Quantity) (axis : Axis) (ordinal : Nat)
  /-- No solution gives these statuses to a column and to the distance to its upper bound. -/
  | impossibleStatuses (column companion : Status)
  deriving DecidableEq, Repr

/-- A property of programs, records or solutions that a step would have broken. -/
inductive Breach where
  | improperBounds
  | zeroCoefficient
  | duplicateCoefficient
  | missingCoefficient
  | infiniteShift
  | infiniteConstant
  | infiniteCost
  | incoherentProgram
  | unevenSolution
  | unfixedSingleton
  /-- A solution is of another kind than what it is copied into. -/
  | kindMismatch
  /-- A quantity that solutions of the kind don't have was read or written. -/
  | absentQuantity (quantity : Quantity)
  /-- A value was written for a row or column that the program never had. -/
  | outOfRange (axis : Axis) (ordinal : Nat)
  deriving DecidableEq, Repr

/-- Proof that a program has no optimal solution. -/
inductive NoOptimum (α : Type) where
  /-- Zero, the activity of a row without coefficients, is out of bounds. -/
  | zeroOutOfBounds (row : Nat) (bounds : Bounds α)
  /-- A column without coefficients improves the objective without end. -/
  | unboundedColumn (column : Nat) (cost : α)
  /-- The only value that an equality row leaves to its only column is out of bounds. -/
  | valueOutOfBounds (row column : Nat) (value : α) (bounds : Bounds α)
  deriving DecidableEq

inductive Fault (α : Type) where
  | noOptimum (cause : NoOptimum α)
  | refused (cause : Refusal)
  | breached (cause : Breach)
  deriving DecidableEq

namespace Fault

variable {α σ : Type}

def require (fits : Bool) (otherwise : Refusal) : EStateM (Fault α) σ Unit :=
  if fits then pure () else throw (.refused otherwise)

def ensure (holds : Bool) (otherwise : Breach) : EStateM (Fault α) σ Unit :=
  if holds then pure () else throw (.breached otherwise)

end Fault

end LinearReduction
