import LinearReduction.Scalar.Basic

/-!
# Settings

Tolerances and switches for reducing a program. Settings are made from a list of choices, and what
isn't chosen has a default.
-/

namespace LinearReduction

structure Settings (α : Type) where
  /-- Tolerance for empty rows and for the costs of empty columns, and the absolute part of the
      tolerance for singleton rows. -/
  absoluteTolerance : α
  /-- Part of the tolerance for singleton rows that grows with the bound. -/
  relativeTolerance : α
  /-- Remove rows and columns without coefficients. -/
  dropEmpty : Bool
  /-- Remove equality rows with a single coefficient. -/
  dropSingletonRows : Bool
  /-- Bring the program in standard form: equality rows and nonnegative columns only. -/
  standardForm : Bool
  /-- In standard form, also move the upper bounds of columns into rows of their own. -/
  splitUpperBounds : Bool
  deriving DecidableEq

/-- A tolerance that is negative, infinite or undefined. -/
inductive SettingsError where
  | badAbsoluteTolerance
  | badRelativeTolerance
  deriving DecidableEq, Repr

/-- Settings of which only some are chosen. -/
structure Choices (α : Type) where
  absoluteTolerance : Option α := none
  relativeTolerance : Option α := none
  dropEmpty : Option Bool := none
  dropSingletonRows : Option Bool := none
  standardForm : Option Bool := none
  splitUpperBounds : Option Bool := none

variable {α : Type} [Scalar α]

def Settings.isTolerance (value : α) : Bool :=
  Scalar.isFinite value && decide (0 ≤ value)

/-- Complete the choices with defaults, provided that the chosen tolerances can serve as such. -/
def Choices.settle (c : Choices α) : Except SettingsError (Settings α) := do
  unless c.absoluteTolerance.all Settings.isTolerance do throw .badAbsoluteTolerance
  unless c.relativeTolerance.all Settings.isTolerance do throw .badRelativeTolerance
  return {
    absoluteTolerance := c.absoluteTolerance.getD 1e-6
    relativeTolerance := c.relativeTolerance.getD 1e-9
    dropEmpty := c.dropEmpty.getD true
    dropSingletonRows := c.dropSingletonRows.getD true
    standardForm := c.standardForm.getD true
    splitUpperBounds := c.splitUpperBounds.getD false }

/-- How far the value of a column may lie beyond a bound before the bound counts as violated. -/
def Settings.margin (s : Settings α) (bound : α) : α :=
  s.absoluteTolerance + s.relativeTolerance * Scalar.abs bound

end LinearReduction
