import LinearReduction.Scalar.Basic

/-!
# Bounds

The interval of values that a row's activity or a column's value may take. An absent bound is an
infinite value of the right sign.
-/

namespace LinearReduction

structure Bounds (α : Type) where
  lower : α
  upper : α
  deriving DecidableEq

namespace Bounds

variable {α : Type} [Scalar α]

def point (value : α) : Bounds α :=
  ⟨value, value⟩

/-- Everything from zero upwards. -/
def nonnegative : Bounds α :=
  ⟨0, Scalar.posInf⟩

/-- Whether neither bound restricts anything. -/
def isFree (b : Bounds α) : Bool :=
  b.lower == Scalar.negInf && b.upper == Scalar.posInf

def isPoint (b : Bounds α) : Bool :=
  b.lower == b.upper

/-- Whether two finite bounds have a finite distance. That distance becomes the upper bound of a
    column when a row or a column is brought in standard form. -/
def hasFiniteRange (b : Bounds α) : Bool :=
  !(Scalar.isFinite b.lower && Scalar.isFinite b.upper) || Scalar.isFinite (b.upper - b.lower)

/-- Whether the bounds leave a finite value and can be shifted: they don't cross, neither is the
    infinity of the wrong sign, and their range is finite. -/
def isProper (b : Bounds α) : Bool :=
  decide (b.lower ≤ b.upper) && b.lower != Scalar.posInf && b.upper != Scalar.negInf && b.hasFiniteRange

def shift (b : Bounds α) (amount : α) : Bounds α :=
  ⟨b.lower - amount, b.upper - amount⟩

/-- Bounds on the distance to either end of the interval. -/
def range (b : Bounds α) : Bounds α :=
  ⟨0, b.upper - b.lower⟩

end Bounds

end LinearReduction
