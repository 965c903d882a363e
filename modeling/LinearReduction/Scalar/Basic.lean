/-!
# Scalars

The numbers that a linear program is written in: one arithmetic for finite values and for bounds,
in which an absent bound is an infinite value. `Scalar` only names the operations. Two arithmetics
are provided, binary floating point and exact rationals with infinities, and every definition on
programs and solutions is given once for both.
-/

namespace LinearReduction

/-- Arithmetic, comparison and the two infinities. Comparisons involving an undefined value fail. -/
class Scalar (α : Type) extends
    Zero α, One α, Add α, Sub α, Mul α, Div α, Neg α, BEq α, LT α, LE α, OfScientific α where
  /-- An absent upper bound. -/
  posInf : α
  /-- An absent lower bound. -/
  negInf : α
  /-- Whether a value is a number proper, neither infinite nor undefined. -/
  isFinite : α → Bool
  /-- Magnitude of a value. -/
  abs : α → α
  /-- The strict order can be tested. -/
  decidableLT : DecidableLT α
  /-- The order can be tested. -/
  decidableLE : DecidableLE α

namespace Scalar

variable {α : Type} [Scalar α]

instance : DecidableLT α := Scalar.decidableLT

instance : DecidableLE α := Scalar.decidableLE

/-- Sum of a list, from its first term to its last. The empty sum is negative zero, the value that
    changes no other value when added to it. -/
def sum (terms : List α) : α :=
  terms.foldl (· + ·) (-0)

end Scalar

end LinearReduction
