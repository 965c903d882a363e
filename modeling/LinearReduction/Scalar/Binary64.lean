import LinearReduction.Scalar.Basic

/-!
# Binary floating point

The arithmetic in which programs are solved in practice: every operation rounds to the nearest
double, zero is signed, and an overflow gives an infinite value.
-/

namespace LinearReduction

instance : Scalar Float where
  zero := 0.0
  one := 1.0
  posInf := 1.0 / 0.0
  negInf := -1.0 / 0.0
  isFinite := Float.isFinite
  abs := Float.abs
  decidableLT := inferInstance
  decidableLE := inferInstance

end LinearReduction
