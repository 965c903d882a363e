import LinearReduction.Scalar.Basic

/-!
# Exact arithmetic

Rational numbers with two infinities, the arithmetic in which statements about optimality and
feasibility are read. Nothing is rounded and zero has no sign. An operation without a meaningful
answer, such as the difference of equal infinities, is `undefined`, and `undefined` compares with
nothing, not even with itself.
-/

namespace LinearReduction

/-- A rational number, an infinity, or the answer of an operation that has none. -/
inductive ExtRat where
  | finite (value : Rat)
  | posInf
  | negInf
  | undefined
  deriving DecidableEq

namespace ExtRat

def isFinite : ExtRat → Bool
  | .finite _ => true
  | _ => false

def neg : ExtRat → ExtRat
  | .finite x => .finite (-x)
  | .posInf => .negInf
  | .negInf => .posInf
  | .undefined => .undefined

def add : ExtRat → ExtRat → ExtRat
  | .finite x, .finite y => .finite (x + y)
  | .undefined, _ | _, .undefined | .posInf, .negInf | .negInf, .posInf => .undefined
  | .posInf, _ | _, .posInf => .posInf
  | .negInf, _ | _, .negInf => .negInf

/-- The infinity with the sign of a number, none for zero. -/
def infinityOf (sign : Rat) : ExtRat :=
  if 0 < sign then .posInf else if sign < 0 then .negInf else .undefined

def mul : ExtRat → ExtRat → ExtRat
  | .finite x, .finite y => .finite (x * y)
  | .undefined, _ | _, .undefined => .undefined
  | .finite x, .posInf | .posInf, .finite x => infinityOf x
  | .finite x, .negInf | .negInf, .finite x => infinityOf (-x)
  | .posInf, .posInf | .negInf, .negInf => .posInf
  | .posInf, .negInf | .negInf, .posInf => .negInf

/-- Inverse for division: zero counts as a positive value too small to be told from zero. -/
def inv : ExtRat → ExtRat
  | .finite x => if x = 0 then .posInf else .finite x⁻¹
  | .posInf | .negInf => .finite 0
  | .undefined => .undefined

def abs : ExtRat → ExtRat
  | .finite x => .finite x.abs
  | .posInf | .negInf => .posInf
  | .undefined => .undefined

def beq : ExtRat → ExtRat → Bool
  | .undefined, _ | _, .undefined => false
  | x, y => decide (x = y)

def lt : ExtRat → ExtRat → Bool
  | .finite x, .finite y => decide (x < y)
  | .negInf, .finite _ | .negInf, .posInf | .finite _, .posInf => true
  | _, _ => false

def le (x y : ExtRat) : Bool :=
  lt x y || beq x y

instance : Scalar ExtRat where
  zero := .finite 0
  one := .finite 1
  add := add
  sub x y := add x (neg y)
  mul := mul
  div x y := mul x (inv y)
  neg := neg
  beq := beq
  lt x y := lt x y = true
  le x y := le x y = true
  ofScientific mantissa negative exponent := .finite (OfScientific.ofScientific mantissa negative exponent)
  posInf := .posInf
  negInf := .negInf
  isFinite := isFinite
  abs := abs
  decidableLT x y := inferInstanceAs (Decidable (lt x y = true))
  decidableLE x y := inferInstanceAs (Decidable (le x y = true))

end ExtRat

end LinearReduction
