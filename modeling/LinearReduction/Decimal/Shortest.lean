/-!
# Shortest decimals

The decimal with the fewest digits that reads back as a given double, and of several such decimals
the nearest. A double stands for every real number that rounds to it. The ends of that interval are
whole multiples of `2 ^ -1076`, and therefore of `10 ^ -1076`, so that the search runs on natural
numbers: on the grid of decimals with one digit, with two digits and so on, it tests the two
neighbours of the value, and the first grid with a neighbour inside the interval has the answer.
-/

namespace LinearReduction

/-- A decimal number `coefficient * 10 ^ exponent`. -/
structure Decimal where
  coefficient : Nat
  exponent : Int
  deriving DecidableEq

namespace Decimal

/-- A finite double without its sign: `significand * 2 ^ scale` times the least positive double. -/
structure Magnitude where
  significand : Nat
  scale : Nat
  /-- Whether the neighbour below is only half as far away as the neighbour above. -/
  narrowBelow : Bool

def Magnitude.ofBits (bits : Nat) : Magnitude :=
  let exponent := bits / Nat.pow 2 52 % Nat.pow 2 11
  let fraction := bits % Nat.pow 2 52
  if exponent = 0 then
    { significand := fraction, scale := 0, narrowBelow := false }
  else
    { significand := Nat.pow 2 52 + fraction
      scale := exponent - 1
      narrowBelow := fraction = 0 && 1 < exponent }

/-- Number of decimal places in which every interval has its ends. -/
def places : Nat := 1076

/-- The interval around a value, as multiples of `10 ^ -places`, in which decimals read back as it. -/
structure Interval where
  low : Nat
  value : Nat
  high : Nat
  /-- Whether the ends belong to the interval. -/
  closed : Bool

/-- `2 ^ -places` in multiples of `10 ^ -places`. -/
def binaryUnit : Nat := Nat.pow 5 places

/-- Halfway to the neighbour on either side. A tie rounds to the even significand, so the ends belong
    to the interval exactly when the significand is even. -/
def Magnitude.interval (m : Magnitude) : Interval :=
  let unit := Nat.pow 2 m.scale * binaryUnit
  { low := (4 * m.significand - if m.narrowBelow then 1 else 2) * unit
    value := 4 * m.significand * unit
    high := (4 * m.significand + 2) * unit
    closed := m.significand % 2 = 0 }

namespace Interval

def contains (i : Interval) (x : Nat) : Bool :=
  if i.closed then i.low ≤ x && x ≤ i.high else i.low < x && x < i.high

/-- The multiple of `step` that reads back as the value, the nearer one if both neighbours do, and
    the larger one if they are equally near. -/
def multiple? (i : Interval) (step : Nat) : Option Nat :=
  let below := i.value / step
  match i.contains (below * step), i.contains ((below + 1) * step) with
  | true, true =>
      if i.value - below * step < (below + 1) * step - i.value then some below else some (below + 1)
  | true, false => some below
  | false, true => some (below + 1)
  | false, false => none

/-- Place of the leading digit, the largest power of ten within `n`. The binary length gives it up to
    one place, as `0.30102` is slightly less than the logarithm of two. -/
def leadingPlace (n : Nat) : Nat :=
  let estimate := n.log2 * 30102 / 100000
  if Nat.pow 10 (estimate + 1) ≤ n then estimate + 1 else estimate

/-- The decimal of an interval: seventeen digits always suffice for a double. -/
def shortest (i : Interval) : Decimal :=
  let leading := leadingPlace i.value
  let onGrid (further : Nat) : Option Decimal :=
    let place := leading - further
    (i.multiple? (Nat.pow 10 place)).map fun coefficient => ⟨coefficient, place - places⟩
  ((List.range 17).findSome? onGrid).getD ⟨i.value, -places⟩

end Interval

/-- The shortest decimal that reads back as the finite positive double with the given bits. -/
def shortest (bits : Nat) : Decimal :=
  (Magnitude.ofBits bits).interval.shortest

end Decimal

end LinearReduction
