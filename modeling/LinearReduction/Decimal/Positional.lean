import LinearReduction.Decimal.Shortest

/-!
# Positional notation

How a double is written in messages and answers: the shortest decimal that reads back, without an
exponent however large or small it is, and without a point where there is no fraction. Zero keeps its
sign.
-/

namespace LinearReduction.Decimal

/-- Digits before and after the decimal point. -/
def split (d : Decimal) : List Char × List Char :=
  let digits := Nat.toDigits 10 d.coefficient
  let shifted := digits ++ List.replicate d.exponent.toNat '0'
  let fractionLength := (-d.exponent).toNat
  let padded := List.replicate (fractionLength + 1 - shifted.length) '0' ++ shifted
  padded.splitAt (padded.length - fractionLength)

/-- The decimal written out, without zeros at the end of its fraction. -/
def positional (d : Decimal) : String :=
  let (whole, fraction) := d.split
  let fraction := (fraction.reverse.dropWhile (· = '0')).reverse
  String.ofList (if fraction.isEmpty then whole else whole ++ '.' :: fraction)

def text (x : Float) : String :=
  let bits := x.toBits.toNat
  let magnitude := bits % Nat.pow 2 63
  let sign := if bits = magnitude then "" else "-"
  if x.isNaN then "NaN"
  else if x.isInf then sign ++ "inf"
  else if magnitude = 0 then sign ++ "0"
  else sign ++ (shortest magnitude).positional

end LinearReduction.Decimal
