import LinearReduction.Proofs.Scalar.Lawful
import Mathlib

/-!
# Opposite values

The sign of a number is a part of its own, so that taking the opposite rounds nothing. Main statement: in both
arithmetics every value is the opposite of its opposite, be it a zero, an infinity or undefined.
-/

namespace LinearReduction

/-- A value is the opposite of its opposite. -/
class InvolutiveNegation (α : Type) [Scalar α] : Prop where
  neg_neg (x : α) : -(-x) = x

instance : InvolutiveNegation ExtRat where
  neg_neg x := by
    cases x with
    | finite a => exact congrArg ExtRat.finite (Rat.neg_neg a)
    | _ => rfl

namespace Binary64

open Float.Model UnpackedFloat

/-- The word with the same exponent and mantissa and the other sign. -/
def oppositeWord (word : BitVec Format.binary64.numBits) : BitVec Format.binary64.numBits :=
  packComponents Format.binary64 (-Sign.ofBitVec (unpackSign word)) (unpackExponent word)
    (unpackMantissa word)

theorem unpack_oppositeWord (word : BitVec Format.binary64.numBits) :
    UnpackedFloat.unpack Format.binary64 (oppositeWord word) =
    (UnpackedFloat.unpack Format.binary64 word).neg := by
  have sign : Sign.ofBitVec (unpackSign (oppositeWord word)) = -Sign.ofBitVec (unpackSign word) := by
    rw [oppositeWord, unpackSign_packComponents, Sign.ofBitVec_toBitVec]
  have exponent : unpackExponent (oppositeWord word) = unpackExponent word := unpackExponent_packComponents
  have mantissa : unpackMantissa (oppositeWord word) = unpackMantissa word := unpackMantissa_packComponents
  simp only [UnpackedFloat.unpack, sign, exponent, mantissa]
  -- Exponent and mantissa alone decide what kind of number a word stands for.
  by_cases greatest : unpackExponent word = -1#_
  · rw [if_pos greatest, if_pos greatest]
    by_cases empty : unpackMantissa word = 0#_
    · rw [if_pos empty, if_pos empty]
      rfl
    · rw [if_neg empty, if_neg empty]
      rfl
  · rw [if_neg greatest, if_neg greatest]
    by_cases least : unpackExponent word = 0#_
    · rw [if_pos least, if_pos least]
      by_cases empty : unpackMantissa word = 0#_
      · rw [dif_pos empty, dif_pos empty]
        rfl
      · rw [dif_neg empty, dif_neg empty]
        rfl
    · rw [if_neg least, if_neg least]
      rfl

/-- Packing a number that was unpacked changes no number, only the word of an undefined one. -/
theorem unpack_pack_unpack (word : BitVec Format.binary64.numBits) :
    UnpackedFloat.unpack Format.binary64
        (UnpackedFloat.pack Format.binary64 (UnpackedFloat.unpack Format.binary64 word)) =
      UnpackedFloat.unpack Format.binary64 word := by
  rw [pack_unpack word]
  split
  case isTrue undefined =>
    obtain ⟨greatest, nonempty⟩ := of_decide_eq_true undefined
    have also : UnpackedFloat.unpack Format.binary64 word = .notANumber := by
      unfold UnpackedFloat.unpack
      dsimp only
      rw [if_pos greatest, if_neg nonempty]
    rw [also]
    exact unpack_packedNaN
  case isFalse => rfl

theorem neg_neg_unpacked (a : UnpackedFloat) : a.neg.neg = a := by
  cases a with
  | notANumber => rfl
  | infinity sign | zero sign | finite sign => cases sign <;> rfl

theorem unpack_pack_neg (a : Float.Model) : (Float.Model.pack a.unpack.neg).unpack = a.unpack.neg := by
  have opposite := unpack_oppositeWord a.toBits.toBitVec
  have again := unpack_pack_unpack (oppositeWord a.toBits.toBitVec)
  rw [opposite] at again
  exact again

theorem pack_unpack_model (a : Float.Model) : Float.Model.pack a.unpack = a := by
  cases a with
  | mk bits valid =>
    have words := pack_unpack_of_valid valid
    exact (Float.Model.mk.injEq ..).mpr (UInt64.eq_of_toBitVec_eq words)

theorem neg_neg (x : Float) : -(-x) = x := by
  have negated : ∀ y : Float, (-y).toModel = .pack y.toModel.unpack.neg := fun _ => rfl
  have models : (-(-x)).toModel = x.toModel := by
    rw [negated, negated, unpack_pack_neg, neg_neg_unpacked, pack_unpack_model]
  cases x
  exact congrArg Float.ofModel models

end Binary64

instance : InvolutiveNegation Float where
  neg_neg := Binary64.neg_neg

end LinearReduction
