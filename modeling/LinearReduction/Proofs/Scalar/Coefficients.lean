import LinearReduction.Proofs.Scalar.Lawful
import Mathlib

/-!
# Values of coefficients

A coefficient is finite and not zero. Main statements: in both arithmetics one is such a value, and so is the
opposite of such a value.
-/

namespace LinearReduction

/-- A value that a coefficient may have. -/
structure Scalar.IsCoefficient {α : Type} [Scalar α] (value : α) : Prop where
  nonzero : (value != 0) = true
  finite : Scalar.isFinite value = true

/-- Laws of one and of signs, neither of which is ever rounded. -/
class LawfulSigns (α : Type) [Scalar α] : Prop where
  isCoefficient_one : Scalar.IsCoefficient (1 : α)
  isCoefficient_neg {value : α} : Scalar.IsCoefficient value → Scalar.IsCoefficient (-value)

instance : LawfulSigns ExtRat where
  isCoefficient_one := ⟨by decide, rfl⟩
  isCoefficient_neg := by
    rintro value ⟨nonzero, finite⟩
    cases value with
    | finite a =>
      refine ⟨?_, rfl⟩
      change (!(ExtRat.beq (.finite a) (.finite 0))) = true at nonzero
      change (!(ExtRat.beq (.finite (-a)) (.finite 0))) = true
      have apart : a ≠ 0 := by simpa [ExtRat.beq] using nonzero
      have opposite : -a ≠ 0 := fun zero => apart (by rw [← Rat.neg_neg a, zero]; rfl)
      simpa [ExtRat.beq] using opposite
    | _ => cases finite

namespace Binary64

open Float.Model UnpackedFloat

theorem isCoefficient_iff {x : Float} : Scalar.IsCoefficient x ↔
    ∃ sign mantissa exponent positive, x.toModel.unpack = .finite sign mantissa exponent positive := by
  constructor
  · rintro ⟨nonzero, finite⟩
    have nonzero : (x != (0 : Float)) = true := nonzero
    change x.toModel.unpack.isFinite = true at finite
    cases value : x.toModel.unpack with
    | notANumber | infinity =>
      rw [value] at finite
      cases finite
    | zero sign =>
      have equal : (x == 0) = true := by
        rw [beq_iff, value]
        rfl
      rw [bne, equal] at nonzero
      cases nonzero
    | finite sign mantissa exponent positive => exact ⟨sign, mantissa, exponent, positive, rfl⟩
  · rintro ⟨sign, mantissa, exponent, positive, value⟩
    refine ⟨?_, ?_⟩
    · have apart : (x == 0) = false := by
        apply Bool.eq_false_iff.2
        intro equal
        rw [beq_iff, value] at equal
        cases sign <;> cases equal
      have nonzero : (x != (0 : Float)) = true := by
        rw [bne, apart]
        rfl
      exact nonzero
    · change x.toModel.unpack.isFinite = true
      rw [value]
      rfl

/-- A word stands for a nonzero number if its exponent isn't the greatest one, and unless its exponent and its
    mantissa are both zero. -/
theorem exists_unpack_eq_finite {word : BitVec Format.binary64.numBits} (below : unpackExponent word ≠ -1#_)
    (nonzero : unpackExponent word = 0#_ → unpackMantissa word ≠ 0#_) : ∃ sign mantissa exponent positive,
      UnpackedFloat.unpack Format.binary64 word = .finite sign mantissa exponent positive := by
  cases value : UnpackedFloat.unpack Format.binary64 word with
  | finite sign mantissa exponent positive => exact ⟨sign, mantissa, exponent, positive, rfl⟩
  | _ =>
    unfold UnpackedFloat.unpack at value
    dsimp only at value
    rw [if_neg below] at value
    by_cases least : unpackExponent word = 0#_
    · rw [if_pos least, dif_neg (nonzero least)] at value
      cases value
    · rw [if_neg least] at value
      cases value

theorem exponent_ne_of_unpack_eq_finite {word : BitVec Format.binary64.numBits} {sign : Sign} {mantissa : Nat}
    {exponent : Int} {positive : 0 < mantissa}
    (value : UnpackedFloat.unpack Format.binary64 word = .finite sign mantissa exponent positive) :
    unpackExponent word ≠ -1#_ := by
  intro greatest
  unfold UnpackedFloat.unpack at value
  dsimp only at value
  rw [if_pos greatest] at value
  split at value <;> cases value

section

variable {sign other : Sign} {mantissa : Nat} {positive : 0 < mantissa}

theorem pack_of_least (small : mantissa < 2 ^ 52) :
    UnpackedFloat.pack Format.binary64 (.finite sign mantissa (-1074) positive) =
      packComponents Format.binary64 sign 0#_ (BitVec.ofNat _ mantissa) := by
  have bias : (Format.binary64.exponentBias : Int) = 1023 := rfl
  have width : Format.binary64.mantissaBits = 53 := rfl
  have short := (Nat.log2_lt (Nat.ne_of_gt positive)).2 small
  unfold UnpackedFloat.pack
  dsimp only
  rw [bias, width, if_neg (by decide), if_neg (by omega)]

theorem pack_of_leading {exponent : Nat} (leading : 2 ^ 52 ≤ mantissa) (inside : mantissa < 2 ^ 53)
    (below : exponent < 2047) :
    UnpackedFloat.pack Format.binary64 (.finite sign mantissa (exponent - 1075) positive) =
      packComponents Format.binary64 sign (BitVec.ofNat _ exponent) (BitVec.ofNat _ mantissa) := by
  have bias : (Format.binary64.exponentBias : Int) = 1023 := rfl
  have width : Format.binary64.mantissaBits = 53 := rfl
  have short := (Nat.log2_lt (Nat.ne_of_gt positive)).2 inside
  have long := (Nat.le_log2 (Nat.ne_of_gt positive)).2 leading
  have biased : ((exponent : Int) - 1075 + 1023 + (52 : Nat)).toNat = exponent := by omega
  unfold UnpackedFloat.pack
  dsimp only
  rw [bias, width, biased, if_neg (by omega), if_pos (by omega)]

/-- Packing a number that was unpacked gives a number again, whatever its sign. -/
theorem exists_unpack_pack_eq_finite {word : BitVec Format.binary64.numBits} {exponent : Int}
    (value : UnpackedFloat.unpack Format.binary64 word = .finite sign mantissa exponent positive) :
    ∃ sign' mantissa' exponent' positive',
      UnpackedFloat.unpack Format.binary64
          (UnpackedFloat.pack Format.binary64 (.finite other mantissa exponent positive)) =
        .finite sign' mantissa' exponent' positive' := by
  have below := exponent_ne_of_unpack_eq_finite value
  have greatest : (@unpackExponent Format.binary64 word).toNat ≠ 2047 := fun same =>
    below (BitVec.eq_of_toNat_eq same)
  have inside : (@unpackExponent Format.binary64 word).toNat < 2 ^ 11 := BitVec.isLt _
  have small : (@unpackMantissa Format.binary64 word).toNat < 2 ^ 52 := BitVec.isLt _
  obtain ⟨_, fields⟩ := unpack_eq_finite value
  rcases fields with ⟨_, rfl, rfl⟩ | ⟨leading, rfl, rfl⟩
  -- Without a leading one, the mantissa is the one of the word, and isn't zero.
  · rw [pack_of_least small]
    apply exists_unpack_eq_finite
    · rw [unpackExponent_packComponents]
      decide
    · rw [unpackMantissa_packComponents]
      intro _ zero
      have zero := congrArg BitVec.toNat zero
      rw [BitVec.toNat_ofNat, Nat.mod_eq_of_lt small] at zero
      exact Nat.ne_of_gt positive zero
  -- With a leading one, the exponent is the one of the word, which is neither the least nor the greatest.
  · rw [pack_of_leading (by omega) (by omega) (by omega)]
    have kept : BitVec.ofNat Format.binary64.exponentBits (@unpackExponent Format.binary64 word).toNat =
        unpackExponent word :=
          BitVec.eq_of_toNat_eq (by rw [BitVec.toNat_ofNat]; exact Nat.mod_eq_of_lt inside)
    apply exists_unpack_eq_finite
    · rw [unpackExponent_packComponents, kept]
      exact below
    · rw [unpackExponent_packComponents, kept]
      intro least
      exact absurd (congrArg BitVec.toNat least) leading

end

end Binary64

instance : LawfulSigns Float where
  isCoefficient_one := ⟨by decide, by decide⟩
  isCoefficient_neg := by
    intro value coefficient
    obtain ⟨sign, mantissa, exponent, positive, unpacked⟩ := Binary64.isCoefficient_iff.1 coefficient
    rw [Binary64.isCoefficient_iff]
    have negated : (-value).toModel = Float.Model.pack value.toModel.unpack.neg := rfl
    rw [negated, unpacked]
    exact Binary64.exists_unpack_pack_eq_finite unpacked

end LinearReduction
