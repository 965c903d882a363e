import LinearReduction.Scalar.Binary64
import LinearReduction.Scalar.Exact

/-!
# Laws of comparison

What binary floating point and exact arithmetic have in common: how equality, the order and the infinities
behave. Nothing is said about sums and products, which are rounded in one of the two. Main statements: the
two instances.
-/

namespace LinearReduction

/-- Laws that hold with and without rounding. Equality identifies at most the zeros. -/
class LawfulScalar (α : Type) [Scalar α] : Prop where
  lt_irrefl (x : α) : ¬ x < x
  beq_self_of_le {x : α} : x ≤ x → (x == x) = true
  eq_of_beq {x y : α} : (x == y) = true → (y != 0) = true → x = y
  isFinite_zero : Scalar.isFinite (0 : α) = true
  isFinite_posInf : Scalar.isFinite (Scalar.posInf : α) = false
  isFinite_negInf : Scalar.isFinite (Scalar.negInf : α) = false
  posInf_bne_zero : ((Scalar.posInf : α) != 0) = true
  negInf_bne_zero : ((Scalar.negInf : α) != 0) = true
  posInf_ne_negInf : (Scalar.posInf : α) ≠ Scalar.negInf
  posInf_sub_zero : (Scalar.posInf : α) - 0 = Scalar.posInf

namespace LawfulScalar

variable {α : Type} [Scalar α] [LawfulScalar α] {x : α}

theorem eq_posInf (same : (x == Scalar.posInf) = true) : x = Scalar.posInf :=
  eq_of_beq same posInf_bne_zero

theorem eq_negInf (same : (x == Scalar.negInf) = true) : x = Scalar.negInf :=
  eq_of_beq same negInf_bne_zero

theorem zero_ne_posInf : (0 : α) ≠ Scalar.posInf := by
  intro same
  have finite : Scalar.isFinite (0 : α) = true := isFinite_zero
  rw [same, isFinite_posInf] at finite
  exact Bool.false_ne_true finite

theorem zero_ne_negInf : (0 : α) ≠ Scalar.negInf := by
  intro same
  have finite : Scalar.isFinite (0 : α) = true := isFinite_zero
  rw [same, isFinite_negInf] at finite
  exact Bool.false_ne_true finite

end LawfulScalar

/-! ## Exact arithmetic -/

instance : LawfulScalar ExtRat where
  lt_irrefl x := by
    change ¬ ExtRat.lt x x = true
    cases x with
    | finite a => exact fun less => Rat.lt_irrefl (of_decide_eq_true less)
    | _ => exact Bool.false_ne_true
  beq_self_of_le := by
    intro x le
    change ExtRat.beq x x = true
    cases x with
    | undefined => exact absurd le (by decide)
    | finite | posInf | negInf => simp [ExtRat.beq]
  eq_of_beq := by
    intro x y same _
    change ExtRat.beq x y = true at same
    cases x <;> cases y <;> simp_all [ExtRat.beq]
  isFinite_zero := rfl
  isFinite_posInf := rfl
  isFinite_negInf := rfl
  posInf_bne_zero := rfl
  negInf_bne_zero := rfl
  posInf_ne_negInf := by decide
  posInf_sub_zero := rfl

/-! ## Binary floating point

The logical model of a floating point number is its word, from which sign, exponent and mantissa are taken.
An undefined number has a single word, so that a number is known by these three. -/

namespace Binary64

open Float.Model UnpackedFloat

theorem word_ext {a b : BitVec Format.binary64.numBits} (sign : unpackSign a = unpackSign b)
    (exponent : unpackExponent a = unpackExponent b) (mantissa : unpackMantissa a = unpackMantissa b) :
    a = b := by
  apply BitVec.eq_of_getLsbD_eq
  intro i inside
  change i < 64 at inside
  -- Bits below 52 are those of the mantissa, bits from 52 to 62 those of the exponent, and bit 63 is the
  -- sign.
  by_cases low : i < 52
  · have same := congrArg (BitVec.getLsbD · i) mantissa
    have within : i ≤ 51 := by omega
    simpa [unpackMantissa, low, within] using same
  · by_cases middle : i < 63
    · have same := congrArg (BitVec.getLsbD · (i - 52)) exponent
      have within : i - 52 ≤ 10 := by omega
      have field : i - 52 < 11 := by omega
      have back : 52 + (i - 52) = i := by omega
      simpa [unpackExponent, within, field, back] using same
    · obtain rfl : i = 63 := by omega
      have at_end : ∀ c : BitVec Format.binary64.numBits, (unpackSign c).getLsbD 0 = c.getLsbD 63 := by
        intro c
        change ((BitVec.extractLsb 63 63 c).cast _).getLsbD 0 = _
        simp
      rw [← at_end, ← at_end, sign]

theorem ofBitVec_inj {a b : BitVec 1} (same : Sign.ofBitVec a = Sign.ofBitVec b) : a = b := by
  by_cases positive : a = 0#1 <;> by_cases also :
    b = 0#1 <;> simp only [Sign.ofBitVec, positive, also, if_true, if_false, reduceCtorEq] at same ⊢
  bv_omega

/-- Fields of a word that stands for a nonzero number. An exponent of zero comes without a leading one. -/
theorem unpack_eq_finite {a : BitVec Format.binary64.numBits} {sign : Sign} {mantissa : Nat} {exponent : Int}
    {positive : 0 < mantissa}
    (finite : UnpackedFloat.unpack Format.binary64 a = .finite sign mantissa exponent positive) :
    Sign.ofBitVec (unpackSign a) = sign ∧
      ((unpackExponent a).toNat = 0 ∧ (unpackMantissa a).toNat = mantissa ∧ exponent = -1074 ∨
        (unpackExponent a).toNat ≠ 0 ∧ (unpackMantissa a).toNat + 4503599627370496 = mantissa ∧
          exponent = (unpackExponent a).toNat - 1075) := by
  have bias : (Format.binary64.exponentBias : Int) = 1023 := rfl
  unfold UnpackedFloat.unpack at finite
  dsimp only at finite
  -- The greatest exponent is kept for infinities and undefined numbers.
  by_cases greatest : unpackExponent a = -1#_
  · rw [if_pos greatest] at finite
    by_cases empty : unpackMantissa a = 0#_
    · rw [if_pos empty] at finite
      cases finite
    · rw [if_neg empty] at finite
      cases finite
  · rw [if_neg greatest] at finite
    -- The least one is kept for numbers without a leading one, zero among them.
    by_cases least : unpackExponent a = 0#_
    · rw [if_pos least] at finite
      by_cases empty : unpackMantissa a = 0#_
      · rw [dif_pos empty] at finite
        cases finite
      · rw [dif_neg empty] at finite
        cases finite
        rw [least]
        refine ⟨rfl, .inl ⟨rfl, rfl, ?_⟩⟩
        rw [bias]
        rfl
    · have leading : (1#1 ++ unpackMantissa a).toNat = (unpackMantissa a).toNat + 2 ^ 52 := by
        rw [BitVec.toNat_append, ← Nat.shiftLeft_add_eq_or_of_lt (unpackMantissa a).isLt, Nat.shiftLeft_eq]
        exact Nat.add_comm ..
      rw [if_neg least] at finite
      cases finite
      refine ⟨rfl, .inr ⟨?_, leading.symm, ?_⟩⟩
      · intro zero
        exact least (BitVec.eq_of_toNat_eq zero)
      · rw [bias]
        omega

theorem unpack_eq_infinity {a : BitVec Format.binary64.numBits} {sign : Sign}
    (infinite : UnpackedFloat.unpack Format.binary64 a = .infinity sign) :
    Sign.ofBitVec (unpackSign a) = sign ∧ unpackExponent a = -1#_ ∧ unpackMantissa a = 0#_ := by
  unfold UnpackedFloat.unpack at infinite
  dsimp only at infinite
  by_cases greatest : unpackExponent a = -1#_
  · rw [if_pos greatest] at infinite
    by_cases empty : unpackMantissa a = 0#_
    · rw [if_pos empty] at infinite
      cases infinite
      exact ⟨rfl, greatest, empty⟩
    · rw [if_neg empty] at infinite
      cases infinite
  · rw [if_neg greatest] at infinite
    by_cases least : unpackExponent a = 0#_
    · rw [if_pos least] at infinite
      by_cases empty : unpackMantissa a = 0#_
      · rw [dif_pos empty] at infinite
        cases infinite
      · rw [dif_neg empty] at infinite
        cases infinite
    · rw [if_neg least] at infinite
      cases infinite

theorem compare_ne_lt_self (a : UnpackedFloat) : a.compare a ≠ some .lt := by
  cases a with
  | notANumber => exact nofun
  | zero sign => exact nofun
  | infinity sign => cases sign <;> exact nofun
  | finite sign mantissa exponent positive =>
    have same : (compare exponent exponent).then (compare mantissa mantissa) = .eq := by
      rw [Ordering.then_eq_eq]
      exact ⟨Std.ReflCmp.compare_self, Std.ReflCmp.compare_self⟩
    -- Negative numbers are compared the other way round, which leaves equal ones equal.
    cases sign with
    | positive =>
      change some ((compare exponent exponent).then (compare mantissa mantissa)) ≠ some .lt
      rw [same]
      exact nofun
    | negative =>
      change some ((compare exponent exponent).then (compare mantissa mantissa)).swap ≠ some .lt
      rw [same]
      exact nofun

theorem fields_of_compare_eq {e f : Int} {m n : Nat} (same : (compare e f).then (compare m n) = .eq) :
    e = f ∧ m = n := by
  rw [Ordering.then_eq_eq] at same
  exact ⟨Std.LawfulEqCmp.eq_of_compare same.1, Std.LawfulEqCmp.eq_of_compare same.2⟩

theorem eq_of_compare_eq {a b : UnpackedFloat} (same : a.compare b = some .eq)
    (nonzero : ∀ sign, b ≠ .zero sign) : a = b := by
  cases a with
  | notANumber => cases same
  | zero s =>
    cases b with
    | notANumber => cases same
    | zero t => exact absurd rfl (nonzero t)
    | infinity t => cases t <;> cases same
    | finite t n f also => cases t <;> cases same
  | infinity s =>
    cases b with
    | notANumber => cases same
    | zero t => cases s <;> cases same
    | infinity t => cases s <;> cases t <;> first | rfl | cases same
    | finite t n f also => cases s <;> cases same
  | finite s m e positive =>
    cases b with
    | notANumber => cases same
    | zero t => cases s <;> cases same
    | infinity t => cases s <;> cases t <;> cases same
    | finite t n f also =>
      cases s <;> cases t
      case positive.positive =>
        obtain ⟨rfl, rfl⟩ := fields_of_compare_eq (Option.some.inj same)
        rfl
      case negative.negative =>
        obtain ⟨rfl, rfl⟩ := fields_of_compare_eq (Ordering.swap_eq_eq.1 (Option.some.inj same))
        rfl
      all_goals cases same

theorem eq_of_compare_unpack {a b : Float.Model} (same : a.unpack.compare b.unpack = some .eq)
    (nonzero : ∀ sign, b.unpack ≠ .zero sign) : a = b := by
  have unpacked : a.unpack = b.unpack := eq_of_compare_eq same nonzero
  have words : a.toBits.toBitVec = b.toBits.toBitVec := by
    cases value : b.unpack with
    | notANumber =>
      rw [value] at same
      cases left : a.unpack <;> rw [left] at same <;> cases same
    | zero sign => exact absurd value (nonzero sign)
    | infinity sign =>
      rw [value] at unpacked
      obtain ⟨sign_a, exponent_a, mantissa_a⟩ := unpack_eq_infinity unpacked
      obtain ⟨sign_b, exponent_b, mantissa_b⟩ := unpack_eq_infinity value
      exact word_ext (ofBitVec_inj (sign_a.trans sign_b.symm)) (exponent_a.trans exponent_b.symm)
        (mantissa_a.trans mantissa_b.symm)
    | finite sign mantissa exponent positive =>
      rw [value] at unpacked
      have small : (@unpackMantissa Format.binary64 a.toBits.toBitVec).toNat < 2 ^ 52 := BitVec.isLt _
      have little : (@unpackMantissa Format.binary64 b.toBits.toBitVec).toNat < 2 ^ 52 := BitVec.isLt _
      obtain ⟨sign_a, fields_a⟩ := unpack_eq_finite unpacked
      obtain ⟨sign_b, fields_b⟩ := unpack_eq_finite value
      -- A mantissa below `2 ^ 52` has no leading one, so that it tells which of the two forms the words have.
      refine word_ext (ofBitVec_inj (sign_a.trans sign_b.symm)) (BitVec.eq_of_toNat_eq ?_)
        (BitVec.eq_of_toNat_eq ?_)
      · omega
      · omega
  cases a
  cases b
  cases UInt64.eq_of_toBitVec_eq words
  rfl

theorem beq_iff {x y : Float} : (x == y) = true ↔ x.toModel.unpack.compare y.toModel.unpack = some .eq := by
  change (x.toModel.unpack.compare y.toModel.unpack == some .eq) = true ↔ _
  exact beq_iff_eq

theorem not_lt_self (x : Float) : ¬ x < x := by
  intro less
  have less : (x.toModel.unpack.compare x.toModel.unpack == some .lt) = true := of_decide_eq_true less
  exact compare_ne_lt_self _ (eq_of_beq less)

theorem beq_self_of_le {x : Float} (le : x ≤ x) : (x == x) = true := by
  have le : (x.toModel.unpack.compare x.toModel.unpack).any (·.isLE) = true := of_decide_eq_true le
  rw [beq_iff]
  -- An undefined number is in no order with itself, and no number is before itself.
  cases order : x.toModel.unpack.compare x.toModel.unpack with
  | none =>
    rw [order] at le
    cases le
  | some order' =>
    rw [order] at le
    cases order' with
    | lt => exact absurd order (compare_ne_lt_self _)
    | eq => rfl
    | gt => cases le

theorem eq_of_beq_nonzero {x y : Float} (same : (x == y) = true) (nonzero : (y != 0) = true) : x = y := by
  have models : x.toModel = y.toModel := by
    apply eq_of_compare_unpack (beq_iff.1 same)
    intro sign zero
    have equal : (y == 0) = true := by
      rw [beq_iff, zero]
      rfl
    rw [bne, equal] at nonzero
    cases nonzero
  cases x
  cases y
  cases models
  rfl

end Binary64

instance : LawfulScalar Float where
  lt_irrefl := Binary64.not_lt_self
  beq_self_of_le := Binary64.beq_self_of_le
  eq_of_beq := Binary64.eq_of_beq_nonzero
  isFinite_zero := by decide
  isFinite_posInf := by decide
  isFinite_negInf := by decide
  posInf_bne_zero := by decide
  negInf_bne_zero := by decide
  posInf_ne_negInf := by decide
  posInf_sub_zero := by decide

end LinearReduction
