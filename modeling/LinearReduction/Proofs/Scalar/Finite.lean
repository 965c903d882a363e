import LinearReduction.Proofs.Scalar.Lawful

/-!
# Finite values

A finite value is equal to itself, nothing but the infinity comes after a value and is neither finite nor the
opposite infinity, and equal values stay equal when the same finite value is taken away from both. Main
statements: the instances for both arithmetics, and that both subtract alike.
-/

namespace LinearReduction

/-- Laws of finite values, undefined values being neither equal to nor comparable with anything. -/
class LawfulFinite (α : Type) [Scalar α] : Prop where
  beq_self {x : α} : Scalar.isFinite x = true → (x == x) = true
  eq_posInf_of_le {x y : α} : x ≤ y → Scalar.isFinite y = false → (y != Scalar.negInf) = true →
    y = Scalar.posInf

theorem LawfulFinite.zero_beq_zero {α : Type} [Scalar α] [LawfulScalar α] [LawfulFinite α] :
    ((0 : α) == 0) = true :=
  beq_self LawfulScalar.isFinite_zero

/-- Values that are equal stay equal when the same finite value is taken away from both. -/
def Scalar.SubtractsAlike (α : Type) [Scalar α] : Prop :=
  ∀ x y value : α, (x == y) = true → Scalar.isFinite value = true → (x - value == y - value) = true

instance : LawfulFinite ExtRat where
  beq_self := by
    intro x finite
    cases x with
    | finite a => exact decide_eq_true rfl
    | _ => cases finite
  eq_posInf_of_le := by
    intro x y le infinite apart
    cases y with
    | finite b => cases infinite
    | posInf => rfl
    | negInf => cases apart
    | undefined => cases x <;> cases le

theorem ExtRat.subtractsAlike : Scalar.SubtractsAlike ExtRat := by
  intro x y value equal finite
  cases value with
  | finite c => cases x <;> cases y <;> simp_all [BEq.beq, Sub.sub, HSub.hSub, beq, add, neg]
  | _ => cases finite

namespace Binary64

open Float.Model UnpackedFloat

theorem compare_self_of_defined {a : UnpackedFloat} (defined : a ≠ .notANumber) : a.compare a = some .eq := by
  cases a with
  | notANumber => exact absurd rfl defined
  | zero sign => rfl
  | infinity sign => cases sign <;> rfl
  | finite sign mantissa exponent positive =>
    have same : (compare exponent exponent).then (compare mantissa mantissa) = .eq := by
      rw [Ordering.then_eq_eq]
      exact ⟨Std.ReflCmp.compare_self, Std.ReflCmp.compare_self⟩
    cases sign with
    | positive => exact congrArg some same
    | negative => exact congrArg some (Ordering.swap_eq_eq.2 same)

theorem beq_self_of_isFinite {x : Float} (finite : Scalar.isFinite x = true) : (x == x) = true := by
  change x.toModel.unpack.isFinite = true at finite
  rw [beq_iff]
  refine compare_self_of_defined fun undefined => ?_
  rw [undefined] at finite
  cases finite

/-- Infinities of the same sign are the same number. -/
theorem eq_of_unpack_eq_infinity {x y : Float} {sign : Sign} (value : x.toModel.unpack = .infinity sign)
    (other : y.toModel.unpack = .infinity sign) : x = y := by
  have equal : (x == y) = true := by
    rw [beq_iff, value, other]
    exact compare_self_of_defined nofun
  have nonzero : (y == 0) = false := by
    apply Bool.eq_false_iff.2
    intro zero
    rw [beq_iff, other] at zero
    cases sign <;> cases zero
  exact eq_of_beq_nonzero equal (by rw [bne, nonzero]; rfl)

theorem eq_posInf_of_le {x y : Float} (le : x ≤ y) (infinite : Scalar.isFinite y = false)
    (apart : (y != Scalar.negInf) = true) : y = Scalar.posInf := by
  have le : (x.toModel.unpack.compare y.toModel.unpack).any (·.isLE) = true := of_decide_eq_true le
  change y.toModel.unpack.isFinite = false at infinite
  cases value : y.toModel.unpack with
  | zero sign | finite sign =>
    rw [value] at infinite
    cases infinite
  -- An undefined number comes after nothing.
  | notANumber =>
    rw [value] at le
    cases left : x.toModel.unpack <;> rw [left] at le <;> cases le
  | infinity sign =>
    cases sign with
    | positive => exact eq_of_unpack_eq_infinity value rfl
    | negative =>
      have same : y = Scalar.negInf := eq_of_unpack_eq_infinity value rfl
      rw [same] at apart
      exact absurd apart (by decide)

/-- A choice between two numbers is a number. -/
theorem dite_defined {choice : Prop} [Decidable choice] {first : choice → UnpackedFloat}
    {second : ¬ choice → UnpackedFloat} (left : ∀ holds, first holds ≠ .notANumber)
    (right : ∀ fails, second fails ≠ .notANumber) : dite choice first second ≠ .notANumber := by
  by_cases holds : choice
  · rw [dif_pos holds]
    exact left holds
  · rw [dif_neg holds]
    exact right holds

theorem normalize_defined (mantissa exponent : Int) (sign : Sign) :
    normalize Format.binary64 mantissa exponent sign ≠ .notANumber := by
  have rounded : ∀ sign mantissa exponent, round Format.binary64 sign mantissa exponent ≠ .notANumber :=
    fun _ _ _ => dite_defined (fun _ => UnpackedFloat.noConfusion) fun _ => UnpackedFloat.noConfusion
  unfold UnpackedFloat.normalize
  cases compare mantissa 0 with
  | eq => rintro ⟨⟩
  | lt | gt => exact rounded _ _ _

/-- Taking a finite number away leaves a number. -/
theorem sub_defined {a b : UnpackedFloat} (defined : a ≠ .notANumber) (finite : b.isFinite = true) :
    UnpackedFloat.sub Format.binary64 a b ≠ .notANumber := by
  cases b with
  | notANumber | infinity => cases finite
  | zero t =>
    cases a with
    | notANumber => exact absurd rfl defined
    | infinity s | finite s => rintro ⟨⟩
    | zero s => cases s <;> cases t <;> rintro ⟨⟩
  | finite t n f also =>
    cases a with
    | notANumber => exact absurd rfl defined
    | infinity s | zero s => rintro ⟨⟩
    | finite s m e positive => exact normalize_defined _ _ _

theorem unpack_defined {word : BitVec Format.binary64.numBits}
    (number : unpackExponent word = -1#_ → unpackMantissa word = 0#_) :
    UnpackedFloat.unpack Format.binary64 word ≠ .notANumber := by
  -- Only the greatest exponent may belong to something that isn't a number.
  refine dite_defined (fun greatest => ?_) fun _ => dite_defined (fun _ => dite_defined ?_ ?_) ?_
  · rw [if_pos (number greatest)]
    rintro ⟨⟩
  all_goals exact fun _ => UnpackedFloat.noConfusion

/-- A number stays one when it is packed, be it as an infinity. -/
theorem unpack_pack_defined {a : UnpackedFloat} (defined : a ≠ .notANumber) :
    UnpackedFloat.unpack Format.binary64 (UnpackedFloat.pack Format.binary64 a) ≠ .notANumber := by
  apply unpack_defined
  cases a with
  | notANumber => exact absurd rfl defined
  | infinity sign => exact fun _ => unpackMantissa_packComponents
  | zero sign => exact fun _ => unpackMantissa_packComponents
  | finite sign mantissa exponent positive =>
    have width : Format.binary64.exponentBits = 11 := rfl
    unfold UnpackedFloat.pack
    dsimp only
    split
    case isTrue => exact fun _ => unpackMantissa_packComponents
    case isFalse below =>
      split
      -- The exponent of a number with a leading one isn't the greatest one.
      · rw [unpackExponent_packComponents]
        intro greatest
        have greatest := congrArg BitVec.toNat greatest
        rw [BitVec.toNat_ofNat, Nat.mod_eq_of_lt (by omega)] at greatest
        change _ = 2047 at greatest
        omega
      · rw [unpackExponent_packComponents]
        intro greatest
        exact absurd (congrArg BitVec.toNat greatest) (by decide)

theorem eq_zero_of_compare_eq {a : UnpackedFloat} {sign : Sign} (same : a.compare (.zero sign) = some .eq) :
    ∃ other, a = .zero other := by
  cases a with
  | zero other => exact ⟨other, rfl⟩
  | notANumber => cases same
  | infinity other | finite other => cases other <;> cases same

/-- Packing keeps zeros, which are equal whatever their signs. -/
theorem compare_zero_zero (s t : Sign) :
    (Float.Model.pack (.zero s)).unpack.compare (Float.Model.pack (.zero t)).unpack = some .eq := by
  cases s <;> cases t <;> rfl

theorem subtractsAlike : Scalar.SubtractsAlike Float := by
  intro x y value equal finite
  change value.toModel.unpack.isFinite = true at finite
  have difference : ∀ z : Float, (z - value).toModel =
      .pack (UnpackedFloat.sub Format.binary64 z.toModel.unpack value.toModel.unpack) := fun _ => rfl
  rw [beq_iff] at equal
  rw [beq_iff, difference, difference]
  by_cases zero : ∃ sign, y.toModel.unpack = .zero sign
  -- Zeros may differ in sign, and the difference is zero again or the opposite value.
  · obtain ⟨t, second⟩ := zero
    rw [second] at equal ⊢
    obtain ⟨s, first⟩ := eq_zero_of_compare_eq equal
    rw [first]
    cases subtrahend : value.toModel.unpack with
    | notANumber | infinity =>
      rw [subtrahend] at finite
      cases finite
    | zero r => cases s <;> cases t <;> cases r <;> exact compare_zero_zero ..
    | finite r m e positive => exact compare_self_of_defined (unpack_pack_defined nofun)
  · have same := eq_of_compare_eq equal fun sign other => zero ⟨sign, other⟩
    have defined : y.toModel.unpack ≠ .notANumber := by
      intro undefined
      rw [same, undefined] at equal
      cases equal
    rw [same]
    exact compare_self_of_defined (unpack_pack_defined (sub_defined defined finite))

end Binary64

instance : LawfulFinite Float where
  beq_self := Binary64.beq_self_of_isFinite
  eq_posInf_of_le := Binary64.eq_posInf_of_le

end LinearReduction
