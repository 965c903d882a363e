import LinearReduction.Proofs.Scalar.Lawful
import LinearReduction.Solution.Optimal
import Mathlib.Algebra.Order.Ring.Rat
import Mathlib.Algebra.Field.Rat
import Mathlib.Tactic.Linarith
import Mathlib.Tactic.Ring

/-!
# Exact values

Arithmetic and comparison of rational numbers as exact scalars, and what proper bounds say about rational
numbers. Main statements: proper bounds are one of four intervals, and taking an amount away from bounds takes
it away from what they contain.
-/

namespace LinearReduction

namespace ExtRat

variable {a b : ℚ} {x y : ExtRat}

/-- The rational number that a value is, zero if it is none. -/
def toRat : ExtRat → ℚ
  | .finite a => a
  | _ => 0

@[simp] theorem toRat_finite (a : ℚ) : (finite a).toRat = a := rfl

theorem eq_finite_of_isFinite (proper : Scalar.isFinite x = true) : x = .finite x.toRat := by
  cases x with
  | finite a => rfl
  | _ => cases proper

@[simp] theorem isFinite_finite (a : ℚ) : Scalar.isFinite (finite a) = true := rfl

/-! ## Arithmetic -/

theorem zero_eq : (0 : ExtRat) = .finite 0 := rfl

theorem one_eq : (1 : ExtRat) = .finite 1 := rfl

@[simp] theorem finite_add (a b : ℚ) : finite a + finite b = .finite (a + b) := rfl

@[simp] theorem finite_mul (a b : ℚ) : finite a * finite b = .finite (a * b) := rfl

@[simp] theorem finite_neg (a : ℚ) : -finite a = .finite (-a) := rfl

@[simp] theorem finite_sub (a b : ℚ) : finite a - finite b = .finite (a - b) := by
  rw [sub_eq_add_neg]
  rfl

theorem finite_div (a : ℚ) (nonzero : b ≠ 0) : finite a / finite b = .finite (a / b) := by
  change mul (.finite a) (inv (.finite b)) = _
  rw [inv, if_neg nonzero, div_eq_mul_inv]
  rfl

@[simp] theorem posInf_sub_finite (a : ℚ) : posInf - finite a = .posInf := rfl

@[simp] theorem finite_sub_negInf (a : ℚ) : finite a - negInf = .posInf := rfl

@[simp] theorem negInf_sub_finite (a : ℚ) : negInf - finite a = .negInf := rfl

@[simp] theorem toRat_neg (x : ExtRat) : (-x).toRat = -x.toRat := by
  cases x with
  | finite a => rfl
  | posInf | negInf | undefined => exact neg_zero.symm

theorem add_finite_zero (x : ExtRat) : x + finite 0 = x := by
  cases x with
  | finite a => rw [finite_add, add_zero]
  | _ => rfl

theorem add_finite_add (x : ExtRat) (a b : ℚ) : x + finite a + finite b = x + finite (a + b) := by
  cases x with
  | finite c => rw [finite_add, finite_add, finite_add, add_assoc]
  | _ => rfl

/-! ## Comparison -/

theorem eq_of_beq (same : (x == finite a) = true) : x = finite a := by
  change beq x (finite a) = true at same
  cases x <;> simp_all [beq]

theorem bne_zero_of_toRat (nonzero : x.toRat ≠ 0) : (x != 0) = true := by
  cases zero : x == 0 with
  | false => rw [bne, zero, Bool.not_false]
  | true => exact absurd (congrArg toRat (eq_of_beq (a := 0) zero)) nonzero

@[simp] theorem finite_lt_finite : finite a < finite b ↔ a < b := decide_eq_true_iff

@[simp] theorem finite_le_finite : finite a ≤ finite b ↔ a ≤ b := by
  change (lt (.finite a) (.finite b) || beq (.finite a) (.finite b)) = true ↔ a ≤ b
  simp [lt, beq, le_iff_lt_or_eq]

@[simp] theorem finite_le_posInf : finite a ≤ posInf := rfl

@[simp] theorem negInf_le_finite : negInf ≤ finite a := rfl

@[simp] theorem negInf_le_posInf : negInf ≤ posInf := rfl

@[simp] theorem not_posInf_le_finite : ¬ posInf ≤ finite a := Bool.false_ne_true

@[simp] theorem not_finite_le_negInf : ¬ finite a ≤ negInf := Bool.false_ne_true

@[simp] theorem negInf_lt_finite : negInf < finite a := rfl

@[simp] theorem negInf_lt_posInf : negInf < posInf := rfl

@[simp] theorem finite_lt_posInf : finite a < posInf := rfl

@[simp] theorem not_finite_lt_negInf : ¬ finite a < negInf := Bool.false_ne_true

@[simp] theorem not_posInf_lt_finite : ¬ posInf < finite a := Bool.false_ne_true

end ExtRat

namespace Bounds

open ExtRat

variable {b : Bounds ExtRat} {s t d : ℚ}

/-- Proper bounds leave everything, a half line or an interval. -/
inductive Proper : Bounds ExtRat → Prop where
  | free : Proper ⟨.negInf, .posInf⟩
  | above (l : ℚ) : Proper ⟨.finite l, .posInf⟩
  | below (u : ℚ) : Proper ⟨.negInf, .finite u⟩
  | between {l u : ℚ} (order : l ≤ u) : Proper ⟨.finite l, .finite u⟩

theorem isProper_iff : b.isProper = true ↔ b.Proper := by
  constructor
  · intro proper
    obtain ⟨lower, upper⟩ := b
    cases lower <;> cases upper
    case finite.finite l u =>
      simp only [isProper, Bool.and_eq_true, decide_eq_true_eq, finite_le_finite] at proper
      exact .between proper.1.1.1
    case finite.posInf l => exact .above l
    case negInf.finite u => exact .below u
    case negInf.posInf => exact .free
    all_goals cases proper
  · rintro (_ | l | u | order)
    · rfl
    · rfl
    · rfl
    · simp only [isProper, Bool.and_eq_true, decide_eq_true_eq, finite_le_finite]
      exact ⟨⟨⟨order, rfl⟩, rfl⟩, rfl⟩

theorem proper_point (a : ℚ) : (Bounds.point (finite a)).Proper :=
  .between le_rfl

theorem proper_nonnegative : (Bounds.nonnegative : Bounds ExtRat).Proper :=
  .above 0

theorem shift_shift (b : Bounds ExtRat) (s t : ℚ) :
    (b.shift (.finite s)).shift (.finite t) = b.shift (.finite (s + t)) := by
  have twice : ∀ x : ExtRat, x - finite s - finite t = x - finite (s + t) := by
    intro x
    cases x with
    | finite a => rw [finite_sub, finite_sub, finite_sub, sub_sub]
    | _ => rfl
  rw [Bounds.shift, Bounds.shift, Bounds.shift, twice, twice]

theorem shift_zero (b : Bounds ExtRat) : b.shift (.finite 0) = b := by
  have unchanged : ∀ x : ExtRat, x - finite 0 = x := by
    intro x
    cases x with
    | finite a => rw [finite_sub, sub_zero]
    | _ => rfl
  rw [Bounds.shift, unchanged, unchanged]

theorem Proper.shift (proper : b.Proper) (t : ℚ) : (b.shift (.finite t)).Proper := by
  cases proper with
  | free => exact .free
  | above l => exact .above _
  | below u => exact .below _
  | between order => exact .between (add_le_add_left order _)

theorem Proper.isFree_shift (proper : b.Proper) (t : ℚ) : (b.shift (.finite t)).isFree = b.isFree := by
  cases proper <;> rfl

/-- Bounds of which one is finite have a proper range. -/
theorem Proper.range (proper : b.Proper) (finite : isFinite b.lower = true ∨ isFinite b.upper = true) :
    b.range.Proper := by
  cases proper with
  | free => rcases finite with finite | finite <;> cases finite
  | above l => exact .above 0
  | below u => exact .above 0
  | between order =>
    rw [Bounds.range, finite_sub]
    exact .between (sub_nonneg.2 order)

theorem Proper.lower_lt_upper (proper : b.Proper) (inequality : b.isPoint = false) : b.lower < b.upper := by
  cases proper with
  | free => exact negInf_lt_posInf
  | above l => exact finite_lt_posInf
  | below u => exact negInf_lt_finite
  | @between l u order =>
    refine finite_lt_finite.2 (lt_of_le_of_ne order ?_)
    rintro rfl
    exact Bool.false_ne_true (inequality.symm.trans (decide_eq_true rfl))

/-- Bounds that restrict something, but not from below, do so from above. -/
theorem Proper.upper_finite (proper : b.Proper) (restricts : b.isFree = false)
    (infinite : isFinite b.lower = false) : isFinite b.upper = true := by
  cases proper with
  | free => cases restricts
  | above l => cases infinite
  | below u => rfl
  | between order => rfl

theorem Proper.eq_point (proper : b.Proper) (same : b.isPoint = true) : ∃ a : ℚ, b = .point (.finite a) := by
  cases proper with
  | free => cases same
  | above l => cases same
  | below u => cases same
  | @between l u order =>
    have equal : l = u := by
      have same : decide (ExtRat.finite l = ExtRat.finite u) = true := same
      simpa using same
    exact ⟨l, by rw [← equal]; rfl⟩

theorem isPoint_point (a : ℚ) : (Bounds.point (finite a)).isPoint = true :=
  decide_eq_true rfl

/-- Taking an amount away from both bounds leaves their distance. -/
theorem Proper.isPoint_shift (proper : b.Proper) (t : ℚ) : (b.shift (.finite t)).isPoint = b.isPoint := by
  cases proper with
  | free => rfl
  | above l => rfl
  | below u => rfl
  | @between l u order =>
    have equal : ExtRat.finite (l - t) = .finite (u - t) ↔ ExtRat.finite l = .finite u := by
      rw [ExtRat.finite.injEq, ExtRat.finite.injEq, sub_left_inj]
    rw [Bounds.shift, finite_sub, finite_sub]
    exact decide_eq_decide.2 equal

theorem Proper.isPoint_range (proper : b.Proper) (finite : isFinite b.lower = true ∨
      isFinite b.upper = true) : b.range.isPoint = b.isPoint := by
  cases proper with
  | free => rcases finite with finite | finite <;> cases finite
  | above l => rfl
  | below u => rfl
  | @between l u order =>
    have equal : ExtRat.finite 0 = .finite (u - l) ↔ ExtRat.finite l = .finite u := by
      rw [ExtRat.finite.injEq, ExtRat.finite.injEq, eq_comm, sub_eq_zero, eq_comm]
    rw [Bounds.range, finite_sub]
    exact decide_eq_decide.2 equal

/-! ## What bounds contain -/

theorem contains_finite : b.Contains (.finite t) ↔ b.lower ≤ .finite t ∧ .finite t ≤ b.upper := Iff.rfl

theorem contains_point {a : ℚ} : (Bounds.point (finite a)).Contains (.finite t) ↔ t = a := by
  rw [contains_finite]
  simp only [Bounds.point, finite_le_finite]
  exact ⟨fun ⟨above, below⟩ => le_antisymm below above, fun same => ⟨same.ge, same.le⟩⟩

theorem contains_nonnegative : (Bounds.nonnegative : Bounds ExtRat).Contains (.finite t) ↔ 0 ≤ t := by
  rw [contains_finite, nonnegative, zero_eq, finite_le_finite]
  exact and_iff_left rfl

theorem contains_of_isFree (free : b.isFree = true) (t : ℚ) : b.Contains (.finite t) := by
  simp only [isFree, Bool.and_eq_true] at free
  rw [contains_finite, LawfulScalar.eq_negInf free.1, LawfulScalar.eq_posInf free.2]
  exact ⟨rfl, rfl⟩

/-- What is left of a value when an amount is taken away is bounded by what is left of the bounds. -/
theorem Proper.contains_shift (proper : b.Proper) :
    (b.shift (.finite t)).Contains (.finite s) ↔ b.Contains (.finite (s + t)) := by
  cases proper with
  | free => simp [Bounds.shift, contains_finite]
  | above l => simp [Bounds.shift, contains_finite]
  | below u => simp [Bounds.shift, contains_finite, le_sub_iff_add_le]
  | between order => simp [Bounds.shift, contains_finite, le_sub_iff_add_le]

/-- The distance from the lower bound lies within the range. -/
theorem Proper.contains_range_above (proper : b.Proper) (finite : isFinite b.lower = true) :
    b.range.Contains (.finite t) ↔ b.Contains (.finite (b.lower.toRat + t)) := by
  cases proper with
  | free => cases finite
  | above l => simp [Bounds.range, contains_finite, zero_eq]
  | below u => cases finite
  | between order => simp [Bounds.range, contains_finite, zero_eq, le_sub_iff_add_le']

/-- So does the distance from the upper bound. -/
theorem Proper.contains_range_below (proper : b.Proper) (finite : isFinite b.upper = true) :
    b.range.Contains (.finite t) ↔ b.Contains (.finite (b.upper.toRat - t)) := by
  cases proper with
  | free => cases finite
  | above l => cases finite
  | below u => simp [Bounds.range, contains_finite, zero_eq]
  | between order => simp [Bounds.range, contains_finite, zero_eq, le_sub_comm, and_comm]

/-- Without a lower bound, smaller values are contained as well. -/
theorem contains_of_le (contains : b.Contains (.finite t)) (lower : b.lower = .negInf) (order : s ≤ t) :
    b.Contains (.finite s) := by
  refine ⟨by rw [lower]; exact negInf_le_finite, ?_⟩
  have below := contains.2
  cases upper : b.upper with
  | finite u =>
    rw [upper, finite_le_finite] at below
    exact finite_le_finite.2 (order.trans below)
  | posInf => exact finite_le_posInf
  | negInf => exact absurd (upper ▸ below) not_finite_le_negInf
  | undefined =>
    rw [upper] at below
    exact absurd below Bool.false_ne_true

/-- Without an upper bound, larger values are contained as well. -/
theorem contains_of_ge (contains : b.Contains (.finite t)) (upper : b.upper = .posInf) (order : t ≤ s) :
    b.Contains (.finite s) := by
  refine ⟨?_, by rw [upper]; exact finite_le_posInf⟩
  have above := contains.1
  cases lower : b.lower with
  | finite l =>
    rw [lower, finite_le_finite] at above
    exact finite_le_finite.2 (above.trans order)
  | negInf => exact negInf_le_finite
  | posInf => exact absurd (lower ▸ above) not_posInf_le_finite
  | undefined =>
    rw [lower] at above
    exact absurd above Bool.false_ne_true

/-! ## What bounds hold back -/

theorem holds_finite : b.Holds (.finite t) (.finite d) ↔
    (0 < d → b.lower = .finite t) ∧ (d < 0 → b.upper = .finite t) := by
  constructor
  · rintro ⟨lower, upper⟩
    exact ⟨fun positive => (lower (finite_lt_finite.2 positive)).2.symm,
      fun negative => (upper (finite_lt_finite.2 negative)).2.symm⟩
  · rintro ⟨lower, upper⟩
    refine ⟨fun positive => ?_, fun negative => ?_⟩
    · rw [lower (finite_lt_finite.1 positive)]
      exact ⟨rfl, rfl⟩
    · rw [upper (finite_lt_finite.1 negative)]
      exact ⟨rfl, rfl⟩

theorem holds_zero : b.Holds (.finite t) (.finite 0) :=
  holds_finite.2 ⟨fun positive => absurd positive (lt_irrefl 0),
    fun negative => absurd negative (lt_irrefl 0)⟩

theorem holds_point {a : ℚ} : (Bounds.point (finite a)).Holds (.finite a) (.finite d) :=
  holds_finite.2 ⟨fun _ => rfl, fun _ => rfl⟩

theorem holds_of_isFree (free : b.isFree = true) : b.Holds (.finite t) (.finite d) ↔ d = 0 := by
  simp only [isFree, Bool.and_eq_true] at free
  rw [holds_finite, LawfulScalar.eq_negInf free.1, LawfulScalar.eq_posInf free.2]
  constructor
  · rintro ⟨lower, upper⟩
    rcases lt_trichotomy d 0 with negative | zero | positive
    · cases upper negative
    · exact zero
    · cases lower positive
  · rintro rfl
    exact ⟨fun positive => absurd positive (lt_irrefl 0), fun negative => absurd negative (lt_irrefl 0)⟩

theorem holds_nonnegative : (Bounds.nonnegative : Bounds ExtRat).Holds (.finite t) (.finite d) ↔
    0 ≤ d ∧ (0 < d → t = 0) := by
  rw [holds_finite]
  constructor
  · rintro ⟨lower, upper⟩
    refine ⟨not_lt.1 fun negative => ?_, fun positive => (ExtRat.finite.inj (lower positive)).symm⟩
    cases upper negative
  · rintro ⟨nonnegative, lower⟩
    refine ⟨fun positive => ?_, fun negative => absurd negative (not_lt.2 nonnegative)⟩
    rw [lower positive]
    rfl

theorem Proper.holds_shift (proper : b.Proper) :
    (b.shift (.finite t)).Holds (.finite s) (.finite d) ↔ b.Holds (.finite (s + t)) (.finite d) := by
  cases proper <;> simp [Bounds.shift, holds_finite, sub_eq_iff_eq_add]

theorem Proper.holds_range_above (proper : b.Proper) (finite : isFinite b.lower = true) :
    b.range.Holds (.finite t) (.finite d) ↔ b.Holds (.finite (b.lower.toRat + t)) (.finite d) := by
  cases proper with
  | free => cases finite
  | above l => simp [Bounds.range, holds_finite, zero_eq, eq_comm]
  | below u => cases finite
  | @between l u order =>
    have distance : u - l = t ↔ u = l + t := sub_eq_iff_eq_add'
    have start : 0 = t ↔ l = l + t := by rw [left_eq_add, eq_comm]
    simp only [Bounds.range, holds_finite, zero_eq, finite_sub, toRat_finite, ExtRat.finite.injEq,
      distance, start]

theorem Proper.holds_range_below (proper : b.Proper) (finite : isFinite b.upper = true) :
    b.range.Holds (.finite t) (.finite d) ↔ b.Holds (.finite (b.upper.toRat - t)) (.finite (-d)) := by
  cases proper with
  | free => cases finite
  | above l => cases finite
  | below u =>
    have start : 0 = t ↔ u = u - t := by rw [eq_sub_iff_add_eq, add_eq_left, eq_comm]
    simp [Bounds.range, holds_finite, zero_eq, start, and_comm]
  | @between l u order =>
    have distance : u - l = t ↔ l = u - t := by rw [sub_eq_iff_eq_add, eq_sub_iff_add_eq', eq_comm]
    have start : 0 = t ↔ u = u - t := by rw [eq_sub_iff_add_eq, add_eq_left, eq_comm]
    simp only [Bounds.range, holds_finite, zero_eq, finite_sub, toRat_finite, ExtRat.finite.injEq,
      distance, start, neg_pos, neg_lt_zero, and_comm]

end Bounds

end LinearReduction
