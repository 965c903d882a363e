import LinearReduction.Proofs.Exact.Program

/-!
# Tolerances

What the checks of the reductions say about rational numbers. Main statements: a check up to a tolerance
passes whatever is within bounds, and without a tolerance it passes nothing else.
-/

namespace LinearReduction

open ExtRat

/-- The tolerances are rational numbers that aren't negative. -/
structure Settings.Tolerates (settings : Settings ExtRat) (absolute relative : ℚ) : Prop where
  absolute_eq : settings.absoluteTolerance = .finite absolute
  relative_eq : settings.relativeTolerance = .finite relative
  absolute_nonneg : 0 ≤ absolute
  relative_nonneg : 0 ≤ relative

namespace Settings

variable {settings : Settings ExtRat} {s t : ℚ}

theorem isTolerance_iff {value : ExtRat} : isTolerance value = true ↔ ∃ t : ℚ, 0 ≤ t ∧ value = .finite t := by
  rw [isTolerance, Bool.and_eq_true, decide_eq_true_iff]
  constructor
  · rintro ⟨finite, nonnegative⟩
    rw [eq_finite_of_isFinite finite] at nonnegative
    exact ⟨value.toRat, finite_le_finite.1 nonnegative, eq_finite_of_isFinite finite⟩
  · rintro ⟨t, nonnegative, rfl⟩
    exact ⟨rfl, finite_le_finite.2 nonnegative⟩

theorem tolerates_zero (absolute : settings.absoluteTolerance = 0)
    (relative : settings.relativeTolerance = 0) : settings.Tolerates 0 0 :=
  ⟨absolute, relative, le_rfl, le_rfl⟩

theorem exists_tolerates (absolute : isTolerance settings.absoluteTolerance = true)
    (relative : isTolerance settings.relativeTolerance = true) : ∃ s t, settings.Tolerates s t := by
  obtain ⟨s, absolute_nonneg, absolute_eq⟩ := isTolerance_iff.1 absolute
  obtain ⟨t, relative_nonneg, relative_eq⟩ := isTolerance_iff.1 relative
  exact ⟨s, t, absolute_eq, relative_eq, absolute_nonneg, relative_nonneg⟩

theorem Tolerates.margin_eq (tolerates : settings.Tolerates s t) (a : ℚ) :
    settings.margin (.finite a) = .finite (s + t * a.abs) := by
  rw [margin, tolerates.absolute_eq, tolerates.relative_eq]
  rfl

theorem Tolerates.margin_nonneg (tolerates : settings.Tolerates s t) (a : ℚ) : 0 ≤ s + t * a.abs :=
  add_nonneg tolerates.absolute_nonneg (mul_nonneg tolerates.relative_nonneg Rat.abs_nonneg)

end Settings

section

variable {settings : Settings ExtRat} {b : Bounds ExtRat} {a c s t : ℚ}

theorem ExtRat.not_finite_lt_of_le {x : ExtRat} (below : x ≤ .finite a) (order : a ≤ t) :
    ¬ ExtRat.finite t < x := by
  cases x with
  | finite b => simpa using (finite_le_finite.1 below).trans order
  | negInf => exact not_finite_lt_negInf
  | posInf => exact absurd below not_posInf_le_finite
  | undefined => exact Bool.false_ne_true

theorem ExtRat.not_lt_finite_of_le {x : ExtRat} (above : .finite a ≤ x) (order : t ≤ a) :
    ¬ x < ExtRat.finite t := by
  cases x with
  | finite b => simpa using order.trans (finite_le_finite.1 above)
  | negInf => exact absurd above not_finite_le_negInf
  | posInf => exact not_posInf_lt_finite
  | undefined => exact Bool.false_ne_true

/-! ## Empty rows -/

/-- Zero is within bounds up to a tolerance if it is within bounds. -/
theorem Bounds.zero_within (contains : b.Contains 0) (nonnegative : 0 ≤ t) :
    ¬ (b.lower > .finite t ∨ b.upper < -finite t) := by
  rintro (below | above)
  · exact not_finite_lt_of_le contains.1 nonnegative below
  · exact not_lt_finite_of_le contains.2 (neg_nonpos.2 nonnegative) above

theorem Bounds.Proper.contains_zero (proper : b.Proper) (within : ¬ (b.lower > 0 ∨ b.upper < -0)) :
    b.Contains 0 := by
  cases proper <;> simp_all [contains_finite, zero_eq]

/-! ## Values of singleton rows -/

namespace Step

/-- A value is admitted if it is within bounds. -/
theorem admits_of_contains (tolerates : settings.Tolerates s t) (contains : b.Contains (.finite a)) :
    admits settings b (.finite a) = true := by
  obtain ⟨above, below⟩ := contains
  have from_below : ∀ l : ℚ, b.lower = .finite l → ¬ finite a < finite l - settings.margin (.finite l) := by
    intro l lower
    rw [lower, finite_le_finite] at above
    rw [tolerates.margin_eq, finite_sub, finite_lt_finite, not_lt]
    linarith [tolerates.margin_nonneg l]
  have from_above : ∀ u : ℚ, b.upper = .finite u → ¬ finite a > finite u + settings.margin (.finite u) := by
    intro u upper
    rw [upper, finite_le_finite] at below
    rw [tolerates.margin_eq, finite_add, gt_iff_lt, finite_lt_finite, not_lt]
    linarith [tolerates.margin_nonneg u]
  rw [admits, isFinite_finite, Bool.true_and, Bool.and_eq_true]
  constructor
  · cases lower : b.lower with
    | finite l => simpa using from_below l lower
    | _ => rfl
  · cases upper : b.upper with
    | finite u => simpa using from_above u upper
    | _ => rfl

theorem contains_of_admits (tolerates : settings.Tolerates 0 0) (proper : b.Proper)
    (admitted : admits settings b (.finite a) = true) : b.Contains (.finite a) := by
  cases proper <;> simp_all [admits, tolerates.margin_eq, Bounds.contains_finite]

end Step

/-! ## Values of empty columns -/

namespace Step

theorem isUnboundedDirection_iff : isUnboundedDirection b (.finite c) (.finite t) = true ↔
    (t < c ∧ b.lower = .negInf) ∨ (c < -t ∧ b.upper = .posInf) := by
  have lower : (b.lower == Scalar.negInf) = true ↔ b.lower = .negInf :=
    ⟨LawfulScalar.eq_negInf, fun same => by rw [same]; rfl⟩
  have upper : (b.upper == Scalar.posInf) = true ↔ b.upper = .posInf :=
    ⟨LawfulScalar.eq_posInf, fun same => by rw [same]; rfl⟩
  simp only [isUnboundedDirection, Bool.or_eq_true, Bool.and_eq_true, decide_eq_true_iff, lower,
    upper, gt_iff_lt, finite_neg, finite_lt_finite]

/-- Where no cost is left over for a missing bound, the best value is held back by its bound. -/
theorem bestValue_holds (proper : b.Proper) (bounded : isUnboundedDirection b (.finite c) 0 = false) :
    b.Holds (bestValue b (.finite c)).1 (.finite c) := by
  have unforced : ¬ ((0 < c ∧ b.lower = .negInf) ∨ (c < -0 ∧ b.upper = .posInf)) := fun forced => by
    rw [zero_eq, isUnboundedDirection_iff.2 forced] at bounded
    cases bounded
  rw [neg_zero] at unforced
  cases proper with
  | free =>
    have unpriced : c = 0 := le_antisymm (not_lt.1 fun positive => unforced (.inl ⟨positive, rfl⟩))
      (not_lt.1 fun negative => unforced (.inr ⟨negative, rfl⟩))
    rw [unpriced]
    exact Bounds.holds_zero
  | above l =>
    exact Bounds.holds_finite.2 ⟨fun _ => rfl, fun negative => absurd (.inr ⟨negative, rfl⟩) unforced⟩
  | below u =>
    exact Bounds.holds_finite.2 ⟨fun positive => absurd (.inl ⟨positive, rfl⟩) unforced, fun _ => rfl⟩
  | @between l u order =>
    simp only [bestValue, isFinite_finite]
    split
    case isTrue same =>
      obtain ⟨a, point⟩ := (Bounds.Proper.between order).eq_point same
      cases point
      exact Bounds.holds_point
    case isFalse =>
      have at_lower : ¬ c < 0 → (⟨.finite l, .finite u⟩ : Bounds ExtRat).Holds (.finite l) (.finite c) :=
        fun nonnegative => Bounds.holds_finite.2 ⟨fun _ => rfl, fun negative => absurd negative nonnegative⟩
      have at_upper : ¬ 0 < c → (⟨.finite l, .finite u⟩ : Bounds ExtRat).Holds (.finite u) (.finite c) :=
        fun nonpositive => Bounds.holds_finite.2 ⟨fun positive => absurd positive nonpositive, fun _ => rfl⟩
      simp only [zero_eq, gt_iff_lt, finite_lt_finite]
      split
      case isTrue positive => exact at_lower positive.le.not_gt
      case isFalse nonpositive =>
        split
        · exact at_upper nonpositive
        case isFalse nonnegative =>
          split
          · exact at_lower nonnegative
          · exact at_upper nonpositive

end Step

/-- A value that its bound holds back is the cheapest one. -/
theorem Bounds.cost_le_of_holds (holds : b.Holds (.finite a) (.finite c))
    (contains : b.Contains (.finite t)) : c * a ≤ c * t := by
  obtain ⟨lower, upper⟩ := holds_finite.1 holds
  obtain ⟨above, below⟩ := contains
  rcases lt_trichotomy c 0 with negative | rfl | positive
  · rw [upper negative, finite_le_finite] at below
    exact mul_le_mul_of_nonpos_left below negative.le
  · simp
  · rw [lower positive, finite_le_finite] at above
    exact mul_le_mul_of_nonneg_left above positive.le

end

end LinearReduction
