import LinearReduction.Proofs.Exact.Values
import LinearReduction.Proofs.Program.Rewritten
import Mathlib.Logic.Function.Basic
import Mathlib.Algebra.BigOperators.Group.List.Basic

/-!
# Exact products

The product of coefficients with rational numbers. Main statements: what changing one number, and what
changing the coefficients, makes of the product.
-/

namespace LinearReduction

open ExtRat

namespace Entries

variable {entries : Entries ExtRat} {x y : Nat → ℚ} {k : Nat}

/-- Product of coefficients with the numbers at their ordinals. -/
def value (entries : Entries ExtRat) (x : Nat → ℚ) : ℚ :=
  (entries.map fun entry => entry.2.toRat * x entry.1).sum

/-- The number that a coefficient is, zero if there is none. -/
def coefficient (entries : Entries ExtRat) (k : Nat) : ℚ :=
  ((entries.lookup k).map toRat).getD 0

@[simp] theorem value_nil : Entries.value [] x = 0 := rfl

@[simp] theorem value_cons {entry : Nat × ExtRat} {rest : Entries ExtRat} :
    Entries.value (entry :: rest) x = entry.2.toRat * x entry.1 + Entries.value rest x := by
  simp [value]

theorem value_append {others : Entries ExtRat} :
    Entries.value (entries ++ others) x = entries.value x + others.value x := by
  simp [value]

/-- Only the numbers at the ordinals of coefficients matter. -/
theorem value_congr (same : ∀ k ∈ entries.ordinals, x k = y k) : entries.value x = entries.value y := by
  unfold value
  congr 1
  apply List.map_congr_left
  intro entry listed
  rw [same entry.1 (mem_ordinals_of_mem listed)]

theorem value_update_of_not_mem (absent : k ∉ entries.ordinals) (t : ℚ) :
    entries.value (Function.update x k t) = entries.value x := by
  apply value_congr
  intro l listed
  rw [Function.update_of_ne]
  rintro rfl
  exact absent listed

theorem coefficient_of_not_mem (absent : k ∉ entries.ordinals) : entries.coefficient k = 0 := by
  rw [coefficient, lookup_eq_none_iff.2 absent]
  rfl

theorem coefficient_of_mem (distinct : entries.ordinals.Nodup) {c : ExtRat} (listed : (k, c) ∈ entries) :
    entries.coefficient k = c.toRat := by
  rw [coefficient, (lookup_eq_some_iff distinct).2 listed]
  rfl

theorem coefficient_cons_self {c : ExtRat} {rest : Entries ExtRat} :
    Entries.coefficient ((k, c) :: rest) k = c.toRat := by
  simp [coefficient]

theorem coefficient_cons_of_ne {l : Nat} {c : ExtRat} {rest : Entries ExtRat} (apart : l ≠ k) :
    Entries.coefficient ((l, c) :: rest) k = Entries.coefficient rest k := by
  have different : (k == l) = false := beq_false_of_ne (Ne.symm apart)
  simp [coefficient, List.lookup_cons, different]

/-- Changing one number changes the product by its coefficient. -/
theorem value_update (distinct : entries.ordinals.Nodup) (t : ℚ) :
    entries.value (Function.update x k t) = entries.value x + entries.coefficient k * (t - x k) := by
  induction entries with
  | nil => simp [coefficient]
  | cons first rest inductionHypothesis =>
    obtain ⟨l, c⟩ := first
    obtain ⟨absent, distinct⟩ := List.nodup_cons.1 distinct
    by_cases same : l = k
    · subst same
      rw [value_cons, value_cons, value_update_of_not_mem absent, coefficient_cons_self, Function.update_self]
      ring
    · rw [value_cons, value_cons, inductionHypothesis distinct, coefficient_cons_of_ne same,
        Function.update_of_ne same]
      ring

/-- Leaving a coefficient out is the same as having zero in its place. -/
theorem value_erase (distinct : entries.ordinals.Nodup) :
    Entries.value (entries.erase k) x = entries.value x - entries.coefficient k * x k := by
  induction entries with
  | nil => simp [coefficient, Entries.erase]
  | cons first rest inductionHypothesis =>
    obtain ⟨l, c⟩ := first
    obtain ⟨absent, distinct⟩ := List.nodup_cons.1 distinct
    by_cases same : l = k
    · subst same
      have left_out : Entries.erase ((l, c) :: rest) l = rest := by simp [Entries.erase]
      rw [left_out, value_cons, coefficient_cons_self]
      ring
    · have kept : Entries.erase ((l, c) :: rest) k = (l, c) :: Entries.erase rest k := by
        simp [Entries.erase, same]
      rw [kept, value_cons, value_cons, inductionHypothesis distinct, coefficient_cons_of_ne same]
      ring

theorem value_negate : Entries.value entries.negate x = -entries.value x := by
  induction entries with
  | nil => simp [Entries.negate]
  | cons first rest inductionHypothesis =>
    have split : Entries.negate (first :: rest) = (first.1, -first.2) :: Entries.negate rest := rfl
    rw [split, value_cons, value_cons, inductionHypothesis, toRat_neg]
    ring

theorem coefficient_negate : Entries.coefficient entries.negate k = -entries.coefficient k := by
  induction entries with
  | nil => simp [coefficient, Entries.negate]
  | cons first rest inductionHypothesis =>
    obtain ⟨l, c⟩ := first
    have split : Entries.negate ((l, c) :: rest) = (l, -c) :: Entries.negate rest := rfl
    by_cases same : l = k
    · subst same
      rw [split, coefficient_cons_self, coefficient_cons_self, toRat_neg]
    · rw [split, coefficient_cons_of_ne same, coefficient_cons_of_ne same, inductionHypothesis]

/-- Negating one coefficient takes its product away twice. -/
theorem value_negateAt (distinct : entries.ordinals.Nodup) :
    Entries.value (entries.negateAt k) x = entries.value x - 2 * (entries.coefficient k * x k) := by
  induction entries with
  | nil => simp [coefficient, Entries.negateAt]
  | cons first rest inductionHypothesis =>
    obtain ⟨l, c⟩ := first
    obtain ⟨absent, distinct⟩ := List.nodup_cons.1 distinct
    have split : Entries.negateAt ((l, c) :: rest) k =
        (if l = k then (l, -c) else (l, c)) :: Entries.negateAt rest k :=
      rfl
    rw [split]
    by_cases same : l = k
    · subst same
      rw [if_pos rfl, value_cons, value_cons, negateAt_of_not_mem absent, coefficient_cons_self, toRat_neg]
      ring
    · rw [if_neg same, value_cons, value_cons, inductionHypothesis distinct, coefficient_cons_of_ne same]
      ring

theorem value_mul (t : ℚ) : entries.value (fun k => t * x k) = t * entries.value x := by
  induction entries with
  | nil => simp
  | cons first rest inductionHypothesis =>
    rw [value_cons, value_cons, inductionHypothesis]
    ring

/-! ## Products as they are computed -/

theorem sum_finite (terms : List ℚ) : Scalar.sum (terms.map ExtRat.finite) = .finite terms.sum := by
  have from_any : ∀ (terms : List ℚ) (start : ℚ),
      (terms.map ExtRat.finite).foldl (· + ·) (.finite start) = .finite (start + terms.sum) := by
    intro terms
    induction terms with
    | nil => simp
    | cons first rest inductionHypothesis =>
      intro start
      rw [List.map_cons, List.foldl_cons, finite_add, inductionHypothesis, List.sum_cons, add_assoc]
  change (terms.map ExtRat.finite).foldl (· + ·) (.finite (-0)) = _
  rw [from_any, neg_zero, zero_add]

/-- Where coefficients and values are finite, their product is. -/
theorem sum_eq_finite {values : Nat → ExtRat} (finite : ∀ entry ∈ entries, entry.2 = .finite entry.2.toRat)
    (known : ∀ k ∈ entries.ordinals, values k = .finite (x k)) :
    Scalar.sum (entries.map fun entry => entry.2 * values entry.1) = .finite (entries.value x) := by
  rw [value, ← sum_finite, List.map_map]
  congr 1
  apply List.map_congr_left
  intro entry listed
  rw [finite entry listed, known entry.1 (mem_ordinals_of_mem listed)]
  rfl

theorem dot_eq_finite {point : List ExtRat} (finite : ∀ entry ∈ entries, entry.2 = .finite entry.2.toRat)
    (known : ∀ k ∈ entries.ordinals, valueAt point k = .finite (x k)) :
    entries.dot point = .finite (entries.value x) :=
  sum_eq_finite finite known

end Entries

end LinearReduction
