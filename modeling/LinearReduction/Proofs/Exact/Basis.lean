import LinearReduction.Proofs.Exact.Points
import LinearReduction.Proofs.Program.Building
import LinearReduction.Proofs.Recovery.Valuation
import LinearReduction.Solution.Basis
import Mathlib.LinearAlgebra.FiniteDimensional.Lemmas
import Mathlib.LinearAlgebra.Dimension.Constructions

/-!
# Bases without a count

A basis has as many rows and columns as the program has rows. Reductions change both numbers, so that they are
not counted along the way: what stays is that the columns of the basis give the rows outside of it any
activities that are asked for, in exactly one way. Main statement: this is what a basis is.
-/

namespace LinearReduction

open ExtRat

namespace Entries

variable {entries : Entries ExtRat} {x y : Nat → ℚ}

theorem value_add : entries.value (x + y) = entries.value x + entries.value y := by
  induction entries with
  | nil => simp
  | cons first rest inductionHypothesis =>
    rw [value_cons, value_cons, value_cons, inductionHypothesis, Pi.add_apply]
    ring

theorem value_zero : entries.value (0 : Nat → ℚ) = 0 := by
  induction entries with
  | nil => rfl
  | cons first rest inductionHypothesis =>
    rw [value_cons, inductionHypothesis, Pi.zero_apply, mul_zero, add_zero]

end Entries

/-- A point that is zero in the columns outside of the basis, and has the given activities in the rows
    outside. -/
structure Program.Answers (p : Program ExtRat) (v : Valuation Status) (y x : Nat → ℚ) : Prop where
  columns : ∀ j, p.columns.isActive j = true → (v.columns j).isNonbasic = true → x j = 0
  rows : ∀ i row, p.rows.get? i = some row → (v.rows i).isNonbasic = true → row.entries.value x = y i

/-- All activities of the rows outside of the basis are had by one point. -/
structure Program.Based (p : Program ExtRat) (v : Valuation Status) : Prop where
  unique : ∀ x, p.Answers v 0 x → ∀ j, p.columns.isActive j = true → x j = 0
  solvable : ∀ y, ∃ x, p.Answers v y x

namespace Program

variable {p : Program ExtRat} {v : Valuation Status} {x x' y : Nat → ℚ} {point : List ExtRat}

theorem Answers.congr (answers : p.Answers v y x) (exact : p.Exact)
    (same : ∀ j, p.columns.isActive j = true → x' j = x j) : p.Answers v y x' :=
  ⟨fun j active nonbasic => (same j active).trans (answers.columns j active nonbasic),
    fun i row active nonbasic => (exact.value_congr (fun j _ found =>
      same j (Slots.isActive_of_eq_some found)) active).trans (answers.rows i row active nonbasic)⟩

/-! ## Activities that the basis can give -/

def basicColumns (p : Program ExtRat) (v : Valuation Status) : Finset Nat :=
  (Finset.range p.columns.size).filter fun j => (v.columns j).isNonbasic = false

def nonbasicRows (p : Program ExtRat) (v : Valuation Status) : Finset Nat :=
  (Finset.range p.rows.size).filter fun i => (v.rows i).isNonbasic = true

end Program

/-- Numbers for some ordinals, zero for all others. -/
def extended {ordinals : Finset Nat} (f : ordinals → ℚ) (k : Nat) : ℚ :=
  if listed : k ∈ ordinals then f ⟨k, listed⟩ else 0

theorem extended_of_mem {ordinals : Finset Nat} {f : ordinals → ℚ} {k : Nat} (listed : k ∈ ordinals) :
    extended f k = f ⟨k, listed⟩ :=
  dif_pos listed

theorem extended_of_not_mem {ordinals : Finset Nat} {f : ordinals → ℚ} {k : Nat} (absent : k ∉ ordinals) :
    extended f k = 0 :=
  dif_neg absent

namespace Program

variable {p : Program ExtRat} {v : Valuation Status} {x x' y : Nat → ℚ} {point : List ExtRat}

/-- The activities outside of the basis, in terms of the numbers for its columns. -/
def response (p : Program ExtRat) (v : Valuation Status) :
    (p.basicColumns v → ℚ) →ₗ[ℚ] (p.nonbasicRows v → ℚ) where
  toFun f i := Entries.value (((p.rows.get? i).map (·.entries)).getD []) (extended f)
  map_add' f g := by
    have sum : extended (f + g) = extended f + extended g := by
      funext k
      by_cases listed : k ∈ p.basicColumns v <;> simp [extended, listed]
    funext i
    rw [sum, Entries.value_add]
    rfl
  map_smul' c f := by
    have product : extended (c • f) = fun k => c * extended f k := by
      funext k
      by_cases listed : k ∈ p.basicColumns v <;> simp [extended, listed]
    funext i
    rw [product, Entries.value_mul]
    rfl

theorem response_apply {f : p.basicColumns v → ℚ} {i : p.nonbasicRows v} {row : Row ExtRat}
    (active : p.rows.get? i = some row) : p.response v f i = row.entries.value (extended f) := by
  change Entries.value (((p.rows.get? i).map (·.entries)).getD []) (extended f) = _
  rw [active]
  rfl

theorem answers_extended_iff (full : p.Full) {f : p.basicColumns v → ℚ} :
    p.Answers v y (extended f) ↔ p.response v f = fun i : p.nonbasicRows v => y i := by
  constructor
  · intro answers
    funext i
    obtain ⟨inside, nonbasic⟩ := Finset.mem_filter.1 i.2
    obtain ⟨row, active⟩ := Slots.isActive_iff.1 (full.rows i (Finset.mem_range.1 inside))
    rw [response_apply active]
    exact answers.rows i row active nonbasic
  · intro same
    refine ⟨fun j active nonbasic => extended_of_not_mem fun listed => ?_, fun i row active nonbasic => ?_⟩
    · have basic := (Finset.mem_filter.1 listed).2
      rw [nonbasic] at basic
      cases basic
    · have listed : i ∈ p.nonbasicRows v :=
        Finset.mem_filter.2 ⟨Finset.mem_range.2 (Slots.lt_size active), nonbasic⟩
      rw [← response_apply (i := ⟨i, listed⟩) active, same]

/-- The numbers in the columns of the basis are all that there is to a point. -/
theorem Answers.eq_extended (answers : p.Answers v y x) (j : Nat) (active : p.columns.isActive j = true) :
    extended (fun k : p.basicColumns v => x k) j = x j := by
  cases status : (v.columns j).isNonbasic with
  | false =>
    exact extended_of_mem
      (Finset.mem_filter.2 ⟨Finset.mem_range.2 (Slots.lt_size_of_isActive active), status⟩)
  | true =>
    rw [answers.columns j active status]
    apply extended_of_not_mem
    intro listed
    have basic := (Finset.mem_filter.1 listed).2
    rw [status] at basic
    cases basic

theorem injective_response_iff (exact : p.Exact) (full : p.Full) : Function.Injective (p.response v) ↔
    ∀ x, p.Answers v 0 x → ∀ j, p.columns.isActive j = true → x j = 0 := by
  rw [injective_iff_map_eq_zero]
  constructor
  · intro injective x answers j active
    have zero := injective _ ((answers_extended_iff full).1 (answers.congr exact answers.eq_extended))
    rw [← answers.eq_extended j active, zero]
    by_cases listed : j ∈ p.basicColumns v <;> simp [extended, listed]
  · intro unique f zero
    funext j
    have inside := Finset.mem_range.1 (Finset.mem_filter.1 j.2).1
    have value := unique _ ((answers_extended_iff full).2 zero) j (full.columns j inside)
    rwa [extended_of_mem j.2] at value

theorem surjective_response_iff (exact : p.Exact) (full : p.Full) : Function.Surjective (p.response v) ↔
    ∀ y, ∃ x, p.Answers v y x := by
  constructor
  · intro surjective y
    obtain ⟨f, same⟩ := surjective fun i : p.nonbasicRows v => y i
    exact ⟨_, (answers_extended_iff full).2 same⟩
  · intro solvable g
    obtain ⟨x, answers⟩ := solvable (extended g)
    refine ⟨_, ((answers_extended_iff full).1 (answers.congr exact answers.eq_extended)).trans ?_⟩
    funext i
    exact extended_of_mem i.2

/-! ## Bases -/

theorem count_basic (f : Nat → Status) (n : Nat) : ((List.range n).map f).count .basic =
    ((Finset.range n).filter fun i => (f i).isNonbasic = false).card := by
  induction n with
  | zero => rfl
  | succ n inductionHypothesis =>
    have basic : (f n).isNonbasic = false ↔ f n = .basic := by cases f n <;> simp [Status.isNonbasic]
    rw [List.range_succ, List.map_append, List.count_append, inductionHypothesis, Finset.range_add_one,
      Finset.filter_insert]
    split
    case isTrue inside => rw [Finset.card_insert_of_notMem (by simp), List.map_singleton, basic.1 inside]; rfl
    case isFalse outside => simp [mt basic.2 outside]

/-- There are as many rows and columns in the basis as rows exactly if its columns are as many as the rows
    outside. -/
theorem count_sides_iff : (v.sides p.rows.size p.columns.size).rows.count .basic +
      (v.sides p.rows.size p.columns.size).columns.count .basic = p.rows.size ↔
    (p.basicColumns v).card = (p.nonbasicRows v).card := by
  have rows : ((Finset.range p.rows.size).filter fun i => (v.rows i).isNonbasic = false).card +
      (p.nonbasicRows v).card = p.rows.size := by
    have split := Finset.card_filter_add_card_filter_not (s := Finset.range p.rows.size)
      fun i => (v.rows i).isNonbasic = false
    simpa [nonbasicRows] using split
  rw [Valuation.sides, count_basic, count_basic]
  change _ + (p.basicColumns v).card = _ ↔ _
  omega

theorem Lists.vanishesOutside_iff (lists : p.Lists point x) (exact : p.Exact) (full : p.Full) :
    p.VanishesOutside (v.sides p.rows.size p.columns.size) point ↔ p.Answers v 0 x := by
  constructor
  · rintro ⟨_, rows, columns⟩
    refine ⟨fun j active nonbasic => ?_, fun i row active nonbasic => ?_⟩
    · obtain ⟨column, found⟩ := Slots.isActive_iff.1 active
      have zero := columns j (v.columns j) (by simp [Valuation.sides, Slots.lt_size found]) nonbasic
      rw [lists.value j column found] at zero
      exact ExtRat.finite.inj zero
    · have zero := rows i row (v.rows i) active (by simp [Valuation.sides, Slots.lt_size active]) nonbasic
      rw [lists.activity_eq exact active] at zero
      exact ExtRat.finite.inj zero
  · intro answers
    refine ⟨lists.isPoint, fun i row s active given nonbasic => ?_, fun j s given nonbasic => ?_⟩
    · have same : v.rows i = s := by simpa [Valuation.sides, Slots.lt_size active] using given
      rw [lists.activity_eq exact active, answers.rows i row active (same ▸ nonbasic)]
      rfl
    · have inside : j < p.columns.size := by
        simpa [Valuation.sides] using (List.getElem?_eq_some_iff.1 given).1
      have same : v.columns j = s := by simpa [Valuation.sides, inside] using given
      obtain ⟨column, found⟩ := Slots.isActive_iff.1 (full.columns j inside)
      rw [lists.value j column found, answers.columns j (full.columns j inside) (same ▸ nonbasic)]
      rfl

theorem vanishing_iff (exact : p.Exact) (full : p.Full) :
    (∀ point, p.VanishesOutside (v.sides p.rows.size p.columns.size) point → ∀ value ∈ point, value = 0) ↔
      ∀ x, p.Answers v 0 x → ∀ j, p.columns.isActive j = true → x j = 0 := by
  constructor
  · intro zero x answers j active
    have lists := p.lists_range x
    obtain ⟨column, found⟩ := Slots.isActive_iff.1 active
    have value := zero _ ((lists.vanishesOutside_iff exact full).2 answers) (.finite (x j))
      (List.mem_map.2 ⟨j, List.mem_range.2 (Slots.lt_size found), rfl⟩)
    exact ExtRat.finite.inj value
  · intro unique point vanishes value listed
    have lists := vanishes.isPoint.lists
    obtain ⟨j, inside, rfl⟩ := List.getElem_of_mem listed
    have active := full.columns j (vanishes.isPoint.length_eq ▸ inside)
    obtain ⟨column, found⟩ := Slots.isActive_iff.1 active
    rw [← valueAt_eq_getElem inside, lists.value j column found,
      unique _ ((lists.vanishesOutside_iff exact full).1 vanishes) j active]
    rfl

theorem isBasis_sides_iff (exact : p.Exact) (full : p.Full) :
    p.IsBasis (v.sides p.rows.size p.columns.size) ↔ p.Based v := by
  -- A map between spaces of the same dimension is injective exactly if it is surjective, and bijective maps
  -- only exist between such spaces.
  constructor
  · intro basis
    have unique := (vanishing_iff exact full).1 basis.unique
    have injective := (injective_response_iff exact full).2 unique
    have dimensions : Module.finrank ℚ (p.basicColumns v → ℚ) = Module.finrank ℚ (p.nonbasicRows v → ℚ) := by
      simpa using count_sides_iff.1 basis.count_eq
    have surjective := (LinearMap.injective_iff_surjective_of_finrank_eq_finrank dimensions).1 injective
    exact ⟨unique, (surjective_response_iff exact full).1 surjective⟩
  · intro based
    refine ⟨by simp [Valuation.sides], by simp [Valuation.sides], count_sides_iff.2 ?_,
      (vanishing_iff exact full).2 based.unique⟩
    have bijective : Function.Bijective (p.response v) :=
      ⟨(injective_response_iff exact full).2 based.unique,
        (surjective_response_iff exact full).2 based.solvable⟩
    simpa using (LinearEquiv.ofBijective (p.response v) bijective).finrank_eq

end Program

end LinearReduction
