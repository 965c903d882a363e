import LinearReduction.Proofs.Exact.Remainder
import LinearReduction.Proofs.Exact.Tolerance

/-!
# What may be left out

An elimination is justified by the program that it is made in, and stays so whatever else was eliminated
before. Main statements: `Program.Removes.justified`, that every elimination is justified,
`Removal.Justified.and`, that justified eliminations are justified all at once, and `Removal.Justified.rest`,
that leaving out some of it justifies the rest.
-/

namespace LinearReduction

open ExtRat

/-- All rows with a coefficient of a column are free. -/
def Program.Unforced (p : Program ExtRat) (j : Nat) : Prop :=
  ∀ i row, p.rows.get? i = some row → j ∈ row.entries.ordinals → row.bounds.isFree = true

/-- Rows that are left out restrict nothing or hold for the values of the substituted columns. These are
    within bounds, and best unless a row may ask for another value. -/
structure Removal.Justified (m : Removal) (p : Program ExtRat) : Prop where
  rows : ∀ {i row}, p.rows.get? i = some row → m.rows i = true → row.bounds.isFree = true ∨
    ((∀ k ∈ row.entries.ordinals, (m.value? k).isSome = true) ∧
      row.bounds.Contains (.finite (row.entries.value m.point)))
  contained : ∀ {j column a}, p.columns.get? j = some column → m.value? j = some a →
    column.bounds.Contains (.finite a)
  best : ∀ {j column a}, p.columns.get? j = some column → m.value? j = some a → p.Unforced j →
    Step.isUnboundedDirection column.bounds column.cost 0 = false ∧
      (Step.bestValue column.bounds column.cost).1 = .finite a

section

variable {settings : Settings ExtRat} {p q u : Program ExtRat} {m n : Removal} {r : Reduction} {i j k : Nat}

namespace Program

theorem Unforced.after (unforced : p.Unforced j) (exact : p.Exact) (leaves : p.Leaves m q) :
    q.Unforced j := by
  intro i row active listed
  obtain ⟨_, before, found, rfl⟩ := leaves.of_row active
  exact ((exact.rows i before found).proper.isFree_shift _).trans
    (unforced i before found (Removal.mem_ordinals_keptIn.1 listed).1)

/-- A row that was left out and isn't free had no coefficients in columns that are still there. -/
theorem Unforced.before (unforced : q.Unforced j) (exact : p.Exact) (leaves : p.Leaves m q)
    (justified : m.Justified p) (kept : m.value? j = none) : p.Unforced j := by
  intro i row active listed
  have proper := (exact.rows i row active).proper
  cases removed : m.rows i with
  | true =>
    rcases justified.rows active removed with free | ⟨substituted, _⟩
    · exact free
    · have value := substituted j listed
      rw [kept] at value
      cases value
  | false =>
    have left := unforced i _ (leaves.row_kept active removed) (Removal.mem_ordinals_keptIn.2 ⟨listed, kept⟩)
    exact (proper.isFree_shift _).symm.trans left

theorem Unforced.of_empty (exact : p.Exact) {column : Column ExtRat} (active : p.columns.get? j = some column)
    (empty : column.entries = []) : p.Unforced j := by
  intro i row found listed
  rw [exact.transposed.mem_ordinals_iff found active, empty] at listed
  cases listed

end Program

/-! ## More and less -/

namespace Removal

theorem Justified.nothing (p : Program ExtRat) : nothing.Justified p :=
  ⟨fun _ removed => absurd removed Bool.false_ne_true, nofun, nofun⟩

theorem rows_and (removed : (m.and n).rows i = true) :
    m.rows i = true ∨ (m.rows i = false ∧ n.rows i = true) := by
  have removed : (m.rows i || n.rows i) = true := removed
  cases first : m.rows i with
  | true => exact .inl rfl
  | false => exact .inr ⟨rfl, by rwa [first, Bool.false_or] at removed⟩

theorem value?_and {a : ℚ} (substituted : (m.and n).value? j = some a) :
    m.value? j = some a ∨ (m.value? j = none ∧ n.value? j = some a) :=
  Option.or_eq_some_iff.1 substituted

theorem isSome_and : ((m.and n).value? k).isSome = ((m.value? k).isSome || (n.value? k).isSome) :=
  Option.isSome_or

theorem value_and_of_substituted {entries : Entries ExtRat}
    (substituted : ∀ k ∈ entries.ordinals, (m.value? k).isSome = true) :
    entries.value (m.and n).point = entries.value m.point :=
  Entries.value_congr fun k listed => by rw [point_and, if_pos (substituted k listed)]

theorem Justified.and (first : m.Justified p) (exact : p.Exact) (leaves : p.Leaves m q)
    (later : n.Justified q) : (m.and n).Justified p := by
  refine ⟨fun {i row} active removed => ?_, fun {j column a} active value => ?_,
    fun {j column a} active value unforced => ?_⟩
  · rcases rows_and removed with before | ⟨kept, after⟩
    · rcases first.rows active before with free | ⟨substituted, contains⟩
      · exact .inl free
      · refine .inr ⟨fun k listed => ?_, by rwa [value_and_of_substituted substituted]⟩
        rw [isSome_and, substituted k listed, Bool.true_or]
    · have proper := (exact.rows i row active).proper
      rcases later.rows (leaves.row_kept active kept) after with free | ⟨substituted, contains⟩
      · exact .inl ((proper.isFree_shift _).symm.trans free)
      · refine .inr ⟨fun k listed => ?_, ?_⟩
        · rw [isSome_and]
          cases value : m.value? k with
          | some a => rfl
          | none => exact substituted k (mem_ordinals_keptIn.2 ⟨listed, value⟩)
        · rw [value_and, add_comm]
          exact proper.contains_shift.1 contains
  · rcases value?_and value with before | ⟨kept, after⟩
    · exact first.contained active before
    · exact (later.contained (leaves.column_kept active kept) after :)
  · rcases value?_and value with before | ⟨kept, after⟩
    · exact first.best active before unforced
    · exact (later.best (leaves.column_kept active kept) after (unforced.after exact leaves) :)

/-- All that one removal leaves out is left out by another one as well. -/
structure Within (m n : Removal) : Prop where
  rows : ∀ i, m.rows i = true → n.rows i = true
  value : ∀ j a, m.value? j = some a → n.value? j = some a

theorem Within.and_eq (within : m.Within n) : m.and n = n := by
  have rows : (fun i => m.rows i || n.rows i) = n.rows := by
    funext i
    cases removed : m.rows i with
    | true => rw [within.rows i removed, Bool.true_or]
    | false => rw [Bool.false_or]
  have value : (fun j => (m.value? j).or (n.value? j)) = n.value? := by
    funext j
    cases substituted : m.value? j with
    | some a => rw [within.value j a substituted, Option.some_or]
    | none => rw [Option.none_or]
  rw [Removal.and, rows, value]

theorem Within.and {o : Removal} (first : m.Within o) (later : n.Within o) : (m.and n).Within o := by
  refine ⟨fun i removed => ?_, fun j a value => ?_⟩
  · rcases rows_and removed with before | ⟨_, after⟩
    · exact first.rows i before
    · exact later.rows i after
  · rcases value?_and value with before | ⟨_, after⟩
    · exact first.value j a before
    · exact later.value j a after

/-- Leaving out some of it justifies the rest. -/
theorem Justified.rest (justified : n.Justified p) (exact : p.Exact) (leaves : p.Leaves m q)
    (first : m.Justified p) (within : m.Within n) : n.Justified q := by
  refine ⟨fun {i row} active removed => ?_, fun {j column a} active value => ?_,
    fun {j column a} active value unforced => ?_⟩
  · obtain ⟨_, before, found, rfl⟩ := leaves.of_row active
    have proper := (exact.rows i before found).proper
    rcases justified.rows found removed with free | ⟨substituted, contains⟩
    · exact .inl ((proper.isFree_shift _).trans free)
    · refine .inr ⟨fun k listed => substituted k (mem_ordinals_keptIn.1 listed).1, ?_⟩
      rw [← within.and_eq, value_and, add_comm] at contains
      exact proper.contains_shift.2 contains
  · obtain ⟨_, before, found, rfl⟩ := leaves.of_column active
    exact (justified.contained found value :)
  · obtain ⟨kept, before, found, rfl⟩ := leaves.of_column active
    exact (justified.best found value (unforced.before exact leaves first kept) :)

end Removal

/-! ## Eliminations -/

theorem Removal.Justified.row {row : Row ExtRat} (active : p.rows.get? i = some row)
    (reason : row.bounds.isFree = true ∨ row.entries = [] ∧ row.bounds.Contains 0) :
    (Removal.row i).Justified p := by
  refine ⟨fun {l other} found removed => ?_, nofun, nofun⟩
  obtain rfl : l = i := eq_of_beq removed
  cases active.symm.trans found
  rcases reason with free | ⟨empty, contains⟩
  · exact .inl free
  · rw [empty]
    exact .inr ⟨nofun, contains⟩

theorem Removal.value?_column {a b : ℚ} (substituted : (Removal.column j a).value? k = some b) :
    k = j ∧ b = a := by
  by_cases same : k = j
  · exact ⟨same, by simpa [Removal.column, same, eq_comm] using substituted⟩
  · simp [Removal.column, same] at substituted

theorem Removal.Justified.column {column : Column ExtRat} {a : ℚ} (active : p.columns.get? j = some column)
    (contains : column.bounds.Contains (.finite a))
    (bounded : Step.isUnboundedDirection column.bounds column.cost 0 = false)
    (best : (Step.bestValue column.bounds column.cost).1 = .finite a) : (Removal.column j a).Justified p := by
  refine ⟨fun _ removed => absurd removed Bool.false_ne_true, fun {k other b} found value => ?_,
    fun {k other b} found value _ => ?_⟩
  all_goals
    obtain ⟨rfl, rfl⟩ := Removal.value?_column value
    cases active.symm.trans found
  · exact contains
  · exact ⟨bounded, best⟩

/-- An equality row with a single coefficient forces the value of its column. -/
theorem Removal.Justified.singletonRow {row : Row ExtRat} {column : Column ExtRat} {b t : ℚ}
    (row_active : p.rows.get? i = some row) (equality : row.bounds = .point (.finite b))
    (single : row.entries = [(j, .finite t)]) (nonzero : t ≠ 0)
    (column_active : p.columns.get? j = some column) (contains : column.bounds.Contains (.finite (b / t))) :
    ((Removal.row i).and (.column j (b / t))).Justified p := by
  have substituted : ((Removal.row i).and (.column j (b / t))).value? j = some (b / t) := if_pos rfl
  refine ⟨fun {l other} found removed => .inr ?_, fun {k other a} found value => ?_,
    fun {k other a} found value unforced => ?_⟩
  · rcases Removal.rows_and removed with same | ⟨_, absent⟩
    · obtain rfl : l = i := eq_of_beq same
      cases row_active.symm.trans found
      rw [single, equality]
      refine ⟨fun k listed => ?_, ?_⟩
      · obtain rfl : k = j := by simpa [Entries.ordinals] using listed
        rw [substituted]
        rfl
      · rw [Entries.value_cons, Entries.value_nil, add_zero, Removal.point_of_some substituted, toRat_finite,
          mul_div_cancel₀ b nonzero]
        exact Bounds.contains_point.2 rfl
    · cases absent
  · obtain ⟨rfl, rfl⟩ := Removal.value?_column value
    cases column_active.symm.trans found
    exact contains
  · obtain ⟨rfl, rfl⟩ := Removal.value?_column value
    have free := unforced i row row_active (by simp [single, Entries.ordinals])
    rw [equality] at free
    cases free

theorem Step.isUnboundedDirection_point (a : ℚ) (cost : ExtRat) :
    isUnboundedDirection (.point (.finite a)) cost 0 = false := by
  have lower : (finite a == Scalar.negInf) = false := rfl
  have upper : (finite a == Scalar.posInf) = false := rfl
  simp only [isUnboundedDirection, Bounds.point, lower, upper, Bool.and_false, Bool.or_false]

theorem Step.bestValue_point (a : ℚ) (cost : ExtRat) :
    (bestValue (.point (.finite a)) cost).1 = .finite a := by
  obtain ⟨b, best, contains⟩ := bestValue_contained (Bounds.proper_point a) cost
  rw [best, Bounds.contains_point.1 contains]

namespace Program

theorem Removes.justified (removes : p.Removes settings r k m) (exact : p.Exact)
    (tolerates : settings.Tolerates 0 0) : m.Justified p := by
  cases removes with
  | dropFreeRow active free => exact .row active (.inl free)
  | @dropEmptyRow _ row active empty within =>
    rw [tolerates.absolute_eq] at within
    exact .row active (.inr ⟨empty, (exact.rows k row active).proper.contains_zero within⟩)
  | @substituteFixed _ column a active fixed =>
    refine .column active ?_ ?_ ?_ <;> rw [fixed]
    · exact Bounds.contains_point.2 rfl
    · exact Step.isUnboundedDirection_point a _
    · exact Step.bestValue_point a _
  | @settleEmpty _ column a active empty bounded best =>
    rw [tolerates.absolute_eq] at bounded
    obtain ⟨b, chosen, contains⟩ :=
      Step.bestValue_contained (exact.columns k column active).proper column.cost
    cases chosen.symm.trans best
    exact .column active contains bounded best
  | @settleSingleton _ j row column b t row_active equality single nonzero column_active admitted =>
    have contains := Step.contains_of_admits tolerates (exact.columns j column column_active).proper admitted
    exact .singletonRow row_active equality single nonzero column_active contains

end Program

end

end LinearReduction
