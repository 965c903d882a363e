import LinearReduction.Proofs.Program.Coherent
import LinearReduction.Proofs.Program.Transposed

/-!
# What the test of coherence decides

All that is asked of a program, one requirement after the other. Rows are never searched for repeated
ordinals, yet a row that has some doesn't pass: each of its coefficients would have to be listed in a column
that lists no row twice. Main statement: a program passes the test exactly if it meets every requirement,
whatever is stored in it.
-/

namespace LinearReduction

theorem Slots.length_active {β : Type} (s : Slots β) : s.active.length = s.cells.countP Option.isSome := by
  have cells : s.cells.toList.zipIdx.map (·.1) = s.cells.toList := List.zipIdx_map_fst 0 s.cells.toList
  rw [active, List.length_filterMap_eq_countP, ← Array.countP_toList,
    ← congrArg (List.countP Option.isSome) cells, List.countP_map]
  congr 1
  funext entry
  obtain ⟨cell, i⟩ := entry
  exact Option.isSome_map

variable {α : Type} [Scalar α]

/-- Bounds that leave at least one finite value, at a finite distance if both are finite. -/
structure Bounds.Valid (b : Bounds α) : Prop where
  ordered : b.lower ≤ b.upper
  lower_bne : (b.lower != Scalar.posInf) = true
  upper_bne : (b.upper != Scalar.negInf) = true
  range_finite : Scalar.isFinite b.lower = true → Scalar.isFinite b.upper = true →
    Scalar.isFinite (b.upper - b.lower) = true

theorem Bounds.hasFiniteRange_iff {b : Bounds α} : b.hasFiniteRange = true ↔
    (Scalar.isFinite b.lower = true → Scalar.isFinite b.upper = true →
      Scalar.isFinite (b.upper - b.lower) = true) := by
  rw [hasFiniteRange]
  cases Scalar.isFinite b.lower <;> cases Scalar.isFinite b.upper <;> simp

theorem Bounds.isProper_iff_valid {b : Bounds α} : b.isProper = true ↔ b.Valid := by
  simp only [isProper, Bool.and_eq_true, decide_eq_true_eq, hasFiniteRange_iff]
  constructor
  · rintro ⟨⟨⟨ordered, lower⟩, upper⟩, range⟩
    exact ⟨ordered, lower, upper, range⟩
  · rintro ⟨ordered, lower, upper, range⟩
    exact ⟨⟨⟨ordered, lower⟩, upper⟩, range⟩

namespace Program

/-- What is asked of a program. A value is undefined if it isn't equal to itself. -/
structure WellFormed (p : Program α) : Prop where
  row_count : p.rows.occupied = p.rows.cells.countP Option.isSome
  column_count : p.columns.occupied = p.columns.cells.countP Option.isSome
  row_bounds : ∀ i row, p.rows.get? i = some row → row.bounds.Valid
  column_bounds : ∀ j column, p.columns.get? j = some column → column.bounds.Valid
  row_values : ∀ i row, p.rows.get? i = some row → ∀ entry ∈ row.entries,
    (entry.2 != 0) = true ∧ (entry.2 == entry.2) = true
  column_values : ∀ j column, p.columns.get? j = some column → ∀ entry ∈ column.entries,
    (entry.2 != 0) = true ∧ (entry.2 == entry.2) = true
  row_ordinals : ∀ i row, p.rows.get? i = some row → ∀ j ∈ row.entries.ordinals, p.columns.isActive j = true
  column_ordinals : ∀ j column, p.columns.get? j = some column → ∀ i ∈ column.entries.ordinals,
    p.rows.isActive i = true
  row_nodup : ∀ i row, p.rows.get? i = some row → row.entries.ordinals.Nodup
  column_nodup : ∀ j column, p.columns.get? j = some column → column.entries.ordinals.Nodup
  mirrored : ∀ i row j column, p.rows.get? i = some row → p.columns.get? j = some column →
    ∀ value, (j, value) ∈ row.entries ↔ (i, value) ∈ column.entries

variable {p : Program α}

theorem WellFormed.transposed (wellFormed : p.WellFormed) : p.Transposed := by
  refine ⟨fun i j value => ⟨?_, ?_⟩, wellFormed.row_nodup, wellFormed.column_nodup⟩
  · rintro ⟨row, active, listed⟩
    obtain ⟨column, found⟩ := Slots.isActive_iff.1
      (wellFormed.row_ordinals i row active j (Entries.mem_ordinals_of_mem listed))
    exact ⟨column, found, (wellFormed.mirrored i row j column active found value).1 listed⟩
  · rintro ⟨column, active, listed⟩
    obtain ⟨row, found⟩ := Slots.isActive_iff.1
      (wellFormed.column_ordinals j column active i (Entries.mem_ordinals_of_mem listed))
    exact ⟨row, found, (wellFormed.mirrored i row j column found active value).2 listed⟩

theorem WellFormed.coherent (wellFormed : p.WellFormed) : p.Coherent where
  counted := by
    refine ⟨?_, ?_⟩
    · rw [Slots.length_active, wellFormed.row_count]
    · rw [Slots.length_active, wellFormed.column_count]
  bounded := ⟨fun i row active => Bounds.isProper_iff_valid.2 (wellFormed.row_bounds i row active),
    fun j column active => Bounds.isProper_iff_valid.2 (wellFormed.column_bounds j column active)⟩
  nonzero := by
    rintro i j value ⟨row, active, listed⟩
    exact wellFormed.row_values i row active (j, value) listed
  transposed := wellFormed.transposed

theorem Coherent.wellFormed (coherent : p.Coherent) : p.WellFormed where
  row_count := by rw [← Slots.length_active, coherent.counted.rows]
  column_count := by rw [← Slots.length_active, coherent.counted.columns]
  row_bounds i row active := Bounds.isProper_iff_valid.1 (coherent.bounded.rows i row active)
  column_bounds j column active := Bounds.isProper_iff_valid.1 (coherent.bounded.columns j column active)
  row_values i row active entry listed := coherent.nonzero i entry.1 entry.2 ⟨row, active, listed⟩
  -- A coefficient of a column is one of a row as well, and only those of rows are told to be proper.
  column_values j column active entry listed := coherent.nonzero entry.1 j entry.2
    ((coherent.transposed.agree entry.1 j entry.2).2 ⟨column, active, listed⟩)
  row_ordinals _ _ active _ listed := coherent.transposed.column_isActive active listed
  column_ordinals _ _ active _ listed := coherent.transposed.row_isActive active listed
  row_nodup := coherent.transposed.rows_nodup
  column_nodup := coherent.transposed.columns_nodup
  mirrored _ _ _ _ row_active column_active _ := coherent.transposed.mem_iff row_active column_active

/-- The test tells the programs that meet every requirement from all others. -/
theorem isCoherent_iff_wellFormed [LawfulScalar α] (p : Program α) : p.isCoherent = true ↔ p.WellFormed :=
  isCoherent_iff.trans ⟨fun coherent => coherent.wellFormed, fun wellFormed => wellFormed.coherent⟩

/-- A single row and a single column, each with coefficients of its own. -/
def crossed (row column : Entries Float) : Program Float :=
  ⟨.minimize, 0, ⟨#[none, some ⟨⟨0, 1⟩, row⟩], 1⟩, ⟨#[some ⟨.nonnegative, .integer, 1, column⟩], 1⟩⟩

/-- An undefined coefficient is found out in either view, and so is one that is only given twice in the
    row. -/
theorem crossed_wellFormed : (crossed [(0, 2.5)] [(1, 2.5)]).WellFormed ∧
    ¬ (crossed [(0, 0 / 0)] [(1, 0 / 0)]).WellFormed ∧
    ¬ (crossed [(0, 2.5), (0, -2.5)] [(1, 2.5)]).WellFormed := by
  refine ⟨(isCoherent_iff_wellFormed _).1 (by decide +kernel), fun undefined => ?_, fun repeated => ?_⟩
  · have passed := (isCoherent_iff_wellFormed _).2 undefined
    exact absurd passed (by decide +kernel)
  · have passed := (isCoherent_iff_wellFormed _).2 repeated
    exact absurd passed (by decide +kernel)

end Program

end LinearReduction
