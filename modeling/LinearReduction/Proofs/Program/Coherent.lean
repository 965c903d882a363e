import LinearReduction.Program.Matrix
import LinearReduction.Proofs.Program.Entries
import LinearReduction.Proofs.Scalar.Lawful

/-!
# The test of coherence

Main statement: a program passes the test exactly if it is coherent.
-/

namespace LinearReduction

namespace Program

variable {α : Type} [Scalar α] [LawfulScalar α] {p : Program α} {entries : Entries α} {k : Nat} {value : α}

omit [LawfulScalar α] in
theorem listedOnce_iff : listedOnce entries k value = true ↔
    entries.countP (fun entry => entry.1 == k && entry.2 == value) = 1 := by
  rw [listedOnce, beq_iff_eq]

omit [LawfulScalar α] in
theorem listedOnce_of_mem (distinct : entries.ordinals.Nodup) (listed : (k, value) ∈ entries)
    (defined : (value == value) = true) : listedOnce entries k value = true := by
  rw [listedOnce_iff]
  induction entries with
  | nil => cases listed
  | cons first rest inductionHypothesis =>
    obtain ⟨absent, distinct⟩ := List.nodup_cons.1 distinct
    rw [List.countP_cons]
    -- The value counts once where it is listed, and no other entry has the ordinal.
    rcases List.mem_cons.1 listed with rfl | later
    · have none_later : rest.countP (fun entry => entry.1 == k && entry.2 == value) = 0 := by
        rw [List.countP_eq_zero]
        intro entry later counted
        obtain rfl : entry.1 = k := by simp_all
        exact absent (Entries.mem_ordinals_of_mem later)
      rw [none_later]
      simp [defined]
    · have apart : first.1 ≠ k := by
        rintro rfl
        exact absent (Entries.mem_ordinals_of_mem later)
      rw [inductionHypothesis distinct later]
      simp [apart]

theorem mem_of_listedOnce (once : listedOnce entries k value = true) (nonzero : (value != 0) = true) :
    (k, value) ∈ entries ∧ (value == value) = true := by
  rw [listedOnce_iff] at once
  obtain ⟨⟨l, other⟩, listed, counted⟩ := List.countP_pos_iff.1 (Nat.lt_of_lt_of_eq Nat.one_pos once.symm)
  simp only [Bool.and_eq_true, beq_iff_eq] at counted
  obtain ⟨rfl, equal⟩ := counted
  -- Equal values are the same value here, as only zeros are told apart.
  obtain rfl := LawfulScalar.eq_of_beq equal nonzero
  exact ⟨listed, equal⟩

omit [LawfulScalar α] in
theorem nodup_of_listed_at_most_once
    (unique : ∀ k value other, (k, value) ∈ entries → (k, other) ∈ entries → value = other)
    (once : ∀ k value, (k, value) ∈ entries → (value == value) = true ∧
      entries.countP (fun entry => entry.1 == k && entry.2 == value) ≤ 1) :
    entries.ordinals.Nodup := by
  induction entries with
  | nil => exact List.nodup_nil
  | cons first rest inductionHypothesis =>
    obtain ⟨i, coefficient⟩ := first
    refine List.nodup_cons.2 ⟨fun repeated => ?_, inductionHypothesis ?_ ?_⟩
    · obtain ⟨other, later⟩ := Entries.mem_ordinals.1 repeated
      obtain rfl := unique i coefficient other (by simp) (List.mem_cons_of_mem _ later)
      obtain ⟨defined, most⟩ := once i coefficient (by simp)
      -- An ordinal that comes again has the same value, which would then be counted twice.
      have again : 0 < rest.countP (fun entry => entry.1 == i && entry.2 == coefficient) :=
        List.countP_pos_iff.2 ⟨_, later, by simp [defined]⟩
      rw [List.countP_cons] at most
      simp only [BEq.rfl, defined, Bool.and_self, if_true] at most
      omega
    · exact fun k value other listed also =>
        unique k value other (List.mem_cons_of_mem _ listed) (List.mem_cons_of_mem _ also)
    · intro k value later
      obtain ⟨defined, most⟩ := once k value (List.mem_cons_of_mem _ later)
      rw [List.countP_cons] at most
      exact ⟨defined, by omega⟩

/-! ## Coherent programs -/

theorem Transposed.of_mirrored
    (rows : ∀ i row, p.rows.get? i = some row → ∀ j value, (j, value) ∈ row.entries →
      (value != 0) = true ∧ ∃ column, p.columns.get? j = some column ∧
      listedOnce column.entries i value = true)
    (columns : ∀ j column, p.columns.get? j = some column → ∀ i value, (i, value) ∈ column.entries →
      (value != 0) = true ∧ ∃ row, p.rows.get? i = some row ∧ listedOnce row.entries j value = true)
    (distinct : ∀ j column, p.columns.get? j = some column → column.entries.ordinals.Nodup) :
    p.Transposed := by
  refine ⟨fun i j value => ⟨?_, ?_⟩, fun i row active => ?_, distinct⟩
  · rintro ⟨row, active, listed⟩
    obtain ⟨nonzero, column, found, once⟩ := rows i row active j value listed
    exact ⟨column, found, (mem_of_listedOnce once nonzero).1⟩
  · rintro ⟨column, active, listed⟩
    obtain ⟨nonzero, row, found, once⟩ := columns j column active i value listed
    exact ⟨row, found, (mem_of_listedOnce once nonzero).1⟩
  -- Only the columns are tested for repeated ordinals. Rows mirror them, each value once, and so have none.
  · apply nodup_of_listed_at_most_once
    · intro j value other listed also
      obtain ⟨nonzero, column, found, once⟩ := rows i row active j value listed
      obtain ⟨nonzero', column', found', once'⟩ := rows i row active j other also
      obtain rfl := Option.some.inj (found.symm.trans found')
      exact Entries.value_unique (distinct j column found) (mem_of_listedOnce once nonzero).1
        (mem_of_listedOnce once' nonzero').1
    · intro j value listed
      obtain ⟨nonzero, column, found, once⟩ := rows i row active j value listed
      obtain ⟨also, defined⟩ := mem_of_listedOnce once nonzero
      obtain ⟨_, row', active', once'⟩ := columns j column found i value also
      obtain rfl := Option.some.inj (active.symm.trans active')
      exact ⟨defined, Nat.le_of_eq (listedOnce_iff.1 once')⟩

omit [Scalar α] [LawfulScalar α] in
theorem countsAgree_iff : p.countsAgree = true ↔ p.Counted := by
  simp only [countsAgree, Bool.and_eq_true, beq_iff_eq]
  exact ⟨fun ⟨rows, columns⟩ => ⟨rows, columns⟩, fun counted => ⟨counted.rows, counted.columns⟩⟩

omit [LawfulScalar α] in
theorem boundsProper_iff : p.boundsProper = true ↔ p.Bounded := by
  simp only [boundsProper, Bool.and_eq_true, List.all_eq_true, Prod.forall, Slots.mem_active]
  exact ⟨fun ⟨rows, columns⟩ => ⟨rows, columns⟩, fun bounded => ⟨bounded.rows, bounded.columns⟩⟩

omit [LawfulScalar α] in
theorem rowsMirrored_iff : p.rowsMirrored = true ↔
    ∀ i row, p.rows.get? i = some row → ∀ j value, (j, value) ∈ row.entries → (value != 0) = true ∧
      ∃ column, p.columns.get? j = some column ∧ listedOnce column.entries i value = true := by
  simp only [rowsMirrored, List.all_eq_true, Prod.forall, Slots.mem_active, Bool.and_eq_true,
    Option.any_eq_true]

omit [LawfulScalar α] in
theorem columnsMirrored_iff : p.columnsMirrored = true ↔
    ∀ j column, p.columns.get? j = some column → ∀ i value, (i, value) ∈ column.entries →
    (value != 0) = true ∧
      ∃ row, p.rows.get? i = some row ∧ listedOnce row.entries j value = true := by
  simp only [columnsMirrored, List.all_eq_true, Prod.forall, Slots.mem_active, Bool.and_eq_true,
    Option.any_eq_true]

omit [Scalar α] [LawfulScalar α] in
theorem columnsDistinct_iff : p.columnsDistinct = true ↔
    ∀ j column, p.columns.get? j = some column → column.entries.ordinals.Nodup := by
  simp only [columnsDistinct, List.all_eq_true, Prod.forall, Slots.mem_active, decide_eq_true_eq]

theorem isCoherent_iff : p.isCoherent = true ↔ p.Coherent := by
  simp only [isCoherent, Bool.and_eq_true, countsAgree_iff, boundsProper_iff, rowsMirrored_iff,
    columnsMirrored_iff, columnsDistinct_iff]
  constructor
  · rintro ⟨⟨⟨⟨counted, bounded⟩, rows⟩, columns⟩, distinct⟩
    -- A coefficient is equal to itself because its column was found to list it once.
    refine ⟨counted, bounded, ?_, .of_mirrored rows columns distinct⟩
    rintro i j value ⟨row, active, listed⟩
    obtain ⟨nonzero, column, found, once⟩ := rows i row active j value listed
    exact ⟨nonzero, (mem_of_listedOnce once nonzero).2⟩
  · intro coherent
    have same := coherent.transposed
    refine ⟨⟨⟨⟨coherent.counted, coherent.bounded⟩, ?_⟩, ?_⟩, same.columns_nodup⟩
    · intro i row active j value listed
      obtain ⟨nonzero, defined⟩ := coherent.nonzero i j value ⟨row, active, listed⟩
      obtain ⟨column, found, also⟩ := (same.agree i j value).1 ⟨row, active, listed⟩
      exact ⟨nonzero, column, found, listedOnce_of_mem (same.columns_nodup j column found) also defined⟩
    · intro j column active i value listed
      obtain ⟨row, found, also⟩ := (same.agree i j value).2 ⟨column, active, listed⟩
      obtain ⟨nonzero, defined⟩ := coherent.nonzero i j value ⟨row, found, also⟩
      exact ⟨nonzero, row, found, listedOnce_of_mem (same.rows_nodup i row found) also defined⟩

end Program

end LinearReduction
