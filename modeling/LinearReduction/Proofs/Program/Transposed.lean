import LinearReduction.Program.Matrix
import LinearReduction.Proofs.Program.Rewritten

/-!
# Two views of one matrix

The coefficients are kept by row and by column, and every change is made in both places. Main statements:
each rewritten program keeps the two views in agreement.
-/

namespace LinearReduction

namespace Program

variable {α : Type} {p q : Program α} {i j : Nat}

namespace Transposed

theorem column_of_mem (same : p.Transposed) {row : Row α} (active : p.rows.get? i = some row) {value : α}
    (listed : (j, value) ∈ row.entries) :
    ∃ column, p.columns.get? j = some column ∧ (i, value) ∈ column.entries :=
  (same.agree i j value).1 ⟨row, active, listed⟩

theorem row_of_mem (same : p.Transposed) {column : Column α} (active : p.columns.get? j = some column)
    {value : α} (listed : (i, value) ∈ column.entries) :
    ∃ row, p.rows.get? i = some row ∧ (j, value) ∈ row.entries :=
  (same.agree i j value).2 ⟨column, active, listed⟩

theorem mem_iff (same : p.Transposed) {row : Row α} {column : Column α}
    (row_active : p.rows.get? i = some row) (column_active : p.columns.get? j = some column) {value : α} :
    (j, value) ∈ row.entries ↔ (i, value) ∈ column.entries := by
  constructor
  · intro listed
    obtain ⟨other, active, listed⟩ := same.column_of_mem row_active listed
    rw [column_active] at active
    exact Option.some.inj active ▸ listed
  · intro listed
    obtain ⟨other, active, listed⟩ := same.row_of_mem column_active listed
    rw [row_active] at active
    exact Option.some.inj active ▸ listed

theorem mem_ordinals_iff (same : p.Transposed) {row : Row α} {column : Column α}
    (row_active : p.rows.get? i = some row) (column_active : p.columns.get? j = some column) :
    j ∈ row.entries.ordinals ↔ i ∈ column.entries.ordinals := by
  simp only [Entries.mem_ordinals, same.mem_iff row_active column_active]

/-- Both views give the same coefficient for a row and a column, or none. -/
theorem lookup_eq (same : p.Transposed) {row : Row α} {column : Column α}
    (row_active : p.rows.get? i = some row) (column_active : p.columns.get? j = some column) :
    row.entries.lookup j = column.entries.lookup i := by
  apply Option.ext
  intro value
  rw [Entries.lookup_eq_some_iff (same.rows_nodup i row row_active),
    Entries.lookup_eq_some_iff (same.columns_nodup j column column_active)]
  exact same.mem_iff row_active column_active

theorem column_active (same : p.Transposed) {row : Row α} (active : p.rows.get? i = some row)
    (listed : j ∈ row.entries.ordinals) : ∃ column, p.columns.get? j = some column := by
  obtain ⟨value, listed⟩ := Entries.mem_ordinals.1 listed
  obtain ⟨column, found, _⟩ := same.column_of_mem active listed
  exact ⟨column, found⟩

theorem row_active (same : p.Transposed) {column : Column α} (active : p.columns.get? j = some column)
    (listed : i ∈ column.entries.ordinals) : ∃ row, p.rows.get? i = some row := by
  obtain ⟨value, listed⟩ := Entries.mem_ordinals.1 listed
  obtain ⟨row, found, _⟩ := same.row_of_mem active listed
  exact ⟨row, found⟩

theorem size_not_mem (same : p.Transposed) {column : Column α} (active : p.columns.get? j = some column) :
    p.rows.size ∉ column.entries.ordinals := by
  intro listed
  obtain ⟨row, found⟩ := same.row_active active listed
  exact Slots.ne_size found rfl

theorem columns_size_not_mem (same : p.Transposed) {row : Row α} (active : p.rows.get? i = some row) :
    p.columns.size ∉ row.entries.ordinals := by
  intro listed
  obtain ⟨column, found⟩ := same.column_active active listed
  exact Slots.ne_size found rfl

theorem column_isActive (same : p.Transposed) {row : Row α} (active : p.rows.get? i = some row)
    (listed : j ∈ row.entries.ordinals) : p.columns.isActive j = true :=
  Slots.isActive_iff.2 (same.column_active active listed)

theorem row_isActive (same : p.Transposed) {column : Column α} (active : p.columns.get? j = some column)
    (listed : i ∈ column.entries.ordinals) : p.rows.isActive i = true :=
  Slots.isActive_iff.2 (same.row_active active listed)

theorem of_entries_eq (same : p.Transposed)
    (rows : ∀ l, (q.rows.get? l).map (·.entries) = (p.rows.get? l).map (·.entries))
    (columns : ∀ k, (q.columns.get? k).map (·.entries) = (p.columns.get? k).map (·.entries)) :
    q.Transposed := by
  have rows_back : ∀ l row, q.rows.get? l = some row →
      ∃ other, p.rows.get? l = some other ∧ other.entries = row.entries := by
    intro l row active
    have unchanged := rows l
    rw [active, Option.map_some] at unchanged
    exact Option.map_eq_some_iff.1 unchanged.symm
  have columns_back : ∀ k column, q.columns.get? k = some column →
      ∃ other, p.columns.get? k = some other ∧ other.entries = column.entries := by
    intro k column active
    have unchanged := columns k
    rw [active, Option.map_some] at unchanged
    exact Option.map_eq_some_iff.1 unchanged.symm
  refine ⟨fun l k value => ?_, fun l row active => ?_, fun k column active => ?_⟩
  · have row_lists : q.RowLists l k value ↔ p.RowLists l k value := by
      simp only [RowLists]
      have unchanged := rows l
      cases before : p.rows.get? l <;> cases after : q.rows.get? l <;> simp_all
    have column_lists : q.ColumnLists l k value ↔ p.ColumnLists l k value := by
      simp only [ColumnLists]
      have unchanged := columns k
      cases before : p.columns.get? k <;> cases after : q.columns.get? k <;> simp_all
    rw [row_lists, column_lists, same.agree]
  · obtain ⟨other, before, entries⟩ := rows_back l row active
    exact entries ▸ same.rows_nodup l other before
  · obtain ⟨other, before, entries⟩ := columns_back k column active
    exact entries ▸ same.columns_nodup k other before

/-- Where no coefficients are listed, both views are the same matrix. -/
theorem of_entries_nil (rows : ∀ i row, p.rows.get? i = some row → row.entries = [])
    (columns : ∀ j column, p.columns.get? j = some column → column.entries = []) : p.Transposed := by
  refine ⟨fun i j value => ⟨?_, ?_⟩, fun i row active => ?_, fun j column active => ?_⟩
  · rintro ⟨row, active, listed⟩
    rw [rows i row active] at listed
    cases listed
  · rintro ⟨column, active, listed⟩
    rw [columns j column active] at listed
    cases listed
  · rw [rows i row active]
    exact List.nodup_nil
  · rw [columns j column active]
    exact List.nodup_nil

/-! ## Leaving out rows and columns -/

theorem withoutRow (same : p.Transposed) (i : Nat) : (p.withoutRow i).Transposed := by
  -- A coefficient is kept if its row is, and the columns tell it by the ordinal that they leave out.
  refine ⟨fun l k value => ?_, fun l row active => ?_, fun k column active => ?_⟩
  · simp only [RowLists, ColumnLists, rows_withoutRow, columns_withoutRow, Option.map_eq_some_iff]
    constructor
    · rintro ⟨row, active, listed⟩
      by_cases gone : i = l
      · simp [gone] at active
      · rw [if_neg gone] at active
        obtain ⟨column, found, mirrored⟩ := same.column_of_mem active listed
        refine ⟨_, ⟨column, found, rfl⟩, ?_⟩
        exact (Entries.mem_erase (same.columns_nodup k column found)).2 ⟨Ne.symm gone, mirrored⟩
    · rintro ⟨_, ⟨column, active, rfl⟩, listed⟩
      obtain ⟨kept, listed⟩ := (Entries.mem_erase (same.columns_nodup k column active)).1 listed
      obtain ⟨row, found, mirrored⟩ := same.row_of_mem active listed
      exact ⟨row, by rw [if_neg (Ne.symm kept), found], mirrored⟩
  · rw [rows_withoutRow] at active
    by_cases gone : i = l
    · simp [gone] at active
    · rw [if_neg gone] at active
      exact same.rows_nodup l row active
  · rw [columns_withoutRow, Option.map_eq_some_iff] at active
    obtain ⟨other, active, rfl⟩ := active
    exact Entries.nodup_erase (same.columns_nodup k other active) i

theorem withoutColumn (same : p.Transposed) (j : Nat) : (p.withoutColumn j).Transposed := by
  refine ⟨fun l k value => ?_, fun l row active => ?_, fun k column active => ?_⟩
  · simp only [RowLists, ColumnLists, rows_withoutColumn, columns_withoutColumn, Option.map_eq_some_iff]
    constructor
    · rintro ⟨_, ⟨row, active, rfl⟩, listed⟩
      obtain ⟨kept, listed⟩ := (Entries.mem_erase (same.rows_nodup l row active)).1 listed
      obtain ⟨column, found, mirrored⟩ := same.column_of_mem active listed
      exact ⟨column, by rw [if_neg (Ne.symm kept), found], mirrored⟩
    · rintro ⟨column, active, listed⟩
      by_cases gone : j = k
      · simp [gone] at active
      · rw [if_neg gone] at active
        obtain ⟨row, found, mirrored⟩ := same.row_of_mem active listed
        refine ⟨_, ⟨row, found, rfl⟩, ?_⟩
        exact (Entries.mem_erase (same.rows_nodup l row found)).2 ⟨Ne.symm gone, mirrored⟩
  · rw [rows_withoutColumn, Option.map_eq_some_iff] at active
    obtain ⟨other, active, rfl⟩ := active
    exact Entries.nodup_erase (same.rows_nodup l other active) j
  · rw [columns_withoutColumn] at active
    by_cases gone : j = k
    · simp [gone] at active
    · rw [if_neg gone] at active
      exact same.columns_nodup k column active

/-! ## Negating a column -/

theorem negatedColumn [Neg α] (same : p.Transposed) (j : Nat) : (p.negatedColumn j).Transposed := by
  refine ⟨fun l k value => ?_, fun l row active => ?_, fun k column active => ?_⟩
  · simp only [RowLists, ColumnLists, rows_negatedColumn, columns_negatedColumn, Option.map_eq_some_iff]
    constructor
    · rintro ⟨_, ⟨row, active, rfl⟩, listed⟩
      obtain ⟨other, kept, rfl⟩ := Entries.mem_negateAt.1 listed
      obtain ⟨column, found, mirrored⟩ := same.column_of_mem active kept
      -- A row negates at the ordinal of the column, and the column negates all that it has.
      by_cases negated : j = k
      · subst negated
        rw [if_pos rfl, if_pos rfl]
        exact ⟨_, by rw [found, Option.map_some], Entries.mem_negate.2 ⟨other, mirrored, rfl⟩⟩
      · rw [if_neg negated, if_neg (Ne.symm negated)]
        exact ⟨column, found, mirrored⟩
    · rintro ⟨column, active, listed⟩
      by_cases negated : j = k
      · subst negated
        rw [if_pos rfl, Option.map_eq_some_iff] at active
        obtain ⟨before, active, rfl⟩ := active
        obtain ⟨other, kept, rfl⟩ := Entries.mem_negate.1 listed
        obtain ⟨row, found, mirrored⟩ := same.row_of_mem active kept
        exact ⟨_, ⟨row, found, rfl⟩, Entries.mem_negateAt.2 ⟨other, mirrored, by simp⟩⟩
      · rw [if_neg negated] at active
        obtain ⟨row, found, mirrored⟩ := same.row_of_mem active listed
        exact ⟨_, ⟨row, found, rfl⟩, Entries.mem_negateAt.2 ⟨value, mirrored, by simp [Ne.symm negated]⟩⟩
  · rw [rows_negatedColumn, Option.map_eq_some_iff] at active
    obtain ⟨other, active, rfl⟩ := active
    simpa using same.rows_nodup l other active
  · rw [columns_negatedColumn] at active
    by_cases negated : j = k
    · rw [if_pos negated, Option.map_eq_some_iff] at active
      obtain ⟨other, active, rfl⟩ := active
      simpa using same.columns_nodup k other active
    · rw [if_neg negated] at active
      exact same.columns_nodup k column active

/-! ## Adding rows, columns and coefficients -/

theorem pushRow (same : p.Transposed) (bounds : Bounds α) : (p.pushRow bounds).Transposed := by
  have row_lists : ∀ l k value, (p.pushRow bounds).RowLists l k value ↔ p.RowLists l k value := by
    intro l k value
    simp only [RowLists, rows_pushRow]
    by_cases last : l = p.rows.size
    · subst last
      simp [Slots.get?_of_size_le]
    · rw [if_neg last]
  refine ⟨fun l k value => ?_, fun l row active => ?_, same.columns_nodup⟩
  · rw [row_lists, same.agree]
    rfl
  · rw [rows_pushRow] at active
    by_cases last : l = p.rows.size
    · rw [if_pos last] at active
      exact Option.some.inj active ▸ List.nodup_nil
    · rw [if_neg last] at active
      exact same.rows_nodup l row active

theorem pushColumn (same : p.Transposed) (bounds : Bounds α) (domain : Domain) (cost : α) :
    (p.pushColumn bounds domain cost).Transposed := by
  have column_lists : ∀ l k value,
      (p.pushColumn bounds domain cost).ColumnLists l k value ↔ p.ColumnLists l k value := by
    intro l k value
    simp only [ColumnLists, columns_pushColumn]
    by_cases last : k = p.columns.size
    · subst last
      simp [Slots.get?_of_size_le]
    · rw [if_neg last]
  refine ⟨fun l k value => ?_, same.rows_nodup, fun k column active => ?_⟩
  · rw [column_lists, ← same.agree]
    rfl
  · rw [columns_pushColumn] at active
    by_cases last : k = p.columns.size
    · rw [if_pos last] at active
      exact Option.some.inj active ▸ List.nodup_nil
    · rw [if_neg last] at active
      exact same.columns_nodup k column active

theorem link (same : p.Transposed) {row : Row α} {column : Column α} (row_active : p.rows.get? i = some row)
    (column_active : p.columns.get? j = some column) (fresh : i ∉ column.entries.ordinals) (value : α) :
    (p.link i j value).Transposed := by
  have row_fresh : j ∉ row.entries.ordinals := by
    rwa [same.mem_ordinals_iff row_active column_active]
  have row_lists : ∀ l k other, (p.link i j value).RowLists l k other ↔
      p.RowLists l k other ∨ l = i ∧ k = j ∧ other = value := by
    intro l k other
    simp only [RowLists, rows_link]
    by_cases linked : i = l
    · subst linked
      simp [row_active]
    · simp [linked, Ne.symm linked]
  have column_lists : ∀ l k other, (p.link i j value).ColumnLists l k other ↔
      p.ColumnLists l k other ∨ l = i ∧ k = j ∧ other = value := by
    intro l k other
    simp only [ColumnLists, columns_link]
    by_cases linked : j = k
    · subst linked
      simp [column_active]
    · simp [linked, Ne.symm linked]
  -- In each view the new coefficient is listed next to all earlier ones.
  refine ⟨fun l k other => ?_, fun l other active => ?_, fun k other active => ?_⟩
  · rw [row_lists, column_lists, same.agree]
  · rw [rows_link] at active
    by_cases linked : i = l
    · subst linked
      rw [if_pos rfl, row_active, Option.map_some, Option.some.injEq] at active
      subst active
      exact Entries.nodup_append_singleton (same.rows_nodup i row row_active) row_fresh
    · rw [if_neg linked] at active
      exact same.rows_nodup l other active
  · rw [columns_link] at active
    by_cases linked : j = k
    · subst linked
      rw [if_pos rfl, column_active, Option.map_some, Option.some.injEq] at active
      subst active
      exact Entries.nodup_append_singleton (same.columns_nodup j column column_active) fresh
    · rw [if_neg linked] at active
      exact same.columns_nodup k other active

theorem linkAll (same : p.Transposed) {column : Column α} {entries : Entries α}
    (column_active : p.columns.get? j = some column)
    (distinct : (column.entries.ordinals ++ entries.ordinals).Nodup)
    (rows_active : ∀ i ∈ entries.ordinals, ∃ row, p.rows.get? i = some row) :
    (p.linkAll j entries).Transposed := by
  induction entries generalizing p column with
  | nil => exact same
  | cons first rest inductionHypothesis =>
    obtain ⟨i, value⟩ := first
    obtain ⟨row, row_active⟩ := rows_active i (by simp [Entries.ordinals])
    have fresh : i ∉ column.entries.ordinals := by
      intro listed
      exact (List.nodup_append.1 distinct).2.2 i listed i (by simp [Entries.ordinals]) rfl
    -- The rest is added to a column that lists the first row by now, and no later one.
    refine inductionHypothesis (same.link row_active column_active fresh value)
      (columns_link_self column_active value) ?_ ?_
    · simpa [Entries.ordinals] using distinct
    · intro l listed
      obtain ⟨other, active⟩ := rows_active l (List.mem_cons_of_mem _ listed)
      rw [rows_link]
      by_cases linked : i = l
      · rw [if_pos linked, active]
        exact ⟨_, rfl⟩
      · rw [if_neg linked]
        exact ⟨other, active⟩

theorem asMinimization [Neg α] (same : p.Transposed) : p.asMinimization.Transposed := by
  unfold Program.asMinimization
  split
  · exact same
  -- Only the costs differ, which have no part in the matrix.
  · refine same.of_entries_eq (fun l => rfl) fun k => ?_
    change ((p.columns.map _).get? k).map _ = _
    rw [Slots.get?_map, Option.map_map]
    rfl

/-! ## Reduced programs -/

theorem boundedRow (same : p.Transposed) (i : Nat) (bounds : Bounds α) :
    (p.boundedRow i bounds).Transposed := by
  refine same.of_entries_eq (fun l => ?_) (fun k => rfl)
  rw [rows_boundedRow]
  by_cases changed : i = l <;> simp [changed, Function.comp_def]

theorem boundedColumn (same : p.Transposed) (j : Nat) (bounds : Bounds α) :
    (p.boundedColumn j bounds).Transposed := by
  refine same.of_entries_eq (fun l => rfl) (fun k => ?_)
  rw [columns_boundedColumn]
  by_cases changed : j = k <;> simp [changed, Function.comp_def]

theorem pricedColumn (same : p.Transposed) (j : Nat) (cost : α) : (p.pricedColumn j cost).Transposed := by
  refine same.of_entries_eq (fun l => rfl) (fun k => ?_)
  rw [columns_pricedColumn]
  by_cases changed : j = k <;> simp [changed, Function.comp_def]

section

variable [Scalar α]

theorem absorbed (same : p.Transposed) {entries : Entries α} (distinct : entries.ordinals.Nodup)
    (cost value : α) : (p.absorbed entries cost value).Transposed := by
  refine same.of_entries_eq (fun l => ?_) (fun k => ?_)
  · change ((p.offset entries value).rows.get? l).map _ = _
    rw [rows_offset p distinct]
    simp [Function.comp_def]
  · change ((p.offset entries value).columns.get? k).map _ = _
    rw [columns_offset]

theorem withRange (same : p.Transposed) {row : Row α} (active : p.rows.get? i = some row) (range : Bounds α)
    (coefficient bound : α) : (p.withRange i range coefficient bound).Transposed := by
  have linked := (same.pushColumn range .continuous 0).link active (p.columns_pushColumn_self ..)
    (by simp [Entries.ordinals]) coefficient
  exact linked.boundedRow i _

theorem splitColumn (same : p.Transposed) {column : Column α} (active : p.columns.get? j = some column) :
    (p.splitColumn j column).Transposed := by
  have added :=
    (p.boundedColumn j .nonnegative).columns_pushColumn_self .nonnegative column.domain (-column.cost)
  rw [size_columns_boundedColumn] at added
  refine ((same.boundedColumn j .nonnegative).pushColumn .nonnegative column.domain (-column.cost)).linkAll
    added ?_ ?_
  · rw [Entries.ordinals_negate]
    exact same.columns_nodup j column active
  · intro i listed
    rw [Entries.ordinals_negate] at listed
    exact same.row_active active listed

theorem shiftedColumn (same : p.Transposed) {column : Column α} (active : p.columns.get? j = some column) :
    (p.shiftedColumn j column).Transposed :=
  (same.absorbed (same.columns_nodup j column active) _ _).boundedColumn j _

theorem flippedColumn (same : p.Transposed) {column : Column α} (active : p.columns.get? j = some column) :
    (p.flippedColumn j column).Transposed :=
  (((same.absorbed (same.columns_nodup j column active) _ _).pricedColumn j _).negatedColumn j).boundedColumn
    j _

theorem cappedColumn (same : p.Transposed) {column : Column α} (active : p.columns.get? j = some column)
    (bound : α) : (p.cappedColumn j bound).Transposed := by
  have prepared : (p.uncapped j bound).Transposed :=
    ((same.boundedColumn j .nonnegative).pushColumn .nonnegative .continuous 0).pushRow (.point bound)
  have fresh : p.rows.size ∉ column.entries.ordinals := same.size_not_mem active
  -- The new row is named by no column yet, so that both coefficients in it are new.
  have linked := prepared.link (p.rows_uncapped bound) (columns_uncapped active bound) fresh 1
  exact linked.link (rows_link_self (p.rows_uncapped bound) 1) (companion_uncapped active bound)
    (by simp [Entries.ordinals]) 1

theorem substituted (same : p.Transposed) {column : Column α} (active : p.columns.get? j = some column) :
    (p.substituted j column).Transposed :=
  (same.withoutColumn j).absorbed (same.columns_nodup j column active) _ _

omit [Scalar α] in
theorem settledBy (same : p.Transposed) (i j : Nat) (value : α) : (p.settledBy i j value).Transposed :=
  (same.withoutRow i).boundedColumn j _

end

end Transposed

end Program

end LinearReduction
