import LinearReduction.Proofs.Program.Building
import LinearReduction.Proofs.Program.Condensing
import Mathlib.Data.List.Sort

/-!
# Coefficients in ascending order

The coefficients of a copied column are put in order, those of a copied row arise in the order in which the
columns are copied. In both cases the ordinals ascend, and a list with ascending ordinals is known by its
members. Main statements: all lists of a copy ascend, and a program without empty slots in which they do is
the copy of itself.
-/

namespace LinearReduction

variable {α : Type}

namespace Entries

variable {entries others : Entries α} {numbered : List Nat} {k : Nat} {value : α}

/-- Ordinals that become greater from each coefficient to the next. -/
def Ascending (entries : Entries α) : Prop :=
  entries.ordinals.Pairwise (· < ·)

theorem ascending_iff : entries.Ascending ↔ entries.Pairwise fun a b => a.1 < b.1 :=
  List.pairwise_map

theorem ascending_nil : Ascending ([] : Entries α) :=
  List.Pairwise.nil

theorem Ascending.append_singleton (ascending : entries.Ascending) (last : ∀ l ∈ entries.ordinals, l < k) :
    Ascending (entries ++ [(k, value)]) := by
  rw [Ascending, ordinals_append, List.pairwise_append]
  refine ⟨ascending, List.pairwise_singleton .., fun l here m single => ?_⟩
  obtain rfl : m = k := List.mem_singleton.1 single
  exact last l here

theorem Ascending.ext (ascending : entries.Ascending) (also : others.Ascending)
    (members : ∀ k value, (k, value) ∈ entries ↔ (k, value) ∈ others) : entries = others := by
  have : Std.Irrefl fun a b : Nat × α => a.1 < b.1 := ⟨fun a => Nat.lt_irrefl a.1⟩
  have : Std.Antisymm fun a b : Nat × α => a.1 < b.1 := ⟨fun _ _ less more => absurd less (Nat.lt_asymm more)⟩
  exact List.Pairwise.eq_of_mem_iff (ascending_iff.1 ascending) (ascending_iff.1 also) fun entry =>
    members entry.1 entry.2

/-! ## Putting coefficients in order -/

theorem insertInOrder_eq_orderedInsert (entry : Nat × α) (entries : Entries α) :
    insertInOrder entry entries = entries.orderedInsert (fun a b => a.1 ≤ b.1) entry := by
  induction entries with
  | nil => rfl
  | cons first rest inductionHypothesis => rw [insertInOrder, inductionHypothesis, List.orderedInsert_cons]

theorem inOrder_eq_insertionSort (entries : Entries α) :
    entries.inOrder = entries.insertionSort fun a b => a.1 ≤ b.1 := by
  rw [inOrder, List.insertionSort]
  congr 1
  funext entry rest
  exact insertInOrder_eq_orderedInsert entry rest

theorem ascending_inOrder (distinct : entries.ordinals.Nodup) : entries.inOrder.Ascending := by
  have : Std.Total fun a b : Nat × α => a.1 ≤ b.1 := ⟨fun a b => Nat.le_total a.1 b.1⟩
  have : IsTrans (Nat × α) fun a b => a.1 ≤ b.1 := ⟨fun _ _ _ => Nat.le_trans⟩
  have sorted : entries.inOrder.Pairwise fun a b => a.1 ≤ b.1 := by
    rw [inOrder_eq_insertionSort]
    exact List.pairwise_insertionSort ..
  -- What is in order and occurs only once becomes greater.
  have apart : entries.inOrder.Pairwise fun a b => a.1 ≠ b.1 := List.pairwise_map.1 (nodup_inOrder distinct)
  exact ascending_iff.2 ((sorted.and apart).imp fun ⟨le, ne⟩ => Nat.lt_of_le_of_ne le ne)

theorem Ascending.inOrder_eq (ascending : entries.Ascending) : entries.inOrder = entries := by
  rw [inOrder_eq_insertionSort]
  exact List.Pairwise.insertionSort_eq ((ascending_iff.1 ascending).imp Nat.le_of_lt)

/-! ## New numbers -/

theorem idxOf_lt_idxOf (increasing : numbered.Pairwise (· < ·)) {k l : Nat} (here : k ∈ numbered)
    (also : l ∈ numbered) (less : k < l) : numbered.idxOf k < numbered.idxOf l := by
  rcases Nat.lt_trichotomy (numbered.idxOf k) (numbered.idxOf l) with before | same | after
  · exact before
  · exact absurd ((List.idxOf_inj here).1 same) (Nat.ne_of_lt less)
  · have greater := List.pairwise_iff_getElem.1 increasing _ _ (List.idxOf_lt_length_iff.2 also)
      (List.idxOf_lt_length_iff.2 here) after
    rw [List.getElem_idxOf, List.getElem_idxOf] at greater
    exact absurd less (Nat.lt_asymm greater)

theorem ascending_renumbered (distinct : entries.ordinals.Nodup) (increasing : numbered.Pairwise (· < ·))
    (listed : ∀ k ∈ entries.ordinals, k ∈ numbered) : (entries.renumbered numbered).Ascending := by
  rw [Ascending, ordinals_renumbered, List.pairwise_map]
  refine (ascending_inOrder distinct).imp_of_mem fun here also less => ?_
  exact idxOf_lt_idxOf increasing (listed _ (mem_ordinals_inOrder.1 here))
    (listed _ (mem_ordinals_inOrder.1 also)) less

theorem Ascending.renumbered_range (ascending : entries.Ascending) {n : Nat}
    (inside : ∀ k ∈ entries.ordinals, k < n) : entries.renumbered (List.range n) = entries := by
  rw [renumbered, ascending.inOrder_eq]
  refine (List.map_congr_left fun entry here => ?_).trans (List.map_id entries)
  have within : entry.1 < (List.range n).length := by
    rw [List.length_range]
    exact inside entry.1 (mem_ordinals_of_mem here)
  have number := List.nodup_range.idxOf_getElem entry.1 within
  rw [List.getElem_range] at number
  exact Prod.ext number rfl

end Entries

namespace Program

variable {p c : Program α} {a b i j : Nat} {value : α}

/-! ## Lists of a copy -/

/-- The coefficients of every row come in the order of their columns. -/
def RowsAscend (p : Program α) : Prop :=
  ∀ i row, p.rows.get? i = some row → row.entries.Ascending

/-- The coefficients of every column come in the order of their rows. -/
def ColumnsAscend (p : Program α) : Prop :=
  ∀ j column, p.columns.get? j = some column → column.entries.Ascending

namespace RowsAscend

theorem pushRow (ascend : c.RowsAscend) (bounds : Bounds α) : (c.pushRow bounds).RowsAscend := by
  intro i row active
  rw [rows_pushRow] at active
  split at active
  case isTrue =>
    cases active
    exact Entries.ascending_nil
  case isFalse => exact ascend i row active

theorem link (ascend : c.RowsAscend) (same : c.Transposed) {row : Row α} {column : Column α}
    (row_active : c.rows.get? a = some row)
    (column_active : c.columns.get? (c.columns.size - 1) = some column) (fresh : a ∉ column.entries.ordinals)
    (value : α) : (c.link a (c.columns.size - 1) value).RowsAscend := by
  intro i other active
  rw [rows_link] at active
  split at active
  case isTrue here =>
    subst here
    rw [row_active, Option.map_some, Option.some.injEq] at active
    subst active
    -- All columns of the row come before the last one, in which it had no coefficient so far.
    refine (ascend a row row_active).append_singleton fun k listed => ?_
    have inside := Slots.lt_size_of_isActive (same.column_isActive row_active listed)
    have apart : k ≠ c.columns.size - 1 := by
      rintro rfl
      exact fresh ((same.mem_ordinals_iff row_active column_active).1 listed)
    omega
  case isFalse => exact ascend i other active

end RowsAscend

theorem keptByCopying_rowsAscend [Scalar α] (p : Program α) :
    p.KeptByCopying fun c => c.Transposed ∧ c.RowsAscend where
  start := by
    refine ⟨.of_entries_nil (fun i row active => ?_) fun j column active => ?_, fun i row active => ?_⟩
    · cases active.symm.trans (Slots.get?_empty i)
    · cases active.symm.trans (Slots.get?_empty j)
    · cases active.symm.trans (Slots.get?_empty i)
  pushRow c bounds holds := ⟨holds.1.pushRow bounds, holds.2.pushRow bounds⟩
  pushColumn c bounds domain cost holds := ⟨holds.1.pushColumn bounds domain cost, holds.2⟩
  link c a row column value holds row_active column_active fresh _ _ :=
    ⟨holds.1.link row_active column_active fresh value,
      holds.2.link holds.1 row_active column_active fresh value⟩

namespace Copied

theorem columnsAscend (copied : p.Copied p.columns.active.length c) (same : p.Transposed) :
    c.ColumnsAscend := by
  intro b column' active
  obtain ⟨j, column, listed, rfl⟩ := copied.exists_column active
  have found := Slots.mem_active.1 (List.mem_of_getElem? listed)
  exact Entries.ascending_renumbered (same.columns_nodup j column found)
      p.rows.pairwise_ordinals fun i here =>
    Slots.mem_ordinals.2 (same.row_isActive found here)

/-- A column of the copy has the coefficients of the column that it is a copy of, in the rows with the new
    numbers. -/
theorem columnLists_iff (copied : p.Copied p.columns.active.length c) (same : p.Transposed)
    (row_number : p.rows.ordinals[a]? = some i) (column_number : p.columns.ordinals[b]? = some j) :
    c.ColumnLists a b value ↔ p.ColumnLists i j value := by
  obtain ⟨column, listed⟩ := Slots.exists_of_getElem?_ordinals column_number
  obtain ⟨_, row_listed⟩ := Slots.exists_of_getElem?_ordinals row_number
  have active := (Slots.getElem?_active_iff.1 listed).1
  have number := (Slots.getElem?_active_iff.1 row_listed).2
  constructor
  · rintro ⟨column', found, here⟩
    rw [copied.column_eq listed, Option.some.injEq] at found
    subst found
    obtain ⟨k, in_column, same_number⟩ := Entries.mem_renumbered.1 here
    -- Rows that have the same number are the same row.
    have in_ordinals :=
      Slots.mem_ordinals.2 (same.row_isActive active (Entries.mem_ordinals_of_mem in_column))
    obtain rfl := (List.idxOf_inj in_ordinals).1 (same_number.trans number.symm)
    exact ⟨column, active, in_column⟩
  · rintro ⟨other, found, in_column⟩
    obtain rfl := Option.some.inj (active.symm.trans found)
    exact ⟨_, copied.column_eq listed, Entries.mem_renumbered.2 ⟨_, in_column, number⟩⟩

theorem rowLists_iff (copied : p.Copied p.columns.active.length c) (same : p.Transposed)
    (row_number : p.rows.ordinals[a]? = some i) (column_number : p.columns.ordinals[b]? = some j) :
    c.RowLists a b value ↔ p.RowLists i j value := by
  rw [copied.transposed.agree, same.agree]
  exact copied.columnLists_iff same row_number column_number

/-! ## Copies of copies -/

variable (full : p.Full) (same : p.Transposed) (copied : p.Copied p.columns.active.length c)

include full same copied

omit same in
theorem rows_size_of_full : c.rows.size = p.rows.size := by
  rw [copied.rows_size, Slots.length_active_of_full full.rows]

omit same in
theorem columns_size_of_full : c.columns.size = p.columns.size := by
  rw [copied.columns_size, Slots.length_active_of_full full.columns]

theorem column_eq_of_full (before : p.ColumnsAscend) (j : Nat) : c.columns.get? j = p.columns.get? j := by
  have sizes := copied.columns_size_of_full full
  rcases Nat.lt_or_ge j p.columns.size with inside | outside
  · obtain ⟨column, active⟩ := Slots.isActive_iff.1 (full.columns j inside)
    have rows : ∀ i ∈ column.entries.ordinals, i < p.rows.size := fun i here =>
      Slots.lt_size_of_isActive (same.row_isActive active here)
    rw [copied.column_eq (Slots.getElem?_active_of_full full.columns active), active,
      Slots.ordinals_of_full full.rows, (before j column active).renumbered_range rows]
  · rw [Slots.get?_of_size_le outside, Slots.get?_of_size_le (sizes ▸ outside)]

/-- With the same columns, rows list the same coefficients. -/
theorem rowLists_iff_of_full (before : p.ColumnsAscend) : c.RowLists i j value ↔ p.RowLists i j value := by
  rw [copied.transposed.agree, same.agree, ColumnLists, ColumnLists,
    copied.column_eq_of_full full same before j]

theorem row_eq_of_full (rows : p.RowsAscend) (columns : p.ColumnsAscend) (after : c.RowsAscend) (i : Nat) :
    c.rows.get? i = p.rows.get? i := by
  have sizes := copied.rows_size_of_full full
  rcases Nat.lt_or_ge i p.rows.size with inside | outside
  · obtain ⟨row, active⟩ := Slots.isActive_iff.1 (full.rows i inside)
    obtain ⟨row', found, bounds⟩ := copied.row_eq (Slots.getElem?_active_of_full full.rows active)
    have members : ∀ j value, (j, value) ∈ row'.entries ↔ (j, value) ∈ row.entries := by
      intro j value
      have lists : c.RowLists i j value ↔ p.RowLists i j value :=
        copied.rowLists_iff_of_full full same columns
      simpa [RowLists, active, found] using lists
    have entries := (after i row' found).ext (rows i row active) members
    rw [found, active]
    exact congrArg some (congr (congrArg Row.mk bounds) entries)
  · rw [Slots.get?_of_size_le outside, Slots.get?_of_size_le (sizes ▸ outside)]

/-- Nothing is left to be done for a copy of a program whose slots are all occupied and whose lists all
    ascend. -/
theorem eq_of_full (counted : p.Counted) (rows : p.RowsAscend) (columns : p.ColumnsAscend)
    (after : c.RowsAscend) : c = p := by
  have same_rows : c.rows = p.rows := Slots.IsCounted.ext copied.counted.rows counted.rows
    (copied.rows_size_of_full full) (copied.row_eq_of_full full same rows columns after)
  have same_columns : c.columns = p.columns := Slots.IsCounted.ext copied.counted.columns counted.columns
    (copied.columns_size_of_full full) (copied.column_eq_of_full full same columns)
  exact ext_slots copied.sense_eq copied.fixedCost_eq same_rows same_columns

end Copied

end Program

end LinearReduction
