import LinearReduction.Proofs.Session.Worklist

/-!
# Restriction to what is left

Eliminations take rows and columns away and nothing else. What is left of a program has the slots that it had,
and every row and column that is left has the coefficients that it had in the columns and rows that are left.
Main statement: `Session.Eliminates.narrows`.
-/

namespace LinearReduction

variable {α : Type}

theorem Entries.filter_filter_of_imp {first later : Nat → Bool} (entries : Entries α)
    (within : ∀ k, later k = true → first k = true) :
    (entries.filter (first ·.1)).filter (later ·.1) = entries.filter (later ·.1) := by
  rw [List.filter_filter]
  refine List.filter_congr fun entry _ => ?_
  cases kept : later entry.1 with
  | true => rw [within entry.1 kept, Bool.and_self]
  | false => rw [Bool.false_and]

namespace Program

variable {p q u : Program α} {i j : Nat}

/-- A program with some of the rows and columns of another one. The rows and columns that are left have the
    coefficients that they had in what is left, in the same order, and columns are otherwise the same. -/
structure NarrowsTo (p q : Program α) : Prop where
  rows_size : q.rows.size = p.rows.size
  columns_size : q.columns.size = p.columns.size
  rows : ∀ {i row}, q.rows.get? i = some row → ∃ before, p.rows.get? i = some before ∧
    row.entries = before.entries.filter (q.columns.isActive ·.1)
  columns : ∀ {j column}, q.columns.get? j = some column → ∃ before, p.columns.get? j = some before ∧
    column = { before with entries := before.entries.filter (q.rows.isActive ·.1) }

namespace NarrowsTo

theorem rows_isActive (narrows : p.NarrowsTo q) (i : Nat) (active : q.rows.isActive i = true) :
    p.rows.isActive i = true := by
  obtain ⟨row, active⟩ := Slots.isActive_iff.1 active
  obtain ⟨before, found, _⟩ := narrows.rows active
  exact Slots.isActive_of_eq_some found

theorem columns_isActive (narrows : p.NarrowsTo q) (j : Nat) (active : q.columns.isActive j = true) :
    p.columns.isActive j = true := by
  obtain ⟨column, active⟩ := Slots.isActive_iff.1 active
  obtain ⟨before, found, _⟩ := narrows.columns active
  exact Slots.isActive_of_eq_some found

end NarrowsTo

theorem Transposed.row_filter_active (same : p.Transposed) {row : Row α} (active : p.rows.get? i = some row) :
    row.entries.filter (p.columns.isActive ·.1) = row.entries :=
  List.filter_eq_self.2 fun _ listed => same.column_isActive active (Entries.mem_ordinals_of_mem listed)

theorem Transposed.column_filter_active (same : p.Transposed) {column : Column α}
    (active : p.columns.get? j = some column) :
    column.entries.filter (p.rows.isActive ·.1) = column.entries :=
  List.filter_eq_self.2 fun _ listed => same.row_isActive active (Entries.mem_ordinals_of_mem listed)

theorem NarrowsTo.refl (same : p.Transposed) : p.NarrowsTo p where
  rows_size := rfl
  columns_size := rfl
  rows active := ⟨_, active, (same.row_filter_active active).symm⟩
  columns active := ⟨_, active, by rw [same.column_filter_active active]⟩

/-- Two restrictions, one after the other, are one to what is left in the end. -/
theorem NarrowsTo.trans (first : p.NarrowsTo q) (later : q.NarrowsTo u) : p.NarrowsTo u where
  rows_size := later.rows_size.trans first.rows_size
  columns_size := later.columns_size.trans first.columns_size
  rows active := by
    obtain ⟨between, found, entries⟩ := later.rows active
    obtain ⟨before, found, earlier⟩ := first.rows found
    refine ⟨before, found, ?_⟩
    rw [entries, earlier, Entries.filter_filter_of_imp _ later.columns_isActive]
  columns active := by
    obtain ⟨between, found, rfl⟩ := later.columns active
    obtain ⟨before, earlier, rfl⟩ := first.columns found
    exact ⟨before, earlier, by rw [Entries.filter_filter_of_imp _ later.rows_isActive]⟩

/-! ## Leaving out a row or column -/

theorem Transposed.narrowsTo_withoutRow (same : p.Transposed) (i : Nat) : p.NarrowsTo (p.withoutRow i) where
  rows_size := Slots.size_clear ..
  columns_size := Slots.size_map ..
  rows {l row} active := by
    have columns : (p.withoutRow i).columns.isActive = p.columns.isActive := funext (Slots.isActive_map _ _)
    rw [rows_withoutRow] at active
    split at active
    case isTrue => cases active
    case isFalse => exact ⟨row, active, by rw [columns, same.row_filter_active active]⟩
  columns {k column} active := by
    rw [columns_withoutRow, Option.map_eq_some_iff] at active
    obtain ⟨before, active, rfl⟩ := active
    refine ⟨before, active, congrArg (Column.mk _ _ _) ?_⟩
    rw [Entries.erase_eq_filter (same.columns_nodup k before active)]
    refine List.filter_congr fun entry listed => ?_
    have there := same.row_isActive active (Entries.mem_ordinals_of_mem listed)
    exact ((Slots.isActive_clear ..).trans (by rw [there, Bool.true_and]; rfl)).symm

/-- Substituting a value changes bounds of rows, which may be any. -/
theorem Transposed.narrowsTo_substituted [Scalar α] (same : p.Transposed) {column : Column α}
    (distinct : column.entries.ordinals.Nodup) (j : Nat) : p.NarrowsTo (p.substituted j column) where
  rows_size := (size_rows_offset _ _ _).trans (Slots.size_map ..)
  columns_size := (congrArg Slots.size (columns_offset _ _ _)).trans (Slots.size_clear ..)
  rows {l row} found := by
    rw [rows_substituted _ distinct, Option.map_eq_some_iff] at found
    obtain ⟨before, found, rfl⟩ := found
    refine ⟨before, found, ?_⟩
    change before.entries.erase j = _
    rw [Entries.erase_eq_filter (same.rows_nodup l before found)]
    refine List.filter_congr fun entry listed => ?_
    have there := same.column_isActive found (Entries.mem_ordinals_of_mem listed)
    have left := Slots.isActive_clear p.columns j entry.1
    rw [there, Bool.true_and] at left
    exact (congrArg (Slots.isActive · entry.1) (columns_offset (p.withoutColumn j) _ _)).trans left |>.symm
  columns {k other} found := by
    rw [columns_substituted] at found
    split at found
    case isTrue => cases found
    case isFalse =>
      refine ⟨other, found, ?_⟩
      have rows : (p.substituted j column).rows.isActive = p.rows.isActive := by
        funext l
        rw [Slots.isActive, rows_substituted _ distinct, Option.isSome_map]
        rfl
      rw [rows, same.column_filter_active found]

end Program

namespace Session

variable [Scalar α] {s t : Session α} {r : Reduction} {k n : Nat} {added : Added}

theorem Performs.narrows (performs : s.Performs r k added t) (elimination : r.isElimination = true)
    (same : s.program.Transposed) : s.program.NarrowsTo t.program := by
  cases r with
  | dropFreeRow =>
    obtain ⟨row, _, _, left⟩ := performs.of_dropFreeRow
    exact left ▸ same.narrowsTo_withoutRow k
  | dropEmptyRow =>
    obtain ⟨row, _, _, _, left⟩ := performs.of_dropEmptyRow
    exact left ▸ same.narrowsTo_withoutRow k
  | substituteFixed =>
    obtain ⟨column, active, _, _, left⟩ := performs.of_substituteFixed
    exact left ▸ same.narrowsTo_substituted (same.columns_nodup k column active) k
  | settleEmpty =>
    obtain ⟨column, active, _, _, left⟩ := performs.of_settleEmpty
    rw [left]
    refine same.narrowsTo_substituted ?_ k
    exact same.columns_nodup k column active
  | settleSingleton =>
    obtain ⟨row, j, _, column, _, _, _, active, _, left⟩ := performs.of_settleSingleton
    have distinct := Entries.nodup_erase (same.columns_nodup j column active) k
    rw [left]
    exact (same.narrowsTo_withoutRow k).trans ((same.withoutRow k).narrowsTo_substituted distinct j)
  | _ => cases elimination

theorem Eliminates.narrows [LawfulScalar α] (eliminates : s.Eliminates n t) (same : s.program.Transposed) :
    s.program.NarrowsTo t.program := by
  induction eliminates with
  | refl => exact .refl same
  | eliminate before elimination result inductionHypothesis =>
    have between := before.transposed same
    have performs := (Step.reduce_ends between _ _).done_of_eq_ok result
    exact inductionHypothesis.trans (performs.narrows elimination between)

end Session

end LinearReduction
