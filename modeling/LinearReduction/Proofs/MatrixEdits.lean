import LinearReduction.Proofs.Program.Coherent
import LinearReduction.Proofs.Program.Editing
import LinearReduction.Proofs.Scalar.Negation

/-!
# Edits of the matrix

What removing a row, removing a column and negating a column mean for everything that a program holds. Each of
them changes one list as a whole and looks for a single coefficient in each of the lists of the other view.
Main statement: in a coherent program these edits succeed and change what they are for and nothing else,
removing a row and removing a column can be done in either order, and negating a column is undone by negating
it again.
-/

namespace LinearReduction

variable {α : Type}

namespace Slots

variable {β : Type} {s : Slots β} {i : Nat}

/-- Entries are changed and slots are emptied in either order. -/
theorem map_clear (f : β → β) (s : Slots β) (i : Nat) : (s.clear i).map f = (s.map f).clear i := by
  refine ext_get? (by simp) rfl fun l => ?_
  rw [get?_map, get?_clear, get?_clear, get?_map]
  split <;> rfl

theorem IsCounted.occupied_clear (counted : s.IsCounted) (active : s.isActive i = true) :
    (s.clear i).occupied + 1 = s.occupied := by
  obtain ⟨entry, found⟩ := isActive_iff.1 active
  have listed := List.length_pos_of_mem (mem_active.2 found)
  rw [counted] at listed
  exact Nat.sub_add_cancel listed

end Slots

/-! ## Negating twice -/

namespace Entries

variable [Scalar α] [InvolutiveNegation α]

theorem negate_negate (entries : Entries α) : entries.negate.negate = entries := by
  rw [negate, negate, List.map_map]
  refine (List.map_congr_left fun entry _ => ?_).trans (List.map_id entries)
  exact Prod.ext rfl (InvolutiveNegation.neg_neg entry.2)

theorem negateAt_negateAt (entries : Entries α) (k : Nat) : (entries.negateAt k).negateAt k = entries := by
  rw [negateAt, negateAt, List.map_map]
  refine (List.map_congr_left fun entry _ => ?_).trans (List.map_id entries)
  obtain ⟨l, value⟩ := entry
  by_cases same : l = k <;> simp [same, InvolutiveNegation.neg_neg]

end Entries

namespace Program

variable {p : Program α} {i j : Nat}

theorem negatedColumn_negatedColumn [Scalar α] [InvolutiveNegation α] (p : Program α) (j : Nat) :
    (p.negatedColumn j).negatedColumn j = p := by
  refine ext_slots rfl rfl (Slots.ext_get? (by simp [negatedColumn]) rfl fun l => ?_)
    (Slots.ext_get? (by simp [negatedColumn]) rfl fun k => ?_)
  · rw [rows_negatedColumn, rows_negatedColumn, Option.map_map]
    cases p.rows.get? l with
    | none => rfl
    | some row => exact congrArg some (congrArg (Row.mk row.bounds) (row.entries.negateAt_negateAt j))
  · rw [columns_negatedColumn, columns_negatedColumn]
    by_cases negated : j = k
    · rw [if_pos negated, if_pos negated, Option.map_map]
      cases p.columns.get? k with
      | none => rfl
      | some column =>
        exact congrArg some (congrArg (Column.mk column.bounds column.domain column.cost)
          column.entries.negate_negate)
    · rw [if_neg negated, if_neg negated]

theorem withoutRow_withoutColumn (p : Program α) (i j : Nat) :
    (p.withoutRow i).withoutColumn j = (p.withoutColumn j).withoutRow i := by
  simp only [withoutRow, withoutColumn, Slots.map_clear]

/-! ## What edits are for, and what they leave alone -/

/-- The same sense, the same fixed cost and as many slots. -/
structure Frames (p q : Program α) : Prop where
  sense_eq : q.sense = p.sense
  fixedCost_eq : q.fixedCost = p.fixedCost
  rows_size : q.rows.size = p.rows.size
  columns_size : q.columns.size = p.columns.size

/-- A program from which one row is gone, and from each column its coefficient in the row. -/
structure LacksRow (p : Program α) (i : Nat) (q : Program α) : Prop extends p.Frames q where
  rows_occupied : q.rows.occupied + 1 = p.rows.occupied
  columns_occupied : q.columns.occupied = p.columns.occupied
  row : q.rows.get? i = none
  other_rows : ∀ l, l ≠ i → q.rows.get? l = p.rows.get? l
  columns : ∀ k, q.columns.get? k = (p.columns.get? k).map fun column =>
    { column with entries := column.entries.filter fun entry => entry.1 != i }

/-- A program from which one column is gone, and from each row its coefficient in the column. -/
structure LacksColumn (p : Program α) (j : Nat) (q : Program α) : Prop extends p.Frames q where
  rows_occupied : q.rows.occupied = p.rows.occupied
  columns_occupied : q.columns.occupied + 1 = p.columns.occupied
  column : q.columns.get? j = none
  other_columns : ∀ k, k ≠ j → q.columns.get? k = p.columns.get? k
  rows : ∀ l, q.rows.get? l = (p.rows.get? l).map fun row =>
    { row with entries := row.entries.filter fun entry => entry.1 != j }

/-- A program in which the coefficients of one column have the other sign, in the column and in all rows. -/
structure Negates [Neg α] (p : Program α) (j : Nat) (q : Program α) : Prop extends p.Frames q where
  rows_occupied : q.rows.occupied = p.rows.occupied
  columns_occupied : q.columns.occupied = p.columns.occupied
  column : q.columns.get? j = (p.columns.get? j).map fun column =>
    { column with entries := column.entries.map fun entry => (entry.1, -entry.2) }
  other_columns : ∀ k, k ≠ j → q.columns.get? k = p.columns.get? k
  rows : ∀ l, q.rows.get? l = (p.rows.get? l).map fun row =>
    { row with entries := row.entries.map fun entry => if entry.1 = j then (entry.1, -entry.2) else entry }

namespace Transposed

theorem lacksRow (same : p.Transposed) (counted : p.Counted) (active : p.rows.isActive i = true) :
    p.LacksRow i (p.withoutRow i) where
  sense_eq := rfl
  fixedCost_eq := rfl
  rows_size := Slots.size_clear ..
  columns_size := Slots.size_map ..
  rows_occupied := Slots.IsCounted.occupied_clear counted.rows active
  columns_occupied := rfl
  row := by rw [rows_withoutRow, if_pos rfl]
  other_rows l apart := by rw [rows_withoutRow, if_neg (Ne.symm apart)]
  columns k := by
    rw [columns_withoutRow]
    -- The first coefficient for an ordinal is the only one that there is.
    cases found : p.columns.get? k with
    | none => rfl
    | some column =>
      rw [Option.map_some, Option.map_some, Entries.erase_eq_filter (same.columns_nodup k column found)]
      rfl

theorem lacksColumn (same : p.Transposed) (counted : p.Counted) (active : p.columns.isActive j = true) :
    p.LacksColumn j (p.withoutColumn j) where
  sense_eq := rfl
  fixedCost_eq := rfl
  rows_size := Slots.size_map ..
  columns_size := Slots.size_clear ..
  rows_occupied := rfl
  columns_occupied := Slots.IsCounted.occupied_clear counted.columns active
  column := by rw [columns_withoutColumn, if_pos rfl]
  other_columns k apart := by rw [columns_withoutColumn, if_neg (Ne.symm apart)]
  rows l := by
    rw [rows_withoutColumn]
    cases found : p.rows.get? l with
    | none => rfl
    | some row =>
      rw [Option.map_some, Option.map_some, Entries.erase_eq_filter (same.rows_nodup l row found)]
      rfl

end Transposed

theorem negates_negatedColumn [Neg α] (p : Program α) (j : Nat) : p.Negates j (p.negatedColumn j) where
  sense_eq := rfl
  fixedCost_eq := rfl
  rows_size := Slots.size_map ..
  columns_size := Slots.size_modify ..
  rows_occupied := rfl
  columns_occupied := rfl
  column := by
    rw [columns_negatedColumn, if_pos rfl]
    rfl
  other_columns k apart := by rw [columns_negatedColumn, if_neg (Ne.symm apart)]
  rows l := rows_negatedColumn p j l

end Program

/-! ## The edits -/

namespace Edit

open Fault (bind_of_eq_ok)

variable {p : Program α} {i j : Nat}

theorem dropRow_dropColumn (same : p.Transposed) {row : Row α} {column : Column α}
    (row_active : p.rows.get? i = some row) (column_active : p.columns.get? j = some column) :
    (dropRow i >>= fun _ => dropColumn j) p =
      .ok { column with entries := column.entries.erase i } ((p.withoutRow i).withoutColumn j) := by
  have left : (p.withoutRow i).columns.get? j = some { column with entries := column.entries.erase i } := by
    rw [Program.columns_withoutRow, column_active, Option.map_some]
  rw [bind_of_eq_ok (dropRow_of_active same row_active), dropColumn_of_active (same.withoutRow i) left]

theorem dropColumn_dropRow (same : p.Transposed) {row : Row α} {column : Column α}
    (row_active : p.rows.get? i = some row) (column_active : p.columns.get? j = some column) :
    (dropColumn j >>= fun _ => dropRow i) p =
      .ok { row with entries := row.entries.erase j } ((p.withoutRow i).withoutColumn j) := by
  have left : (p.withoutColumn j).rows.get? i = some { row with entries := row.entries.erase j } := by
    rw [Program.rows_withoutColumn, row_active, Option.map_some]
  rw [bind_of_eq_ok (dropColumn_of_active same column_active), dropRow_of_active (same.withoutColumn j) left,
    Program.withoutRow_withoutColumn]

theorem reverseColumn_reverseColumn [Scalar α] [InvolutiveNegation α] (same : p.Transposed)
    {column : Column α} (active : p.columns.get? j = some column) :
    reverseColumn j (p.negatedColumn j) = .ok () p := by
  have negated : (p.negatedColumn j).columns.get? j =
      some { column with entries := column.entries.negate } := by
    rw [Program.columns_negatedColumn, if_pos rfl, active, Option.map_some]
  rw [reverseColumn_of_active (same.negatedColumn j) negated, Program.negatedColumn_negatedColumn]

variable [Scalar α] [LawfulScalar α] [InvolutiveNegation α]

/-- Rows and columns are removed and columns are negated as a whole, in both views and without any other
    change. -/
theorem coherent_edits (coherent : p.isCoherent = true) :
    (∀ i row, p.rows.get? i = some row → ∃ q, dropRow i p = .ok row q ∧ p.LacksRow i q) ∧
    (∀ j column, p.columns.get? j = some column → ∃ q, dropColumn j p = .ok column q ∧ p.LacksColumn j q) ∧
    (∀ i j, p.rows.isActive i = true → p.columns.isActive j = true → ∃ q row column,
      (dropRow i >>= fun _ => dropColumn j) p = .ok column q ∧
      (dropColumn j >>= fun _ => dropRow i) p = .ok row q) ∧
    ∀ j, p.columns.isActive j = true → ∃ q,
      reverseColumn j p = .ok () q ∧ p.Negates j q ∧ reverseColumn j q = .ok () p := by
  have ⟨counted, _, _, same⟩ := Program.isCoherent_iff.1 coherent
  refine ⟨fun i row active => ?_, fun j column active => ?_, fun i j row_active column_active => ?_,
    fun j active => ?_⟩
  · exact ⟨p.withoutRow i, dropRow_of_active same active,
      same.lacksRow counted (Slots.isActive_of_eq_some active)⟩
  · exact ⟨p.withoutColumn j, dropColumn_of_active same active,
      same.lacksColumn counted (Slots.isActive_of_eq_some active)⟩
  · obtain ⟨row, row_active⟩ := Slots.isActive_iff.1 row_active
    obtain ⟨column, column_active⟩ := Slots.isActive_iff.1 column_active
    exact ⟨_, _, _, dropRow_dropColumn same row_active column_active,
      dropColumn_dropRow same row_active column_active⟩
  · obtain ⟨column, active⟩ := Slots.isActive_iff.1 active
    exact ⟨p.negatedColumn j, reverseColumn_of_active same active, p.negates_negatedColumn j,
      reverseColumn_reverseColumn same active⟩

/-- Two rows and two columns behind empty slots, with coefficients in no particular order and one that is
    infinite. -/
def woven : Program Float :=
  ⟨.maximize, 3.5,
    ⟨#[none, some ⟨⟨0, 4⟩, [(2, 0.1), (0, -3)]⟩, some ⟨⟨Scalar.negInf, 1⟩, [(0, Scalar.posInf)]⟩], 2⟩,
    ⟨#[some ⟨⟨-1, 1⟩, .integer, 2, [(2, Scalar.posInf), (1, -3)]⟩, none,
      some ⟨.nonnegative, .continuous, 0, [(1, 0.1)]⟩], 2⟩⟩

theorem woven_edits :
    (∃ q row column, (dropRow 1 >>= fun _ => dropColumn 0) woven = .ok column q ∧
      (dropColumn 0 >>= fun _ => dropRow 1) woven = .ok row q) ∧
    ∃ q, reverseColumn 0 woven = .ok () q ∧ woven.Negates 0 q ∧ reverseColumn 0 q = .ok () woven := by
  obtain ⟨_, _, either_order, negated⟩ := coherent_edits (p := woven) (by decide +kernel)
  exact ⟨either_order 1 0 (by decide) (by decide), negated 0 (by decide)⟩

end Edit

end LinearReduction
