import LinearReduction.Program.Condensed
import LinearReduction.Proofs.Program.Coherent
import LinearReduction.Proofs.Program.Editing
import Mathlib.Data.List.Nodup

/-!
# Copies without empty slots

What a condensed program consists of. Columns are copied one after the other, and the loop keeps the invariant
that the copy has as many columns as were copied so far. Main statements: programs with proper bounds and one
matrix without zeros can be condensed, and what copying keeps holds of the copy.
-/

namespace LinearReduction

variable {α : Type}

namespace Entries

variable {entries : Entries α}

theorem insertInOrder_perm (entry : Nat × α) (entries : Entries α) :
    (insertInOrder entry entries).Perm (entry :: entries) := by
  induction entries with
  | nil => exact .refl _
  | cons first rest inductionHypothesis =>
    rw [insertInOrder]
    split
    · exact .refl _
    · exact (List.Perm.cons first inductionHypothesis).trans (.swap ..)

theorem inOrder_perm (entries : Entries α) : entries.inOrder.Perm entries := by
  induction entries with
  | nil => exact .refl _
  | cons first rest inductionHypothesis =>
    exact (insertInOrder_perm first (inOrder rest)).trans (.cons first inductionHypothesis)

/-- Coefficients in order, with the new numbers of their ordinals. -/
def renumbered (entries : Entries α) (numbered : List Nat) : Entries α :=
  entries.inOrder.map fun entry => (numbered.idxOf entry.1, entry.2)

theorem mem_renumbered {numbered : List Nat} {a : Nat} {value : α} :
    (a, value) ∈ entries.renumbered numbered ↔ ∃ i, (i, value) ∈ entries ∧ numbered.idxOf i = a := by
  rw [renumbered, List.mem_map]
  constructor
  · rintro ⟨⟨i, _⟩, listed, same⟩
    cases same
    exact ⟨i, entries.inOrder_perm.mem_iff.1 listed, rfl⟩
  · rintro ⟨i, listed, rfl⟩
    exact ⟨(i, value), entries.inOrder_perm.mem_iff.2 listed, rfl⟩

theorem ordinals_renumbered (entries : Entries α) (numbered : List Nat) :
    (entries.renumbered numbered).ordinals = entries.inOrder.ordinals.map numbered.idxOf := by
  simp [renumbered, ordinals]

theorem nodup_inOrder (distinct : entries.ordinals.Nodup) : entries.inOrder.ordinals.Nodup :=
  (entries.inOrder_perm.map _).nodup_iff.2 distinct

theorem mem_ordinals_inOrder {k : Nat} : k ∈ entries.inOrder.ordinals ↔ k ∈ entries.ordinals :=
  (entries.inOrder_perm.map _).mem_iff

theorem nodup_renumbered {numbered : List Nat} (distinct : entries.ordinals.Nodup)
    (listed : ∀ k ∈ entries.ordinals, k ∈ numbered) : (entries.renumbered numbered).ordinals.Nodup := by
  rw [ordinals_renumbered]
  refine List.Nodup.map_on (fun k here l _ same => ?_) (nodup_inOrder distinct)
  exact (List.idxOf_inj (listed k (mem_ordinals_inOrder.1 here))).1 same

end Entries

namespace Program

variable {p c : Program α} {m : Nat}

/-- A copy of a program and of its first columns, with new numbers in place of the ordinals. -/
structure Copied (p : Program α) (m : Nat) (c : Program α) : Prop where
  sense_eq : c.sense = p.sense
  fixedCost_eq : c.fixedCost = p.fixedCost
  transposed : c.Transposed
  rows_size : c.rows.size = p.rows.active.length
  rows_occupied : c.rows.occupied = p.rows.active.length
  columns_size : c.columns.size = m
  columns_occupied : c.columns.occupied = m
  rows : ∀ a, (c.rows.get? a).map (·.bounds) = p.rows.active[a]?.map (·.2.bounds)
  columns : ∀ b, c.columns.get? b = if b < m then p.columns.active[b]?.map fun entry =>
    { entry.2 with entries := entry.2.entries.renumbered p.rows.ordinals } else none

end Program

/-! ## The loops -/

namespace Condensed

variable [Scalar α]

open Fault (bind_of_eq_ok forM_cons_of_eq_ok)

omit [Scalar α] in
theorem idxOf?_of_mem {numbered : List Nat} {k : Nat} (listed : k ∈ numbered) :
    numbered.idxOf? k = some (numbered.idxOf k) := by
  obtain ⟨a, found⟩ := Option.isSome_iff_exists.1 (List.isSome_idxOf?.2 listed)
  rw [List.idxOf_eq_getD_idxOf?, found, Option.getD_some]

theorem copyRows_eq_ok (list : List (Nat × Row α)) (proper : ∀ entry ∈ list, entry.2.bounds.isProper = true)
    (c : Program α) : (list.forM fun (_, row) => discard (Edit.newRow row.bounds) : Edit α Unit) c =
      .ok () { c with
        rows := ⟨c.rows.cells ++ (list.map fun entry => some ⟨entry.2.bounds, []⟩).toArray,
          c.rows.occupied + list.length⟩ } := by
  induction list generalizing c with
  | nil => simp; rfl
  | cons first rest inductionHypothesis =>
    have added : (discard (Edit.newRow first.2.bounds) : Edit α Unit) c = .ok () (c.pushRow first.2.bounds) :=
      bind_of_eq_ok (Edit.newRow_of_proper (proper first (List.mem_cons_self ..)))
    refine (forM_cons_of_eq_ok (fun (_, row) => discard (Edit.newRow row.bounds)) added rest).trans ?_
    rw [inductionHypothesis fun entry later => proper entry (List.mem_cons_of_mem _ later)]
    simp [Program.pushRow, Slots.push]
    omega

variable {p c : Program α}

theorem copyCoefficients_eq_ok (numbered : List Nat) (j : Nat) (entries : Entries α)
    (distinct : (entries.map fun entry => numbered.idxOf entry.1).Nodup)
    (listed : ∀ entry ∈ entries, entry.1 ∈ numbered) (nonzero : ∀ entry ∈ entries, (entry.2 != 0) = true)
    (rows_active : ∀ a < numbered.length, ∃ row, c.rows.get? a = some row) {column : Column α}
    (active : c.columns.get? j = some column)
    (fresh : ∀ entry ∈ entries, numbered.idxOf entry.1 ∉ column.entries.ordinals) :
    entries.forM (copyCoefficient numbered j) c =
      .ok () (c.linkAll j (entries.map fun entry => (numbered.idxOf entry.1, entry.2))) := by
  induction entries generalizing c column with
  | nil => rfl
  | cons first rest inductionHypothesis =>
    obtain ⟨absent, distinct⟩ := List.nodup_cons.1 distinct
    have here := listed first (List.mem_cons_self ..)
    obtain ⟨row, row_active⟩ := rows_active _ (List.idxOf_lt_length_iff.2 here)
    have number : numbered.idxOf? first.1 = some (numbered.idxOf first.1) := idxOf?_of_mem here
    have linked : copyCoefficient numbered j first c =
        .ok () (c.link (numbered.idxOf first.1) j first.2) := by
      rw [copyCoefficient, number]
      exact Edit.connect_of_unmentioned row_active active (nonzero first (List.mem_cons_self ..))
        (Entries.mentions_eq_false_iff.2 (fresh first (List.mem_cons_self ..)))
    apply (forM_cons_of_eq_ok _ linked rest).trans
    refine inductionHypothesis distinct (fun entry later => listed entry (List.mem_cons_of_mem _ later))
      (fun entry later => nonzero entry (List.mem_cons_of_mem _ later)) (fun a inside => ?_)
      (Program.columns_link_self active first.2) fun entry later => ?_
    · obtain ⟨other, found⟩ := rows_active a inside
      rw [Program.rows_link, found]
      split <;> exact ⟨_, rfl⟩
    -- Rows that differ have numbers that differ, so that later entries are still new to the column.
    · have apart : numbered.idxOf entry.1 ≠ numbered.idxOf first.1 := fun same =>
        absent (List.mem_map.2 ⟨entry, later, same⟩)
      simp only [Entries.ordinals_append, List.mem_append, not_or]
      exact ⟨fresh entry (List.mem_cons_of_mem _ later), by simpa [Entries.ordinals] using apart⟩

theorem copyColumn_eq_ok {m : Nat} (same : p.Transposed) (bounded : p.Bounded) (nonzero : p.Nonzero)
    (copied : p.Copied m c) {j : Nat} {column : Column α} (next : p.columns.active[m]? = some (j, column)) :
    ∃ c', copyColumn p.rows.ordinals column c = .ok () c' ∧ p.Copied (m + 1) c' := by
  have active : p.columns.get? j = some column := Slots.mem_active.1 (List.mem_of_getElem? next)
  have distinct := same.columns_nodup j column active
  have listed : ∀ i ∈ column.entries.ordinals, i ∈ p.rows.ordinals := fun i here =>
    Slots.mem_ordinals.2 (same.row_isActive active here)
  have rows_active : ∀ a < p.rows.ordinals.length, ∃ row, c.rows.get? a = some row := by
    intro a inside
    have found := copied.rows a
    rw [Slots.length_ordinals] at inside
    rw [List.getElem?_eq_getElem inside, Option.map_some, Option.map_eq_some_iff] at found
    obtain ⟨row, found, _⟩ := found
    exact ⟨row, found⟩
  have pushed := Edit.newColumn_of_proper (p := c) (bounded.columns j column active) column.domain column.cost
  have new := c.columns_pushColumn_self column.bounds column.domain column.cost
  have renumbered_distinct := Entries.nodup_renumbered distinct listed
  refine ⟨(c.pushColumn column.bounds column.domain column.cost).linkAll c.columns.size
    (column.entries.renumbered p.rows.ordinals), ?_, ?_⟩
  · apply (bind_of_eq_ok pushed).trans
    refine copyCoefficients_eq_ok p.rows.ordinals c.columns.size column.entries.inOrder ?_
      (fun entry here => ?_)
      (fun entry here => ?_) rows_active new fun entry _ => List.not_mem_nil
    · rw [Entries.ordinals_renumbered, Entries.ordinals, List.map_map] at renumbered_distinct
      exact renumbered_distinct
    · exact listed entry.1 (Entries.mem_ordinals_inOrder.1 (Entries.mem_ordinals_of_mem here))
    · have in_column := column.entries.inOrder_perm.mem_iff.1 here
      exact (nonzero entry.1 j entry.2 ((same.agree ..).2 ⟨column, active, in_column⟩)).1
  · have rows_new : ∀ a ∈ (column.entries.renumbered p.rows.ordinals).ordinals, ∃ row,
        (c.pushColumn column.bounds column.domain column.cost).rows.get? a = some row := by
      intro a here
      rw [Entries.ordinals_renumbered, List.mem_map] at here
      obtain ⟨i, here, rfl⟩ := here
      exact rows_active _ (List.idxOf_lt_length_iff.2 (listed i (Entries.mem_ordinals_inOrder.1 here)))
    refine ⟨?_, ?_, ?_, ?_, ?_, ?_, ?_, fun a => ?_, fun b => ?_⟩
    · rw [Program.sense_linkAll]
      exact copied.sense_eq
    · rw [Program.fixedCost_linkAll]
      exact copied.fixedCost_eq
    · exact (copied.transposed.pushColumn ..).linkAll new renumbered_distinct rows_new
    · rw [Program.size_rows_linkAll]
      exact copied.rows_size
    · rw [Program.occupied_rows_linkAll]
      exact copied.rows_occupied
    · rw [Program.size_columns_linkAll, Program.pushColumn, Slots.size_push, copied.columns_size]
    · rw [Program.occupied_columns_linkAll]
      exact congrArg (· + 1) copied.columns_occupied
    · rw [Program.rows_linkAll _ renumbered_distinct, Option.map_map, ← copied.rows a]
      congr 1
      funext row
      exact Row.bounds_extended ..
    · rw [Program.columns_linkAll, Program.columns_pushColumn, copied.columns b, copied.columns_size]
      -- Earlier columns are as they were copied, the new one comes last, and there are no later ones yet.
      rcases Nat.lt_trichotomy b m with before | rfl | after
      · rw [if_neg (Nat.ne_of_gt before), if_neg (Nat.ne_of_lt before), if_pos before,
          if_pos (Nat.lt_succ_of_lt before)]
      · rw [if_pos rfl, if_pos rfl, if_pos (Nat.lt_succ_self b), next]
        rfl
      · rw [if_neg (Nat.ne_of_lt after), if_neg (Nat.ne_of_gt after), if_neg (Nat.lt_asymm after),
          if_neg (Nat.not_lt.2 after)]

theorem copyColumns_eq_ok (same : p.Transposed) (bounded : p.Bounded) (nonzero : p.Nonzero)
    (list : List (Nat × Column α)) {m : Nat} (rest : p.columns.active.drop m = list) (copied : p.Copied m c) :
    ∃ c', (list.forM fun (_, column) => copyColumn p.rows.ordinals column : Edit α Unit) c = .ok () c' ∧
      p.Copied (m + list.length) c' := by
  -- The invariant is that the copy has the first `m` columns, and that the list has those that come after
  -- them.
  induction list generalizing m c with
  | nil => exact ⟨c, rfl, copied⟩
  | cons first later inductionHypothesis =>
    have next : p.columns.active[m]? = some (first.1, first.2) := by
      rw [← List.head?_drop, rest, List.head?_cons]
    obtain ⟨between, done, copied⟩ := copyColumn_eq_ok same bounded nonzero copied next
    have rest_later : p.columns.active.drop (m + 1) = later := by
      rw [← List.drop_drop, rest, List.drop_one, List.tail_cons]
    obtain ⟨last, done_later, copied⟩ := inductionHypothesis rest_later copied
    refine ⟨last, ?_, ?_⟩
    · exact (forM_cons_of_eq_ok (fun (_, column) => copyColumn p.rows.ordinals column) done later).trans
        done_later
    · rwa [List.length_cons, Nat.add_comm later.length, ← Nat.add_assoc]

end Condensed

/-! ## Finished copies -/

namespace Program

variable {p c : Program α} {m a b i j : Nat}

namespace Copied

theorem row_eq (copied : p.Copied m c) {row : Row α} (listed : p.rows.active[a]? = some (i, row)) :
    ∃ row', c.rows.get? a = some row' ∧ row'.bounds = row.bounds := by
  have found := copied.rows a
  rw [listed, Option.map_some, Option.map_eq_some_iff] at found
  exact found

theorem exists_row (copied : p.Copied m c) {row' : Row α} (active : c.rows.get? a = some row') :
    ∃ i row, p.rows.active[a]? = some (i, row) ∧ row'.bounds = row.bounds := by
  have found := copied.rows a
  rw [active, Option.map_some] at found
  obtain ⟨⟨i, row⟩, listed, same⟩ := Option.map_eq_some_iff.1 found.symm
  exact ⟨i, row, listed, same.symm⟩

theorem column_eq (copied : p.Copied p.columns.active.length c) {column : Column α}
    (listed : p.columns.active[b]? = some (j, column)) :
    c.columns.get? b = some { column with entries := column.entries.renumbered p.rows.ordinals } := by
  rw [copied.columns, if_pos (List.getElem?_eq_some_iff.1 listed).1, listed, Option.map_some]

theorem exists_column (copied : p.Copied p.columns.active.length c) {column' : Column α}
    (active : c.columns.get? b = some column') : ∃ j column, p.columns.active[b]? = some (j, column) ∧
      column' = { column with entries := column.entries.renumbered p.rows.ordinals } := by
  rw [copied.columns] at active
  split at active
  case isTrue =>
    obtain ⟨⟨j, column⟩, listed, rfl⟩ := Option.map_eq_some_iff.1 active
    exact ⟨j, column, listed, rfl⟩
  case isFalse => cases active

theorem rows_full (copied : p.Copied m c) : ∀ a < c.rows.size, c.rows.isActive a = true := by
  intro a inside
  rw [copied.rows_size] at inside
  obtain ⟨row', found, _⟩ := copied.row_eq (List.getElem?_eq_getElem inside)
  exact Slots.isActive_of_eq_some found

theorem columns_full (copied : p.Copied p.columns.active.length c) :
    ∀ b < c.columns.size, c.columns.isActive b = true := by
  intro b inside
  rw [copied.columns_size] at inside
  exact Slots.isActive_of_eq_some (copied.column_eq (List.getElem?_eq_getElem inside))

theorem counted (copied : p.Copied p.columns.active.length c) : c.Counted := by
  refine ⟨?_, ?_⟩
  · rw [Slots.length_active_of_full copied.rows_full, copied.rows_size, copied.rows_occupied]
  · rw [Slots.length_active_of_full copied.columns_full, copied.columns_size, copied.columns_occupied]

variable [Scalar α]

theorem bounded (copied : p.Copied p.columns.active.length c) (before : p.Bounded) : c.Bounded := by
  refine ⟨fun a row' active => ?_, fun b column' active => ?_⟩
  · obtain ⟨i, row, listed, same⟩ := copied.exists_row active
    rw [same]
    exact before.rows i row (Slots.mem_active.1 (List.mem_of_getElem? listed))
  · obtain ⟨j, column, listed, rfl⟩ := copied.exists_column active
    exact before.columns j column (Slots.mem_active.1 (List.mem_of_getElem? listed))

theorem nonzero (copied : p.Copied p.columns.active.length c) (same : p.Transposed) (before : p.Nonzero) :
    c.Nonzero := by
  -- Every coefficient of the copy is one of a column that was copied.
  intro a b value lists
  obtain ⟨column', active, here⟩ := (copied.transposed.agree a b value).1 lists
  obtain ⟨j, column, listed, rfl⟩ := copied.exists_column active
  obtain ⟨i, in_column, _⟩ := Entries.mem_renumbered.1 here
  exact before i j value
    ((same.agree ..).2 ⟨column, Slots.mem_active.1 (List.mem_of_getElem? listed), in_column⟩)

end Copied

/-- The copy of all rows, to start with. -/
theorem copied_zero [Zero α] (p : Program α) : p.Copied 0 { Program.empty p.sense with
    fixedCost := p.fixedCost
    rows := ⟨(p.rows.active.map fun entry => some ⟨entry.2.bounds, []⟩).toArray, p.rows.active.length⟩ } := by
  have rows : ∀ a, (⟨(p.rows.active.map fun entry => some ⟨entry.2.bounds, []⟩).toArray,
      p.rows.active.length⟩ : Slots (Row α)).get? a =
          p.rows.active[a]?.map fun entry => ⟨entry.2.bounds, []⟩ := by
    intro a
    simp only [Slots.get?, List.getElem?_toArray, List.getElem?_map]
    cases p.rows.active[a]? <;> rfl
  -- Without columns there are no coefficients, in either view.
  refine ⟨rfl, rfl, .of_entries_nil (fun a row active => ?_) fun b column active => ?_, ?_, rfl, rfl, rfl,
    fun a => ?_, fun b => ?_⟩
  · rw [rows, Option.map_eq_some_iff] at active
    obtain ⟨_, _, rfl⟩ := active
    rfl
  · cases active.symm.trans (Slots.get?_empty b)
  · simp [Slots.size]
  · rw [rows, Option.map_map]
    rfl
  · rw [if_neg (Nat.not_lt_zero b)]
    exact Slots.get?_empty b

theorem condense_eq_ok [Scalar α] [LawfulScalar α] (same : p.Transposed) (bounded : p.Bounded)
    (nonzero : p.Nonzero) : ∃ c, p.condense = .ok ⟨c, p.rows.ordinals, p.columns.ordinals⟩ ∧
    p.Copied p.columns.active.length c := by
  have rows_copied := Condensed.copyRows_eq_ok p.rows.active (fun entry listed =>
    bounded.rows entry.1 entry.2 (Slots.mem_active.1 listed))
    { Program.empty p.sense with fixedCost := p.fixedCost }
  obtain ⟨c, columns_copied, copied⟩ :=
    Condensed.copyColumns_eq_ok same bounded nonzero p.columns.active rfl p.copied_zero
  rw [Nat.zero_add] at copied
  -- The copy passes the test at the end, and is the result.
  have coherent : c.isCoherent = true := isCoherent_iff.2
    ⟨copied.counted, copied.bounded bounded, copied.nonzero same nonzero, copied.transposed⟩
  have done : Condensed.copyFrom p { Program.empty p.sense with fixedCost := p.fixedCost } = .ok () c := by
    apply (Fault.bind_of_eq_ok rows_copied).trans
    simp only [Program.empty, Slots.empty, Array.empty_append, Nat.zero_add]
    apply (Fault.bind_of_eq_ok columns_copied).trans
    apply (Fault.bind_of_eq_ok Edit.get_apply).trans
    rw [coherent]
    rfl
  refine ⟨c, ?_, copied⟩
  rw [condense, done]

end Program

/-! ## What holds of every copy -/

open Fault (Ends)

variable [Scalar α] {p c : Program α}

/-- A property that the copy has at any time: it holds to begin with, and is kept by new rows, by new columns
    and by a new coefficient of the last column, whose value is one that the program has. -/
structure Program.KeptByCopying (p : Program α) (kept : Program α → Prop) : Prop where
  start : kept { Program.empty p.sense with fixedCost := p.fixedCost }
  pushRow : ∀ c bounds, kept c → kept (c.pushRow bounds)
  pushColumn : ∀ c bounds domain cost, kept c → kept (c.pushColumn bounds domain cost)
  link : ∀ (c : Program α) a row column value, kept c → c.rows.get? a = some row →
    c.columns.get? (c.columns.size - 1) = some column → a ∉ column.entries.ordinals → (value != 0) = true →
    (∃ i j, p.ColumnLists i j value) → kept (c.link a (c.columns.size - 1) value)

theorem Edit.connect_ends_of_fresh {a b : Nat} {value : α} {done : Unit → Program α → Prop}
    (holds : ∀ row column, c.rows.get? a = some row → c.columns.get? b = some column →
      a ∉ column.entries.ordinals →
      (value != 0) = true → done () (c.link a b value)) : Ends (Edit.connect a b value) c done
          fun _ _ => True := by
  refine .bind (.ensure fun nonzero => ?_)
  refine .bind (Edit.fetchColumn_ends (fun column column_active => ?_) fun _ => trivial)
  refine .bind (.ensure fun unmentioned => ?_)
  refine .bind (.discard (Edit.fetchRow_ends (fun row row_active => ?_) fun _ => trivial))
  have fresh := Entries.mentions_eq_false_iff.1 (by simpa using unmentioned)
  exact .modify (holds row column row_active column_active fresh nonzero)

namespace Program.KeptByCopying

variable {kept : Program α → Prop}

theorem copyColumn (keeps : p.KeptByCopying kept) (numbered : List Nat) {j : Nat} {column : Column α}
    (active : p.columns.get? j = some column) (before : kept c) :
    Ends (Condensed.copyColumn numbered column) c (fun _ d => kept d) fun _ _ => True := by
  refine .bind (Edit.newColumn_ends fun _ => ?_)
  -- The coefficients are those of the last column, as no column is added while they are copied.
  have start : kept (c.pushColumn column.bounds column.domain column.cost) ∧
      (c.pushColumn column.bounds column.domain column.cost).columns.size - 1 = c.columns.size :=
    ⟨keeps.pushColumn _ _ _ _ before, congrArg (· - 1) (Slots.size_push ..)⟩
  have copied : Ends (column.entries.inOrder.forM (Condensed.copyCoefficient numbered c.columns.size))
      (c.pushColumn column.bounds column.domain column.cost)
      (fun _ d => kept d ∧ d.columns.size - 1 = c.columns.size) fun _ _ => True := by
    refine .forM start fun entry listed d holds => ?_
    unfold Condensed.copyCoefficient
    split
    case h_1 a _ =>
      refine Edit.connect_ends_of_fresh fun row' column' row_active column_active fresh nonzero => ⟨?_, ?_⟩
      · have stored : p.ColumnLists entry.1 j entry.2 :=
          ⟨column, active, column.entries.inOrder_perm.mem_iff.1 listed⟩
        rw [← holds.2] at column_active ⊢
        exact keeps.link d a row' column' entry.2 holds.1 row_active column_active fresh nonzero
          ⟨entry.1, j, stored⟩
      · exact (congrArg (· - 1) (Slots.size_modify ..)).trans holds.2
    case h_2 => exact .refuse trivial
  exact copied.mono (fun _ _ holds => holds.1) fun _ _ stops => stops

/-- Properties that copying keeps are those of the finished copy. -/
theorem condense (keeps : p.KeptByCopying kept) {copy : Condensed α} (condensed : p.condense = .ok copy) :
    kept copy.program := by
  have copies : Ends (Condensed.copyFrom p) { Program.empty p.sense with fixedCost := p.fixedCost }
      (fun _ d => kept d) fun _ _ => True := by
    refine .bind ((Ends.forM keeps.start fun entry _ c before => .discard (Edit.newRow_ends fun _ =>
      keeps.pushRow c entry.2.bounds before)).mono (fun _ c rows_copied => ?_) fun _ _ stops => stops)
    refine .bind ((Ends.forM rows_copied fun entry listed c before =>
      keeps.copyColumn p.rows.ordinals (Slots.mem_active.1 listed) before).mono (fun _ d columns_copied => ?_)
      fun _ _ stops => stops)
    exact .bind (.get (.ensure fun _ => columns_copied))
  unfold Program.condense at condensed
  split at condensed
  case h_1 run =>
    cases condensed
    exact copies.done_of_eq_ok run
  case h_2 => cases condensed

end Program.KeptByCopying

end LinearReduction
