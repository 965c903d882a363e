import LinearReduction.Proofs.Program.Entries
import LinearReduction.Proofs.Slots
import LinearReduction.Recovery.Undo

/-!
# Valuations

A valuation has a value for every row and column that there could be. What is known of a program agrees with
a valuation if it gives the values of all active rows and columns and of no others that the program once had.
Main statements: the values of a reduced solution are known at the start, and writing the value of a row or
column that the program had never fails.
-/

namespace LinearReduction

/-- A value for every row and every column. -/
structure Valuation (β : Type) where
  rows : Nat → β
  columns : Nat → β

namespace Valuation

variable {β : Type}

def setRow (v : Valuation β) (i : Nat) (value : β) : Valuation β :=
  { v with rows := fun l => if l = i then value else v.rows l }

def setColumn (v : Valuation β) (j : Nat) (value : β) : Valuation β :=
  { v with columns := fun k => if k = j then value else v.columns k }

@[simp] theorem rows_setRow (v : Valuation β) (i l : Nat) (value : β) :
    (v.setRow i value).rows l = if l = i then value else v.rows l := rfl

@[simp] theorem columns_setRow (v : Valuation β) (i : Nat) (value : β) :
    (v.setRow i value).columns = v.columns := rfl

@[simp] theorem rows_setColumn (v : Valuation β) (j : Nat) (value : β) :
    (v.setColumn j value).rows = v.rows := rfl

@[simp] theorem columns_setColumn (v : Valuation β) (j k : Nat) (value : β) :
    (v.setColumn j value).columns k = if k = j then value else v.columns k := rfl

/-- The values of the first rows and columns. -/
def sides (v : Valuation β) (rowCount columnCount : Nat) : Sides β :=
  ⟨(List.range rowCount).map v.rows, (List.range columnCount).map v.columns⟩

theorem sides_fits {γ : Type} (v : Valuation β) (w : Valuation γ) (rowCount columnCount : Nat) :
    (v.sides rowCount columnCount).Fits (w.sides rowCount columnCount) := by
  constructor <;> simp [sides]

end Valuation

/-! ## Known values of slots -/

namespace Slots

variable {α β γ δ : Type} {s : Slots γ} {t : Slots δ} {cells : Array (Option β)} {f : Nat → β} {i : Nat}

/-- Values are known for occupied slots and for no others. -/
structure Known (s : Slots γ) (cells : Array (Option β)) (f : Nat → β) : Prop where
  size_le : s.size ≤ cells.size
  read : ∀ i < s.size, cells[i]?.join = if s.isActive i then some (f i) else none

theorem Known.read_of_active (known : s.Known cells f) (active : s.isActive i = true) :
    cells[i]?.join = some (f i) := by
  rw [known.read i (lt_size_of_isActive active), if_pos active]

theorem Known.restrict (known : t.Known cells f) (restores : s.Restores t none) : s.Known cells f := by
  refine ⟨Nat.le_trans restores.size_le known.size_le, fun i inside => ?_⟩
  rw [known.read i (Nat.lt_of_lt_of_le inside restores.size_le), restores.occupied i inside]
  simp

theorem Known.write (known : t.Known cells f) (restores : s.Restores t (some i))
    (inside : i < s.size) (axis : Axis) (value : β) :
    ∃ after, (LinearReduction.Known.write axis cells i value : Except (Fault α) _) = .ok after ∧
      s.Known after fun l => if l = i then value else f l := by
  have room : i < cells.size := Nat.lt_of_lt_of_le inside (Nat.le_trans restores.size_le known.size_le)
  refine ⟨cells.set i (some value) room, dif_pos room, ?_, fun l within => ?_⟩
  · simpa using Nat.le_trans restores.size_le known.size_le
  · rw [restores.occupied l within, Array.getElem?_set]
    -- The slot was emptied or not. Either way it is known now, and the others are as before.
    by_cases same : i = l
    · simp [same]
    · simp [same, Ne.symm same, known.read l (Nat.lt_of_lt_of_le within restores.size_le)]

/-! ## Values at the start -/

/-- Values for the occupied slots in order of their ordinals, and another value elsewhere. -/
def spread (s : Slots γ) (otherwise : β) (values : List β) (i : Nat) : β :=
  ((s.ordinals.zip values).lookup i).getD otherwise

theorem foldlM_write_eq_ok (axis : Axis) (placed : List (Nat × β)) (distinct : (placed.map (·.1)).Nodup)
    (cells : Array (Option β)) (inside : ∀ entry ∈ placed, entry.1 < cells.size) :
    ∃ after, placed.foldlM (fun cells entry => LinearReduction.Known.write axis cells entry.1 entry.2) cells =
        (.ok after : Except (Fault α) _) ∧ after.size = cells.size ∧
      ∀ i < cells.size, after[i]?.join = ((placed.lookup i).map some).getD cells[i]?.join := by
  induction placed generalizing cells with
  | nil => exact ⟨cells, rfl, rfl, fun _ _ => rfl⟩
  | cons first rest inductionHypothesis =>
    obtain ⟨k, value⟩ := first
    obtain ⟨absent, distinct⟩ := List.nodup_cons.1 distinct
    have room : k < cells.size := inside (k, value) List.mem_cons_self
    obtain ⟨after, run, size_eq, read⟩ := inductionHypothesis distinct (cells.set k (some value) room)
      fun entry later => by simpa using inside entry (List.mem_cons_of_mem _ later)
    rw [Array.size_set] at size_eq read
    refine ⟨after, ?_, size_eq, fun i within => ?_⟩
    · have written : (LinearReduction.Known.write axis cells k value : Except (Fault α) _) =
          .ok (cells.set k (some value) room) := dif_pos room
      rw [List.foldlM_cons, written]
      exact run
    · rw [read i within, Array.getElem?_set, List.lookup_cons]
      -- What is placed first stays, as no ordinal comes twice.
      by_cases same : k = i
      · subst same
        have missing : rest.lookup k = none := by
          rw [List.lookup_eq_none_iff]
          intro entry listed
          rw [bne_iff_ne]
          intro same
          exact absent (List.mem_map.2 ⟨entry, listed, same.symm⟩)
        simp [missing]
      · have apart : (i == k) = false := beq_false_of_ne (Ne.symm same)
        simp [same, apart]

theorem zip_ordinals_fst {values : List β} (fits : values.length = s.active.length) :
    (s.ordinals.zip values).map (·.1) = s.ordinals :=
  List.map_fst_zip (Nat.le_of_eq (by rw [length_ordinals, fits]))

theorem nodup_zip_ordinals {values : List β} (fits : values.length = s.active.length) :
    ((s.ordinals.zip values).map (·.1)).Nodup := by
  rw [zip_ordinals_fst fits]
  exact s.nodup_ordinals

theorem spread_eq {values : List β} {otherwise value : β} {k : Nat} {entry : γ}
    (fits : values.length = s.active.length) (found : s.active[k]? = some (i, entry))
    (given : values[k]? = some value) : s.spread otherwise values i = value := by
  have ordinal : s.ordinals[k]? = some i := by
    rw [ordinals, List.getElem?_map, found, Option.map_some]
  have listed : (i, value) ∈ s.ordinals.zip values := by
    apply List.mem_of_getElem? (i := k)
    rw [List.getElem?_zip_eq_some]
    exact ⟨ordinal, given⟩
  rw [spread, (Entries.lookup_eq_some_iff (nodup_zip_ordinals fits)).2 listed, Option.getD_some]

theorem place_eq_ok {values : List β} (fits : values.length = s.active.length) (axis : Axis) (otherwise : β) :
    ∃ after, (LinearReduction.Known.place axis (Array.replicate s.size none) s.ordinals values :
      Except (Fault α) _) = .ok after ∧ s.Known after (s.spread otherwise values) := by
  have listed : ∀ i, i ∈ s.ordinals ↔ ∃ entry ∈ s.ordinals.zip values, entry.1 = i := fun i => by
    rw [← List.mem_map, zip_ordinals_fst fits]
  obtain ⟨after, run, size_eq, read⟩ :=
    foldlM_write_eq_ok axis (s.ordinals.zip values) (nodup_zip_ordinals fits)
    (Array.replicate s.size none) fun entry placed => by
      simpa using lt_size_of_isActive (mem_ordinals.1 ((listed _).2 ⟨entry, placed, rfl⟩))
  rw [Array.size_replicate] at size_eq read
  refine ⟨after, run, Nat.le_of_eq size_eq.symm, fun i inside => ?_⟩
  rw [read i inside, spread]
  -- A slot is in the list of places exactly if it is occupied.
  cases found : (s.ordinals.zip values).lookup i with
  | some value =>
    have placed : (i, value) ∈ s.ordinals.zip values :=
      (Entries.lookup_eq_some_iff (nodup_zip_ordinals fits)).1 found
    rw [if_pos (mem_ordinals.1 ((listed i).2 ⟨_, placed, rfl⟩))]
    rfl
  | none =>
    have absent : i ∉ s.ordinals := by
      rw [listed]
      rintro ⟨entry, placed, rfl⟩
      simpa using List.lookup_eq_none_iff.1 found entry placed
    rw [if_neg (fun active => absent (mem_ordinals.2 active))]
    simp [inside]

end Slots

/-! ## Known values of programs -/

namespace Known

variable {quantity : Quantity} {α β : Type} {k : Known quantity β} {p q : Program α}
    {v : Valuation β} {i j : Nat}

/-- What is known is what a valuation gives to the active rows and columns of a program. -/
structure Agrees (k : Known quantity β) (p : Program α) (v : Valuation β) : Prop where
  rows : p.rows.Known k.rows v.rows
  columns : p.columns.Known k.columns v.columns

theorem Agrees.row (agrees : k.Agrees p v) (active : p.rows.isActive i = true) :
    (k.row i : Except (Fault α) β) = .ok (v.rows i) := by
  rw [Known.row, agrees.rows.read_of_active active, demand]

theorem Agrees.column (agrees : k.Agrees p v) (active : p.columns.isActive j = true) :
    (k.column j : Except (Fault α) β) = .ok (v.columns j) := by
  rw [Known.column, agrees.columns.read_of_active active, demand]

theorem Agrees.restrict (agrees : k.Agrees q v) (rows : p.rows.Restores q.rows none)
    (columns : p.columns.Restores q.columns none) : k.Agrees p v :=
  ⟨agrees.rows.restrict rows, agrees.columns.restrict columns⟩

theorem Agrees.setRow (agrees : k.Agrees q v) (rows : p.rows.Restores q.rows (some i))
    (columns : p.columns.Restores q.columns none) (inside : i < p.rows.size) (value : β) :
    ∃ after, (k.setRow i value : Except (Fault α) _) = .ok after ∧ after.Agrees p (v.setRow i value) := by
  obtain ⟨cells, written, known⟩ := agrees.rows.write (α := α) rows inside .row value
  refine ⟨{ k with rows := cells }, ?_, known, agrees.columns.restrict columns⟩
  rw [Known.setRow, written]
  rfl

theorem Agrees.setColumn (agrees : k.Agrees q v) (rows : p.rows.Restores q.rows none)
    (columns : p.columns.Restores q.columns (some j)) (inside : j < p.columns.size) (value : β) :
    ∃ after, (k.setColumn j value : Except (Fault α) _) = .ok after ∧
    after.Agrees p (v.setColumn j value) := by
  obtain ⟨cells, written, known⟩ := agrees.columns.write (α := α) columns inside .column value
  refine ⟨{ k with columns := cells }, ?_, agrees.rows.restrict rows, known⟩
  rw [Known.setColumn, written]
  rfl

theorem agrees_seed {values : Sides β} (rows : values.rows.length = p.rows.active.length)
    (columns : values.columns.length = p.columns.active.length) (otherwise : β) :
    ∃ after, ((unknown p.rows.size p.columns.size : Known quantity β).seed p.rows.ordinals
        p.columns.ordinals values : Except (Fault α) _) = .ok after ∧
      after.Agrees p ⟨p.rows.spread otherwise values.rows, p.columns.spread otherwise values.columns⟩ := by
  obtain ⟨row_cells, row_run, rows_known⟩ := Slots.place_eq_ok (α := α) rows .row otherwise
  obtain ⟨column_cells, column_run, columns_known⟩ := Slots.place_eq_ok (α := α) columns .column otherwise
  refine ⟨⟨row_cells, column_cells⟩, ?_, rows_known, columns_known⟩
  rw [seed, unknown, row_run, column_run]
  rfl

end Known

end LinearReduction
