import LinearReduction.Proofs.Exact.Points
import LinearReduction.Proofs.Program.Condensing

/-!
# Exact copies

A program and its copy without empty slots ask for the same, in terms of numbers that are given by ordinal for
the one and by new number for the other. Main statements: they have the same activities, reduced costs,
feasible points and costs.
-/

namespace LinearReduction

open ExtRat

namespace Slots

variable {β : Type} {s : Slots β} {u x : Nat → ℚ}

/-- The numbers are the same, with new numbers in place of the ordinals. -/
def Renumbers (s : Slots β) (u x : Nat → ℚ) : Prop :=
  ∀ a i entry, s.active[a]? = some (i, entry) → u a = x i

theorem renumbers_idxOf (s : Slots β) (u : Nat → ℚ) : s.Renumbers u fun i => u (s.ordinals.idxOf i) := by
  intro a i entry listed
  change u a = u (s.ordinals.idxOf i)
  rw [(getElem?_active_iff.1 listed).2]

theorem renumbers_getD (s : Slots β) (x : Nat → ℚ) : s.Renumbers (fun a => x (s.ordinals.getD a 0)) x := by
  intro a i entry listed
  have ordinal : s.ordinals[a]? = some i := by rw [ordinals, List.getElem?_map, listed, Option.map_some]
  change x (s.ordinals.getD a 0) = x i
  rw [List.getD_eq_getElem?_getD, ordinal, Option.getD_some]

theorem Renumbers.idxOf_eq (renumbers : s.Renumbers u x) {i : Nat} (active : s.isActive i = true) :
    u (s.ordinals.idxOf i) = x i := by
  obtain ⟨entry, found⟩ := isActive_iff.1 active
  exact renumbers _ i entry (getElem?_active_iff.2 ⟨found, rfl⟩)

end Slots

namespace Entries

variable {entries others : Entries ExtRat} {x : Nat → ℚ}

theorem value_perm (same : entries.Perm others) : entries.value x = others.value x :=
  (same.map _).sum_eq

/-- Renaming ordinals is the same as renaming what the numbers belong to. -/
theorem value_rename (f : Nat → Nat) :
    Entries.value (entries.map fun entry => (f entry.1, entry.2)) x = entries.value (x ∘ f) := by
  rw [value, List.map_map]
  rfl

theorem value_renumbered {numbered : List Nat} :
    (entries.renumbered numbered).value x = entries.value (x ∘ numbered.idxOf) := by
  rw [renumbered, value_rename numbered.idxOf, value_perm entries.inOrder_perm]

end Entries

namespace Program

variable {p c : Program ExtRat} {u x : Nat → ℚ}

theorem Exact.bounded (exact : p.Exact) : p.Bounded :=
  ⟨fun i row active => Bounds.isProper_iff.2 (exact.rows i row active).proper,
    fun j column active => Bounds.isProper_iff.2 (exact.columns j column active).proper⟩

theorem Exact.nonzero (exact : p.Exact) : p.Nonzero := by
  rintro i j value ⟨row, active, listed⟩
  obtain ⟨finite, nonzero⟩ := (exact.rows i row active).rational _ listed
  change value = .finite value.toRat at finite
  refine ⟨bne_zero_of_toRat nonzero, ?_⟩
  rw [finite]
  exact LawfulScalar.beq_self_of_le (finite_le_finite.2 le_rfl)

namespace Copied

theorem exact (copied : p.Copied p.columns.active.length c) (before : p.Exact) : c.Exact := by
  refine ⟨copied.transposed, fun a row' found => ⟨?_, ?_⟩, fun b column' found => ?_⟩
  · obtain ⟨i, row, listed, same⟩ := copied.exists_row found
    rw [same]
    exact (before.rows i row (Slots.mem_active.1 (List.mem_of_getElem? listed))).proper
  · rintro ⟨b, value⟩ here
    obtain ⟨column', active, also⟩ := copied.transposed.column_of_mem found here
    obtain ⟨j, column, listed, rfl⟩ := copied.exists_column active
    obtain ⟨i, in_column, _⟩ := Entries.mem_renumbered.1 also
    exact before.column_rational (Slots.mem_active.1 (List.mem_of_getElem? listed)) (i, value) in_column
  · obtain ⟨j, column, listed, rfl⟩ := copied.exists_column found
    obtain ⟨proper, cost⟩ := before.columns j column (Slots.mem_active.1 (List.mem_of_getElem? listed))
    exact ⟨proper, cost⟩

theorem mem_row_iff (copied : p.Copied p.columns.active.length c) (exact : p.Exact) {a i b : Nat}
    {row row' : Row ExtRat} (listed : p.rows.active[a]? = some (i, row)) (found : c.rows.get? a = some row')
    {value : ExtRat} : (b, value) ∈ row'.entries ↔ ∃ j, (j, value) ∈ row.entries ∧
    p.columns.ordinals.idxOf j = b := by
  obtain ⟨active, number⟩ := Slots.getElem?_active_iff.1 listed
  constructor
  · intro here
    obtain ⟨column', column_found, also⟩ := copied.transposed.column_of_mem found here
    obtain ⟨j, column, column_listed, rfl⟩ := copied.exists_column column_found
    obtain ⟨column_active, column_number⟩ := Slots.getElem?_active_iff.1 column_listed
    obtain ⟨i', in_column, same⟩ := Entries.mem_renumbered.1 also
    have in_ordinals := Slots.mem_ordinals.2
      (exact.transposed.row_isActive column_active (Entries.mem_ordinals_of_mem in_column))
    obtain rfl := (List.idxOf_inj in_ordinals).1 (same.trans number.symm)
    exact ⟨j, (exact.transposed.mem_iff active column_active).2 in_column, column_number⟩
  · rintro ⟨j, here, rfl⟩
    obtain ⟨column, column_active, also⟩ := exact.transposed.column_of_mem active here
    have column_found := copied.column_eq (Slots.getElem?_active_iff.2 ⟨column_active, rfl⟩)
    exact (copied.transposed.mem_iff found column_found).2 (Entries.mem_renumbered.2 ⟨i, also, number⟩)

/-- A row of the copy has the coefficients of the row that it is a copy of. -/
theorem row_perm (copied : p.Copied p.columns.active.length c) (exact : p.Exact) {a i : Nat}
    {row row' : Row ExtRat} (listed : p.rows.active[a]? = some (i, row)) (found : c.rows.get? a = some row') :
    row'.entries.Perm (row.entries.map fun entry => (p.columns.ordinals.idxOf entry.1, entry.2)) := by
  have active := (Slots.getElem?_active_iff.1 listed).1
  have distinct : (row.entries.map fun entry => (p.columns.ordinals.idxOf entry.1, entry.2)).Nodup := by
    have distinct_before := List.Nodup.of_map _ (exact.transposed.rows_nodup i row active)
    refine List.Nodup.map_on (fun entry here other _ same => ?_) distinct_before
    obtain ⟨numbers, values⟩ := Prod.mk.inj same
    have listed_before : entry.1 ∈ row.entries.ordinals := Entries.mem_ordinals_of_mem here
    have in_ordinals := Slots.mem_ordinals.2 (exact.transposed.column_isActive active listed_before)
    exact Prod.ext ((List.idxOf_inj in_ordinals).1 numbers) values
  apply (List.perm_ext_iff_of_nodup
    (List.Nodup.of_map _ (copied.transposed.rows_nodup a row' found)) distinct).2
  rintro ⟨b, value⟩
  rw [copied.mem_row_iff exact listed found, List.mem_map]
  constructor
  · rintro ⟨j, here, rfl⟩
    exact ⟨(j, value), here, rfl⟩
  · rintro ⟨⟨j, _⟩, here, same⟩
    cases same
    exact ⟨j, here, rfl⟩

/-- Rows of the copy have the same activities. -/
theorem row_value (copied : p.Copied p.columns.active.length c) (exact : p.Exact)
    (renumbers : p.columns.Renumbers u x) {a i : Nat} {row row' : Row ExtRat}
    (listed : p.rows.active[a]? = some (i, row)) (found : c.rows.get? a = some row') :
    row'.entries.value u = row.entries.value x := by
  have active := Slots.mem_active.1 (List.mem_of_getElem? listed)
  rw [Entries.value_perm (copied.row_perm exact listed found), Entries.value_rename p.columns.ordinals.idxOf]
  exact Entries.value_congr fun j here => renumbers.idxOf_eq (exact.transposed.column_isActive active here)

/-- Columns of the copy are worth as much at the same multipliers. -/
theorem column_value (exact : p.Exact) (renumbers : p.rows.Renumbers u x) {j : Nat} {column : Column ExtRat}
    (active : p.columns.get? j = some column) :
    (column.entries.renumbered p.rows.ordinals).value u = column.entries.value x := by
  rw [Entries.value_renumbered]
  exact Entries.value_congr fun i here => renumbers.idxOf_eq (exact.transposed.row_isActive active here)

theorem meets_iff (copied : p.Copied p.columns.active.length c) (exact : p.Exact)
    (renumbers : p.columns.Renumbers u x) : c.Meets u ↔ p.Meets x := by
  constructor
  · intro meets
    refine ⟨fun i row active => ?_, fun j column active => ?_⟩
    · have listed := Slots.getElem?_active_iff.2 ⟨active, rfl⟩
      obtain ⟨row', found, same⟩ := copied.row_eq listed
      rw [← same, ← copied.row_value exact renumbers listed found]
      exact meets.rows _ row' found
    · have listed := Slots.getElem?_active_iff.2 ⟨active, rfl⟩
      rw [← renumbers _ j column listed]
      have contains := meets.columns _ _ (copied.column_eq listed)
      exact contains
  · intro meets
    refine ⟨fun a row' found => ?_, fun b column' found => ?_⟩
    · obtain ⟨i, row, listed, same⟩ := copied.exists_row found
      rw [same, copied.row_value exact renumbers listed found]
      exact meets.rows i row (Slots.mem_active.1 (List.mem_of_getElem? listed))
    · obtain ⟨j, column, listed, rfl⟩ := copied.exists_column found
      rw [renumbers b j column listed]
      exact meets.columns j column (Slots.mem_active.1 (List.mem_of_getElem? listed))

theorem column_active (copied : p.Copied p.columns.active.length c) {b j : Nat} {column : Column ExtRat}
    (listed : p.columns.active[b]? = some (j, column)) : c.columns.active[b]? =
      some (b, { column with entries := column.entries.renumbered p.rows.ordinals }) :=
  Slots.getElem?_active_of_full copied.columns_full (copied.column_eq listed)

theorem linearCost_eq (copied : p.Copied p.columns.active.length c) (renumbers : p.columns.Renumbers u x) :
    c.linearCost u = p.linearCost x := by
  rw [linearCost_eq_active, linearCost_eq_active]
  congr 1
  refine List.ext_getElem? fun b => ?_
  rw [List.getElem?_map, List.getElem?_map]
  cases listed : p.columns.active[b]? with
  | some entry =>
    obtain ⟨j, column⟩ := entry
    rw [copied.column_active listed, Option.map_some, Option.map_some, renumbers b j column listed]
  | none =>
    have outside := List.getElem?_eq_none_iff.1 listed
    rw [List.getElem?_eq_none (by
      rwa [Slots.length_active_of_full copied.columns_full, copied.columns_size])]
    rfl

end Copied

/-- Programs in exact arithmetic always have a copy without empty slots. -/
theorem Exact.condense_eq_ok (exact : p.Exact) :
    ∃ c, p.condense = .ok ⟨c, p.rows.ordinals, p.columns.ordinals⟩ ∧ p.Copied p.columns.active.length c :=
  Program.condense_eq_ok exact.transposed exact.bounded exact.nonzero

end Program

end LinearReduction
