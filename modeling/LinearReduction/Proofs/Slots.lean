import LinearReduction.Slots

/-!
# Occupied slots

Which slots are occupied and in which order they are listed. Main statements: the ordinals are those of the
occupied slots, in increasing order.
-/

namespace LinearReduction

namespace Slots

variable {β : Type} {s : Slots β} {i : Nat} {entry : β}

theorem isActive_iff : s.isActive i = true ↔ ∃ entry, s.get? i = some entry := by
  rw [isActive, Option.isSome_iff_exists]

theorem isActive_of_eq_some (active : s.get? i = some entry) : s.isActive i = true :=
  isActive_iff.2 ⟨entry, active⟩

theorem lt_size (active : s.get? i = some entry) : i < s.size :=
  lt_size_of_isActive (isActive_of_eq_some active)

theorem get?_of_size_le (outside : s.size ≤ i) : s.get? i = none := by
  cases found : s.get? i with
  | none => rfl
  | some entry => exact absurd (lt_size found) (Nat.not_lt.2 outside)

theorem ne_size (active : s.get? i = some entry) : i ≠ s.size :=
  Nat.ne_of_lt (lt_size active)

theorem mem_ordinals : i ∈ s.ordinals ↔ s.isActive i = true := by
  rw [ordinals, isActive_iff, List.mem_map]
  constructor
  · rintro ⟨⟨k, entry⟩, listed, rfl⟩
    exact ⟨entry, mem_active.1 listed⟩
  · rintro ⟨entry, active⟩
    exact ⟨(i, entry), mem_active.2 active, rfl⟩

theorem ordinals_eq_filterMap (s : Slots β) : s.ordinals =
    s.cells.toList.zipIdx.filterMap fun cell => cell.1.map fun _ => cell.2 := by
  rw [ordinals, active, List.map_filterMap]
  congr 1
  funext entry
  obtain ⟨cell, i⟩ := entry
  cases cell <;> rfl

theorem pairwise_ordinals (s : Slots β) : s.ordinals.Pairwise (· < ·) := by
  rw [ordinals_eq_filterMap]
  have increasing : s.cells.toList.zipIdx.Pairwise fun a b => a.2 < b.2 := by
    rw [← List.pairwise_map, List.zipIdx_map_snd]
    exact List.pairwise_lt_range'
  -- Leaving cells out keeps the order of those that are left.
  refine List.Pairwise.filterMap _ (fun a b less k found l found' => ?_) increasing
  rcases a with ⟨_ | _, _⟩ <;> rcases b with ⟨_ | _, _⟩ <;> simp_all

theorem nodup_ordinals (s : Slots β) : s.ordinals.Nodup :=
  s.pairwise_ordinals.imp Nat.ne_of_lt

theorem length_ordinals (s : Slots β) : s.ordinals.length = s.active.length :=
  List.length_map ..

theorem ordinals_eq_filter (s : Slots β) : s.ordinals = (List.range s.size).filter s.isActive := by
  have increasing : ((List.range s.size).filter s.isActive).Pairwise (· < ·) :=
    List.pairwise_lt_range.filter _
  -- Both lists increase, so that they are the same if they have the same members.
  refine List.Perm.eq_of_pairwise (fun a b _ _ less greater => absurd less (Nat.lt_asymm greater))
    s.pairwise_ordinals increasing ?_
  rw [List.perm_ext_iff_of_nodup s.nodup_ordinals (increasing.imp Nat.ne_of_lt)]
  intro i
  rw [mem_ordinals, List.mem_filter, List.mem_range]
  exact ⟨fun active => ⟨lt_size_of_isActive active, active⟩, fun listed => listed.2⟩

theorem ordinals_of_full (full : ∀ i < s.size, s.isActive i = true) : s.ordinals = List.range s.size := by
  rw [ordinals_eq_filter, List.filter_eq_self]
  exact fun i listed => full i (List.mem_range.1 listed)

theorem length_active_le (s : Slots β) : s.active.length ≤ s.size := by
  rw [← length_ordinals, ordinals_eq_filter]
  exact Nat.le_trans (List.length_filter_le ..) (Nat.le_of_eq List.length_range)

theorem length_active_of_full (full : ∀ i < s.size, s.isActive i = true) : s.active.length = s.size := by
  rw [← length_ordinals, ordinals_of_full full, List.length_range]

theorem exists_of_getElem?_ordinals {a : Nat} (ordinal : s.ordinals[a]? = some i) :
    ∃ entry, s.active[a]? = some (i, entry) := by
  rw [ordinals, List.getElem?_map, Option.map_eq_some_iff] at ordinal
  obtain ⟨⟨_, entry⟩, listed, rfl⟩ := ordinal
  exact ⟨entry, listed⟩

theorem getElem?_active_iff {a : Nat} :
    s.active[a]? = some (i, entry) ↔ s.get? i = some entry ∧ s.ordinals.idxOf i = a := by
  constructor
  · intro listed
    have ordinal : s.ordinals[a]? = some i := by rw [ordinals, List.getElem?_map, listed, Option.map_some]
    obtain ⟨inside, rfl⟩ := List.getElem?_eq_some_iff.1 ordinal
    -- No ordinal is listed twice, so that the place of an entry is the first one with its ordinal.
    exact ⟨mem_active.1 (List.mem_of_getElem? listed), s.nodup_ordinals.idxOf_getElem a inside⟩
  · rintro ⟨active, rfl⟩
    have inside := List.idxOf_lt_length_iff.2 (mem_ordinals.2 (isActive_of_eq_some active))
    have found : s.ordinals[s.ordinals.idxOf i]? = some i := by
      rw [List.getElem?_eq_getElem inside, List.getElem_idxOf]
    obtain ⟨other, listed⟩ := exists_of_getElem?_ordinals found
    have same := active.symm.trans (mem_active.1 (List.mem_of_getElem? listed))
    rw [Option.some.inj same]
    exact listed

theorem getElem?_active_of_full (full : ∀ i < s.size, s.isActive i = true) (active : s.get? i = some entry) :
    s.active[i]? = some (i, entry) := by
  have inside : i < (List.range s.size).length := by
    rw [List.length_range]
    exact lt_size active
  have number := List.nodup_range.idxOf_getElem i inside
  rw [List.getElem_range] at number
  rw [getElem?_active_iff, ordinals_of_full full]
  exact ⟨active, number⟩

/-! ## Occupied slots after a change -/

@[simp] theorem isActive_map (f : β → β) (s : Slots β) (i : Nat) : (s.map f).isActive i = s.isActive i := by
  simp [isActive]

@[simp] theorem isActive_modify (s : Slots β) (i : Nat) (change : β → β) (l : Nat) :
    (s.modify i change).isActive l = s.isActive l := by
  rw [isActive, isActive, get?_modify]
  split <;> simp

theorem isActive_clear (s : Slots β) (i l : Nat) : (s.clear i).isActive l = (s.isActive l && l != i) := by
  rw [isActive, isActive, get?_clear]
  by_cases same : i = l
  · subst same
    simp
  · simp [same, Ne.symm same]

theorem isActive_push (s : Slots β) (entry : β) (l : Nat) :
    (s.push entry).isActive l = (s.isActive l || l == s.size) := by
  rw [isActive, isActive, get?_push]
  by_cases last : l = s.size <;> simp [last]

theorem isActive_push_of_full (full : ∀ i < s.size, s.isActive i = true) (entry : β) :
    ∀ i < (s.push entry).size, (s.push entry).isActive i = true := by
  intro i inside
  rw [size_push] at inside
  rw [isActive_push, Bool.or_eq_true, beq_iff_eq]
  by_cases last : i = s.size
  · exact .inr last
  · exact .inl (full i (by omega))

theorem isActive_modify_of_full (full : ∀ i < s.size, s.isActive i = true) (k : Nat) (change : β → β) :
    ∀ i < (s.modify k change).size, (s.modify k change).isActive i = true := by
  intro i inside
  rw [size_modify] at inside
  rw [isActive_modify]
  exact full i inside

/-! ## Occupied slots and their number -/

theorem active_map (f : β → β) (s : Slots β) :
    (s.map f).active = s.active.map fun entry => (entry.1, f entry.2) := by
  simp only [active, map, Array.toList_map, List.zipIdx_map, List.filterMap_map, List.map_filterMap]
  congr 1
  funext entry
  cases entry with
  | mk cell i => cases cell <;> rfl

@[simp] theorem ordinals_map (f : β → β) (s : Slots β) : (s.map f).ordinals = s.ordinals := by
  simp only [ordinals_eq_filter, size_map, funext (isActive_map f s)]

@[simp] theorem ordinals_modify (s : Slots β) (i : Nat) (change : β → β) :
    (s.modify i change).ordinals = s.ordinals := by
  simp only [ordinals_eq_filter, size_modify, funext (isActive_modify s i change)]

theorem ordinals_push (s : Slots β) (entry : β) : (s.push entry).ordinals = s.ordinals ++ [s.size] := by
  have before : (List.range s.size).filter (s.push entry).isActive =
      (List.range s.size).filter s.isActive := by
    apply List.filter_congr
    intro i listed
    have apart : (i == s.size) = false := beq_false_of_ne (Nat.ne_of_lt (List.mem_range.1 listed))
    rw [isActive_push, apart, Bool.or_false]
  rw [ordinals_eq_filter, size_push, List.range_succ, List.filter_append, before, ordinals_eq_filter]
  simp [isActive_push]

theorem ordinals_clear (s : Slots β) (i : Nat) : (s.clear i).ordinals = s.ordinals.erase i := by
  rw [s.nodup_ordinals.erase_eq_filter, ordinals_eq_filter, ordinals_eq_filter, size_clear,
    List.filter_filter]
  congr 1
  funext l
  rw [isActive_clear, Bool.and_comm]

def IsCounted (s : Slots β) : Prop :=
  s.active.length = s.occupied

namespace IsCounted

theorem of_ordinals {t : Slots β} (counted : s.IsCounted) (ordinals : t.ordinals = s.ordinals)
    (occupied : t.occupied = s.occupied) : t.IsCounted := by
  rw [IsCounted, ← length_ordinals, ordinals, length_ordinals, occupied]
  exact counted

theorem ext {t : Slots β} (counted : s.IsCounted) (also : t.IsCounted) (sizes : s.size = t.size)
    (entries : ∀ i, s.get? i = t.get? i) : s = t := by
  have ordinals : s.ordinals = t.ordinals := by
    have active : s.isActive = t.isActive := funext fun i => congrArg Option.isSome (entries i)
    rw [ordinals_eq_filter, ordinals_eq_filter, sizes, active]
  refine ext_get? sizes ?_ entries
  rw [← counted, ← also, ← length_ordinals, ordinals, length_ordinals]

theorem map (counted : s.IsCounted) (f : β → β) : (s.map f).IsCounted :=
  counted.of_ordinals (ordinals_map f s) rfl

theorem modify (counted : s.IsCounted) (i : Nat) (change : β → β) : (s.modify i change).IsCounted :=
  counted.of_ordinals (ordinals_modify s i change) rfl

theorem push (counted : s.IsCounted) (entry : β) : (s.push entry).IsCounted := by
  rw [IsCounted, ← length_ordinals, ordinals_push, List.length_append, length_ordinals, counted]
  rfl

theorem clear (counted : s.IsCounted) (active : s.isActive i = true) : (s.clear i).IsCounted := by
  rw [IsCounted, ← length_ordinals, ordinals_clear, List.length_erase_of_mem (mem_ordinals.2 active),
    length_ordinals, counted]
  rfl

end IsCounted

/-! ## Tables before and after -/

/-- An earlier table, of which at most one slot was emptied since then. -/
structure Restores {γ δ : Type} (s : Slots γ) (t : Slots δ) (emptied : Option Nat) : Prop where
  size_le : s.size ≤ t.size
  occupied : ∀ i < s.size, s.isActive i = (t.isActive i || emptied == some i)

namespace Restores

variable {γ δ : Type} {s : Slots γ} {t : Slots δ} {i : Nat}

theorem refl (s : Slots β) : s.Restores s none :=
  ⟨Nat.le_refl _, fun i _ => by simp⟩

theorem of_isSome (sizes : s.size ≤ t.size) (kept : ∀ i < s.size, (t.get? i).isSome = (s.get? i).isSome) :
    s.Restores t none :=
  ⟨sizes, fun i inside => by simp [isActive, kept i inside]⟩

theorem clear (active : s.isActive i = true) : s.Restores (s.clear i) (some i) := by
  refine ⟨Nat.le_of_eq (size_clear s i).symm, fun l _ => ?_⟩
  rw [isActive_clear]
  by_cases same : i = l
  · subst same
    simp [active]
  · have apart : (some i == some l) = false := by simpa using same
    simp [apart, Ne.symm same]

theorem some_of_active (restores : s.Restores t none) (active : s.isActive i = true) :
    s.Restores t (some i) := by
  refine ⟨restores.size_le, fun l inside => ?_⟩
  have kept := restores.occupied l inside
  -- Whether the slot counts as emptied only matters if it is empty.
  by_cases same : i = l
  · subst same
    simpa using active
  · have apart : (some i == some l) = false := by simpa using same
    simpa [apart] using kept

theorem isActive (restores : s.Restores t none) (active : s.isActive i = true) : t.isActive i = true := by
  simpa [active] using (restores.occupied i (lt_size_of_isActive active)).symm

end Restores

end Slots

end LinearReduction
