/-!
# Slots

A growing table whose entries keep their position. Removing an entry empties its slot and leaves all
other positions valid, and an emptied slot is never used again. The number of occupied slots is kept
alongside.
-/

namespace LinearReduction

/-- One slot for everything ever added, empty where it was removed. -/
structure Slots (β : Type) where
  cells : Array (Option β)
  occupied : Nat
  deriving DecidableEq

namespace Slots

variable {β : Type}

def empty : Slots β :=
  ⟨#[], 0⟩

def size (s : Slots β) : Nat :=
  s.cells.size

def get? (s : Slots β) (i : Nat) : Option β :=
  s.cells[i]?.join

def isActive (s : Slots β) (i : Nat) : Bool :=
  (s.get? i).isSome

/-- Add an entry in a new slot, at position `s.size`. -/
def push (s : Slots β) (entry : β) : Slots β :=
  ⟨s.cells.push (some entry), s.occupied + 1⟩

def modify (s : Slots β) (i : Nat) (change : β → β) : Slots β :=
  { s with cells := s.cells.modify i (·.map change) }

/-- Empty an occupied slot. -/
def clear (s : Slots β) (i : Nat) : Slots β :=
  ⟨s.cells.setIfInBounds i none, s.occupied - 1⟩

/-- All entries with their positions, in order of position. -/
def active (s : Slots β) : List (Nat × β) :=
  s.cells.toList.zipIdx.filterMap fun (cell, i) => cell.map (i, ·)

/-- Positions of all entries, in increasing order. -/
def ordinals (s : Slots β) : List Nat :=
  s.active.map (·.1)

def map (f : β → β) (s : Slots β) : Slots β :=
  { s with cells := s.cells.map (·.map f) }

@[simp] theorem size_empty : (empty : Slots β).size = 0 := rfl

@[simp] theorem get?_empty (i : Nat) : (empty : Slots β).get? i = none := by
  simp [empty, get?]

@[simp] theorem size_push (s : Slots β) (entry : β) : (s.push entry).size = s.size + 1 := by
  simp [push, size]

@[simp] theorem size_modify (s : Slots β) (i : Nat) (change : β → β) : (s.modify i change).size = s.size := by
  simp [modify, size]

@[simp] theorem size_clear (s : Slots β) (i : Nat) : (s.clear i).size = s.size := by
  simp [clear, size]

@[simp] theorem size_map (f : β → β) (s : Slots β) : (s.map f).size = s.size := by
  simp [map, size]

/-- A new entry stands at the end, all others stay. -/
theorem get?_push (s : Slots β) (entry : β) (i : Nat) :
    (s.push entry).get? i = if i = s.size then some entry else s.get? i := by
  simp only [push, get?, size, Array.getElem?_push]
  by_cases last : i = s.cells.size <;> simp [last]

theorem lt_size_of_isActive {s : Slots β} {i : Nat} (active : s.isActive i) : i < s.size := by
  rcases Nat.lt_or_ge i s.cells.size with inside | outside
  · exact inside
  · simp [isActive, get?, Array.getElem?_eq_none outside] at active

/-- Only the entry at the given position differs. -/
theorem get?_modify (s : Slots β) (i : Nat) (change : β → β) (j : Nat) :
    (s.modify i change).get? j = if i = j then (s.get? j).map change else s.get? j := by
  simp only [modify, get?, Array.getElem?_modify]
  split
  · cases s.cells[j]? <;> rfl
  · rfl

/-- Only the emptied slot differs. -/
theorem get?_clear (s : Slots β) (i j : Nat) :
    (s.clear i).get? j = if i = j then none else s.get? j := by
  simp only [clear, get?, Array.getElem?_setIfInBounds]
  by_cases same : i = j <;> simp [same]
  split <;> rfl

/-- Every entry is changed and none moves. -/
@[simp] theorem get?_map (f : β → β) (s : Slots β) (i : Nat) : (s.map f).get? i = (s.get? i).map f := by
  simp only [map, get?, Array.getElem?_map]
  cases s.cells[i]? <;> rfl

/-- A table is known by its slots, its entries and its count. -/
theorem ext_get? {s t : Slots β} (sizes : s.size = t.size) (counts : s.occupied = t.occupied)
    (entries : ∀ i, s.get? i = t.get? i) : s = t := by
  obtain ⟨cells, occupied⟩ := s
  obtain ⟨others, _⟩ := t
  simp only [size, get?] at sizes counts entries
  subst counts
  congr 1
  refine Array.ext sizes fun i inside inside' => ?_
  have same := entries i
  simpa [Array.getElem?_eq_getElem inside, Array.getElem?_eq_getElem inside'] using same

/-- Listing the entries and looking them up agree. -/
theorem mem_active {s : Slots β} {i : Nat} {entry : β} : (i, entry) ∈ s.active ↔ s.get? i = some entry := by
  simp only [active, get?, List.mem_filterMap, Prod.exists, List.mem_zipIdx_iff_getElem?,
    Array.getElem?_toList]
  constructor
  · rintro ⟨cell, j, found, kept⟩
    cases cell with
    | none => simp at kept
    | some x =>
        simp only [Option.map_some, Option.some.injEq, Prod.mk.injEq] at kept
        obtain ⟨rfl, rfl⟩ := kept
        simp [found]
  · intro found
    refine ⟨some entry, i, ?_, rfl⟩
    cases h : s.cells[i]? with
    | none => simp [h] at found
    | some cell => simp_all

end Slots

end LinearReduction
