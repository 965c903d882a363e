import LinearReduction.Record

/-!
# Stacks of records

The records of a session, the latest one on top. The coefficients of all records stand in a single arena, one
list behind the other, and a record only says where its own list begins and ends. Nothing is taken off a
stack, and nothing in its arena is ever changed. Main statement: a record is read as it was stored, and so are
those below it.
-/

namespace LinearReduction

/-- Where a list of coefficients stands in an arena. -/
structure Span where
  start : Nat
  stop : Nat
  deriving DecidableEq

namespace Span

variable {α : Type}

structure Inside (span : Span) (arena : Array (Nat × α)) : Prop where
  start_le : span.start ≤ span.stop
  stop_le : span.stop ≤ arena.size

def read (arena : Array (Nat × α)) (span : Span) : Entries α :=
  (arena.extract span.start span.stop).toList

variable (arena : Array (Nat × α)) (entries : Entries α)

theorem Inside.append {arena : Array (Nat × α)} {span : Span} (inside : span.Inside arena) :
    span.Inside (arena ++ entries.toArray) where
  start_le := inside.start_le
  stop_le := by
    rw [Array.size_append]
    exact Nat.le_add_right_of_le inside.stop_le

theorem read_append {span : Span} (inside : span.Inside arena) :
    span.read (arena ++ entries.toArray) = span.read arena := by
  have beyond : span.stop - arena.size = 0 := Nat.sub_eq_zero_of_le inside.stop_le
  simp [read, Array.extract_append, beyond]

theorem read_end : read (arena ++ entries.toArray) ⟨arena.size, arena.size + entries.length⟩ = entries := by
  simp [read]

end Span

structure Stack (α : Type) where
  /-- Records of all reductions, the latest one first. -/
  stored : List (Record α Span)
  arena : Array (Nat × α)
  tally : Tally
  inside : ∀ r ∈ stored, ∀ span, r.entries? = some span → span.Inside arena
  deriving DecidableEq

namespace Stack

variable {α : Type}

def empty : Stack α where
  stored := []
  arena := #[]
  tally := .zero
  inside := nofun

def records (s : Stack α) : List (Record α) :=
  s.stored.map (·.mapEntries (Span.read s.arena))

/-- Copy a list of coefficients into the arena, and tell where it is. -/
def allocate (s : Stack α) (entries : Entries α) : Span × Stack α :=
  (⟨s.arena.size, s.arena.size + entries.length⟩,
    { s with
      arena := s.arena ++ entries.toArray
      inside := fun r listed span found => (s.inside r listed span found).append entries })

/-- Put a record on top whose coefficients are in the arena. -/
def push (s : Stack α) (r : Record α Span)
    (inside : ∀ span, r.entries? = some span → span.Inside s.arena) : Stack α where
  stored := r :: s.stored
  arena := s.arena
  tally := s.tally.add r.reduction
  inside := List.forall_mem_cons.2 ⟨inside, s.inside⟩

theorem inside_allocate (s : Stack α) (entries : Entries α) :
    (s.allocate entries).1.Inside (s.allocate entries).2.arena where
  start_le := Nat.le_add_right ..
  stop_le := Nat.le_of_eq (by simp [allocate])

/-- Put a record on top, and its coefficients into the arena. -/
def store (s : Stack α) (r : Record α) : Stack α :=
  let allocated := s.allocate (r.entries?.getD [])
  allocated.2.push (r.mapEntries fun _ => allocated.1) fun span found => by
    rw [Record.entries?_mapEntries, Option.map_eq_some_iff] at found
    obtain ⟨_, _, rfl⟩ := found
    exact s.inside_allocate _

def ofRecords (records : List (Record α)) : Stack α :=
  records.foldr (fun r s => s.store r) empty

@[simp] theorem records_empty : (empty : Stack α).records = [] := rfl

@[simp] theorem tally_store (s : Stack α) (r : Record α) : (s.store r).tally = s.tally.add r.reduction :=
  congrArg s.tally.add (Record.reduction_mapEntries _ r)

theorem records_allocate (s : Stack α) (entries : Entries α) :
    (s.allocate entries).2.records = s.records := by
  refine List.map_congr_left fun r listed => Record.mapEntries_congr fun span found => ?_
  exact Span.read_append s.arena entries (s.inside r listed span found)

/-- A record is read as it was stored, and those below it as before. -/
@[simp] theorem records_store (s : Stack α) (r : Record α) : (s.store r).records = r :: s.records := by
  have below := s.records_allocate (r.entries?.getD [])
  have top : (r.mapEntries fun _ => (s.allocate (r.entries?.getD [])).1).mapEntries
      (Span.read (s.allocate (r.entries?.getD [])).2.arena) = r := by
    rw [Record.mapEntries_mapEntries]
    refine (Record.mapEntries_congr fun entries found => ?_).trans r.mapEntries_id
    rw [found]
    exact Span.read_end s.arena entries
  exact List.cons_eq_cons.2 ⟨top, below⟩

@[simp] theorem records_ofRecords (records : List (Record α)) : (ofRecords records).records = records := by
  induction records with
  | nil => rfl
  | cons r rest inductionHypothesis => exact (records_store ..).trans (congrArg (r :: ·) inductionHypothesis)

end Stack

end LinearReduction
