import LinearReduction.Program.Basic
import LinearReduction.Status

/-!
# Records

Each reduction leaves a record with exactly what is needed to undo it, the coefficients as they were when it
was made. Rows and columns are named by their ordinals.
-/

namespace LinearReduction

/-- The ways of reducing a program, one step at a time. -/
inductive Reduction where
  /-- Remove a row without bounds. -/
  | dropFreeRow
  /-- Make a row an equality at its lower bound. -/
  | addSurplus
  /-- Make a row an equality at its upper bound. -/
  | addSlack
  /-- Write a column without bounds as a difference of nonnegative columns. -/
  | splitFree
  /-- Measure a column from its lower bound. -/
  | shiftLower
  /-- Measure a column downwards from its upper bound. -/
  | flipUpper
  /-- Move the upper bound of a nonnegative column into a row. -/
  | splitUpper
  /-- Substitute a column whose bounds coincide. -/
  | substituteFixed
  /-- Remove a row without coefficients. -/
  | dropEmptyRow
  /-- Fix a column without coefficients at its best bound. -/
  | settleEmpty
  /-- Fix the only column of an equality row. -/
  | settleSingleton
  deriving DecidableEq, Repr

namespace Reduction

/-- All reductions, each at its index. -/
def all : Vector Reduction 11 :=
  #v[dropFreeRow, addSurplus, addSlack, splitFree, shiftLower, flipUpper, splitUpper,
    substituteFixed, dropEmptyRow, settleEmpty, settleSingleton]

def index : Reduction → Fin 11
  | dropFreeRow => 0
  | addSurplus => 1
  | addSlack => 2
  | splitFree => 3
  | shiftLower => 4
  | flipUpper => 5
  | splitUpper => 6
  | substituteFixed => 7
  | dropEmptyRow => 8
  | settleEmpty => 9
  | settleSingleton => 10

theorem get_all_index (r : Reduction) : all.get r.index = r := by
  cases r <;> rfl

theorem index_inj {r s : Reduction} : r.index = s.index ↔ r = s :=
  ⟨fun same => by rw [← get_all_index r, ← get_all_index s, same], fun same => by rw [same]⟩

end Reduction

/-- What is needed to undo one reduction. A record owns the coefficients that it needs, or says where they
    are. -/
inductive Record (α : Type) (ι : Type := Entries α) where
  /-- The row was removed, its activity follows from its coefficients. -/
  | dropFreeRow (row : Nat) (entries : ι)
  /-- The activity of the row exceeds its lower bound by the value of a new column. -/
  | addSurplus (row column : Nat)
  /-- The activity of the row falls short of its upper bound by the value of a new column. -/
  | addSlack (row column : Nat)
  /-- The column is what it is now less the value of a new column. -/
  | splitFree (column negativePart : Nat)
  /-- The column is its lower bound plus what it is now. The coefficients were not changed. -/
  | shiftLower (column : Nat) (bound : α) (entries : ι)
  /-- The column is its upper bound less what it is now. The coefficients are from before they were
      negated. -/
  | flipUpper (column : Nat) (bound : α) (entries : ι)
  /-- The column and a new column, its companion, make up the upper bound in a new row. -/
  | splitUpper (column companion row : Nat) (bound : α)
  /-- The column was removed with a value, its reduced cost follows from its coefficients. -/
  | substituteFixed (column : Nat) (value cost : α) (entries : ι)
  /-- The row was removed. -/
  | dropEmptyRow (row : Nat)
  /-- The column was fixed, which the next record tells. Before that it had a status of its own. -/
  | settleEmpty (column : Nat) (value : α) (status : Status)
  /-- The row was removed and its column was fixed, which the next record tells. -/
  | settleSingleton (row column : Nat) (coefficient value : α)
  deriving DecidableEq

namespace Record

variable {α ι κ : Type}

def reduction : Record α ι → Reduction
  | .dropFreeRow .. => .dropFreeRow
  | .addSurplus .. => .addSurplus
  | .addSlack .. => .addSlack
  | .splitFree .. => .splitFree
  | .shiftLower .. => .shiftLower
  | .flipUpper .. => .flipUpper
  | .splitUpper .. => .splitUpper
  | .substituteFixed .. => .substituteFixed
  | .dropEmptyRow .. => .dropEmptyRow
  | .settleEmpty .. => .settleEmpty
  | .settleSingleton .. => .settleSingleton

/-- The coefficients of a record, or where they are. -/
def entries? : Record α ι → Option ι
  | .dropFreeRow _ entries | .shiftLower _ _ entries | .flipUpper _ _ entries
  | .substituteFixed _ _ _ entries => some entries
  | _ => none

def mapEntries (change : ι → κ) : Record α ι → Record α κ
  | .dropFreeRow i entries => .dropFreeRow i (change entries)
  | .addSurplus i j => .addSurplus i j
  | .addSlack i j => .addSlack i j
  | .splitFree j k => .splitFree j k
  | .shiftLower j bound entries => .shiftLower j bound (change entries)
  | .flipUpper j bound entries => .flipUpper j bound (change entries)
  | .splitUpper j k i bound => .splitUpper j k i bound
  | .substituteFixed j value cost entries => .substituteFixed j value cost (change entries)
  | .dropEmptyRow i => .dropEmptyRow i
  | .settleEmpty j value status => .settleEmpty j value status
  | .settleSingleton i j coefficient value => .settleSingleton i j coefficient value

@[simp] theorem reduction_mapEntries (change : ι → κ) (r : Record α ι) :
    (r.mapEntries change).reduction = r.reduction := by
  cases r <;> rfl

@[simp] theorem entries?_mapEntries (change : ι → κ) (r : Record α ι) :
    (r.mapEntries change).entries? = r.entries?.map change := by
  cases r <;> rfl

@[simp] theorem mapEntries_id (r : Record α ι) : r.mapEntries id = r := by
  cases r <;> rfl

@[simp] theorem mapEntries_mapEntries {μ : Type} (f : ι → κ) (g : κ → μ) (r : Record α ι) :
    (r.mapEntries f).mapEntries g = r.mapEntries (g ∘ f) := by
  cases r <;> rfl

theorem mapEntries_congr {r : Record α ι} {f g : ι → κ}
    (alike : ∀ entries, r.entries? = some entries → f entries = g entries) :
    r.mapEntries f = r.mapEntries g := by
  cases r with
  | dropFreeRow i entries => exact congrArg (Record.dropFreeRow i) (alike entries rfl)
  | shiftLower j bound entries => exact congrArg (Record.shiftLower j bound) (alike entries rfl)
  | flipUpper j bound entries => exact congrArg (Record.flipUpper j bound) (alike entries rfl)
  | substituteFixed j value cost entries =>
    exact congrArg (Record.substituteFixed j value cost) (alike entries rfl)
  | _ => rfl

end Record

structure Tally where
  counts : Vector Nat 11
  deriving DecidableEq

namespace Tally

def zero : Tally :=
  ⟨.replicate 11 0⟩

def count (t : Tally) (r : Reduction) : Nat :=
  t.counts[r.index]

def add (t : Tally) (r : Reduction) : Tally :=
  ⟨t.counts.set r.index (t.count r + 1)⟩

@[simp] theorem count_zero (r : Reduction) : zero.count r = 0 := by
  simp [zero, count]

/-- Only one count goes up. -/
theorem count_add (t : Tally) (r s : Reduction) :
    (t.add r).count s = if r = s then t.count s + 1 else t.count s := by
  by_cases same : r = s
  · subst same
    simp [add, count]
  · have apart : r.index.val ≠ s.index.val := fun equal => same (Reduction.index_inj.1 (Fin.ext equal))
    simp [add, count, apart, same]

end Tally

end LinearReduction
