import LinearReduction.Program.Basic

/-!
# Coherent programs

A test of everything that the reductions rely on: the counts of occupied slots are right, all bounds
are proper, and the two views of the coefficients are the same matrix without zeros and without
repetitions.
-/

namespace LinearReduction

namespace Program

variable {α : Type} [Scalar α]

def countsAgree (p : Program α) : Bool :=
  p.rows.active.length == p.rows.occupied && p.columns.active.length == p.columns.occupied

def boundsProper (p : Program α) : Bool :=
  p.rows.active.all (·.2.bounds.isProper) && p.columns.active.all (·.2.bounds.isProper)

/-- Whether a value is listed exactly once for an ordinal. -/
def listedOnce (entries : Entries α) (k : Nat) (value : α) : Bool :=
  entries.countP (fun (l, other) => l == k && other == value) == 1

/-- Whether every coefficient of a row is not zero and listed once in its column. -/
def rowsMirrored (p : Program α) : Bool :=
  p.rows.active.all fun (i, row) => row.entries.all fun (j, value) =>
    value != 0 && (p.columns.get? j).any (listedOnce ·.entries i value)

/-- Whether every coefficient of a column is not zero and listed once in its row. -/
def columnsMirrored (p : Program α) : Bool :=
  p.columns.active.all fun (j, column) => column.entries.all fun (i, value) =>
    value != 0 && (p.rows.get? i).any (listedOnce ·.entries j value)

/-- Whether no column has two coefficients in the same row. -/
def columnsDistinct (p : Program α) : Bool :=
  p.columns.active.all fun (_, column) => decide column.entries.ordinals.Nodup

def isCoherent (p : Program α) : Bool :=
  p.countsAgree && p.boundsProper && p.rowsMirrored && p.columnsMirrored && p.columnsDistinct

end Program

end LinearReduction
