import LinearReduction.Program.Coherence
import LinearReduction.Program.Edit

/-!
# Condensed programs

Solvers work with contiguous row and column numbers. A program from which rows and columns were removed
is copied without its empty slots, together with the way back from the new numbers to the ordinals.
-/

namespace LinearReduction

/-- A copy without empty slots, and for each of its rows and columns the ordinal it was copied from. -/
structure Condensed (α : Type) where
  program : Program α
  rowOrdinals : List Nat
  columnOrdinals : List Nat
  deriving DecidableEq

namespace Condensed

open Fault (ensure)

variable {α : Type} [Scalar α]

def copyCoefficient (rowOrdinals : List Nat) (j : Nat) (entry : Nat × α) : Edit α Unit :=
  match rowOrdinals.idxOf? entry.1 with
  | some i => Edit.connect i j entry.2
  | none => throw (.refused (.danglingCoefficient entry.1))

/-- Copy one column with its coefficients, in order of their rows. -/
def copyColumn (rowOrdinals : List Nat) (column : Column α) : Edit α Unit := do
  let j ← Edit.newColumn column.bounds column.domain column.cost
  column.entries.inOrder.forM (copyCoefficient rowOrdinals j)

/-- Copy the rows and columns of a program behind those that are there already. -/
def copyFrom (p : Program α) : Edit α Unit := do
  p.rows.active.forM fun (_, row) => discard (Edit.newRow row.bounds)
  p.columns.active.forM fun (_, column) => copyColumn p.rows.ordinals column
  ensure (← get).isCoherent .incoherentProgram

end Condensed

/-- Copy a program without its empty slots. Rows and columns keep their relative order. -/
def Program.condense {α : Type} [Scalar α] (p : Program α) : Except (Fault α) (Condensed α) :=
  match Condensed.copyFrom p { Program.empty p.sense with fixedCost := p.fixedCost } with
  | .ok _ copy => .ok ⟨copy, p.rows.ordinals, p.columns.ordinals⟩
  | .error fault _ => .error fault

end LinearReduction
