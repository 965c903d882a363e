import LinearReduction.Session.Elimination
import LinearReduction.Session.StandardForm

/-!
# Reductions by name

All reductions as one operation, applied to the row or column with a given ordinal.
-/

namespace LinearReduction

inductive Added where
  | nothing
  | column (ordinal : Nat)
  | columnAndRow (column row : Nat)
  deriving DecidableEq, Repr

def Step.reduce {α : Type} [Scalar α] (r : Reduction) (ordinal : Nat) : Step α Added :=
  match r with
  | .dropFreeRow => do dropFreeRow ordinal; return .nothing
  | .addSurplus => return .column (← addSurplus ordinal)
  | .addSlack => return .column (← addSlack ordinal)
  | .splitFree => return .column (← splitFree ordinal)
  | .shiftLower => do shiftLower ordinal; return .nothing
  | .flipUpper => do flipUpper ordinal; return .nothing
  | .splitUpper => do
      let (companion, row) ← splitUpper ordinal
      return .columnAndRow companion row
  | .substituteFixed => do substituteFixed ordinal; return .nothing
  | .dropEmptyRow => do dropEmptyRow ordinal; return .nothing
  | .settleEmpty => do settleEmpty ordinal; return .nothing
  | .settleSingleton => do settleSingleton ordinal; return .nothing

end LinearReduction
