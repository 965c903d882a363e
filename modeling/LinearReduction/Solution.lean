import LinearReduction.Fault

/-!
# Solutions

What a solver knows about a program when it is done. A simplex method gives statuses, primal and dual
values, an interior point method gives primal and dual values, and branch and bound gives primal values
only. The primal value of a row is its activity, the dual value of a column is its reduced cost.
-/

namespace LinearReduction

/-- One quantity for every row and every column. -/
structure Sides (β : Type) where
  rows : List β
  columns : List β
  deriving DecidableEq

/-- Whether two quantities are given for as many rows and as many columns. -/
def Sides.Fits {β γ : Type} (a : Sides β) (b : Sides γ) : Prop :=
  a.rows.length = b.rows.length ∧ a.columns.length = b.columns.length

instance {β γ : Type} (a : Sides β) (b : Sides γ) : Decidable (a.Fits b) :=
  inferInstanceAs (Decidable (_ ∧ _))

def Sides.map {β γ : Type} (f : β → γ) (a : Sides β) : Sides γ :=
  ⟨a.rows.map f, a.columns.map f⟩

theorem Sides.Fits.map {β γ δ : Type} {a : Sides β} {b : Sides γ} (fits : a.Fits b) (f : β → δ) :
    (a.map f).Fits b :=
  ⟨by simpa [Sides.map] using fits.1, by simpa [Sides.map] using fits.2⟩

inductive Kind where
  | basic
  | interiorPoint
  | integer
  deriving DecidableEq, Repr

def Kind.givesStatus : Kind → Bool
  | .basic => true
  | .interiorPoint | .integer => false

def Kind.givesDual : Kind → Bool
  | .basic | .interiorPoint => true
  | .integer => false

/-- The quantities of a solution, each for the same rows and columns. -/
inductive Solution (α : Type) where
  | basic (status : Sides Status) (primal dual : Sides α)
      (status_fits : status.Fits primal) (dual_fits : dual.Fits primal)
  | interiorPoint (primal dual : Sides α) (dual_fits : dual.Fits primal)
  | integer (primal : Sides α)

namespace Solution

variable {α : Type}

def kind : Solution α → Kind
  | .basic .. => .basic
  | .interiorPoint .. => .interiorPoint
  | .integer .. => .integer

/-- Activities of the rows and values of the columns. -/
def primal : Solution α → Sides α
  | .basic _ primal _ _ _ | .interiorPoint primal _ _ | .integer primal => primal

/-- Multipliers of the rows and reduced costs of the columns. -/
def dual? : Solution α → Option (Sides α)
  | .basic _ _ dual _ _ | .interiorPoint _ dual _ => some dual
  | .integer _ => none

def status? : Solution α → Option (Sides Status)
  | .basic status _ _ _ _ => some status
  | .interiorPoint .. | .integer _ => none

/-- A solution of the simplex method, if its quantities belong to the same rows and columns. -/
def ofBasic (status : Sides Status) (primal dual : Sides α) : Except (Fault α) (Solution α) :=
  if fits : status.Fits primal ∧ dual.Fits primal then
    .ok (.basic status primal dual fits.1 fits.2)
  else
    .error (.breached .unevenSolution)

/-- A solution of an interior point method, if its quantities belong to the same rows and columns. -/
def ofInteriorPoint (primal dual : Sides α) : Except (Fault α) (Solution α) :=
  if fits : dual.Fits primal then
    .ok (.interiorPoint primal dual fits)
  else
    .error (.breached .unevenSolution)

/-- A solution of the given kind. Quantities that the kind doesn't have are left out. -/
def ofKind (kind : Kind) (status : Sides Status) (primal dual : Sides α) : Except (Fault α) (Solution α) :=
  match kind with
  | .basic => ofBasic status primal dual
  | .interiorPoint => ofInteriorPoint primal dual
  | .integer => .ok (.integer primal)

/-- The solution with the opposite dual values. They belong to the program with the opposite cost. -/
def withOppositeDual [Neg α] : Solution α → Solution α
  | .basic status primal dual status_fits dual_fits =>
      .basic status primal (dual.map (-·)) status_fits (dual_fits.map _)
  | .interiorPoint primal dual dual_fits =>
      .interiorPoint primal (dual.map (-·)) (dual_fits.map _)
  | .integer primal => .integer primal

end Solution

end LinearReduction
