import LinearReduction.Proofs.Program.Transposed
import LinearReduction.Session.Elimination

/-!
# Reductions as rewrites

What a reduction makes of a program and which record it leaves, apart from how it is carried out. A rewrite
takes everything that the reduction checked as a premise. Fixing a column takes two records, one that tells
why and one that the column is gone, and nothing comes between them. Main statements: a history of moves is
a chain of rewrites, and both views of the coefficients stay in agreement along it.
-/

namespace LinearReduction

variable {α : Type} [Scalar α]

/-- One reduction of a program, with the record that it leaves. -/
inductive Rewrite (settings : Settings α) : Program α → Record α → Program α → Prop where
  | dropFreeRow {p : Program α} {i : Nat} {row : Row α} (active : p.rows.get? i = some row)
      (free : row.bounds.isFree = true) : Rewrite settings p (.dropFreeRow i row.entries) (p.withoutRow i)
  | addSurplus {p : Program α} {i : Nat} {row : Row α} (active : p.rows.get? i = some row)
      (finite : Scalar.isFinite row.bounds.lower = true) (inequality : row.bounds.lower < row.bounds.upper) :
      Rewrite settings p (.addSurplus i p.columns.size) (p.withRange i row.bounds.range (-1) row.bounds.lower)
  | addSlack {p : Program α} {i : Nat} {row : Row α} (active : p.rows.get? i = some row)
      (finite : Scalar.isFinite row.bounds.upper = true) (inequality : row.bounds.lower < row.bounds.upper) :
      Rewrite settings p (.addSlack i p.columns.size) (p.withRange i row.bounds.range 1 row.bounds.upper)
  | splitFree {p : Program α} {j : Nat} {column : Column α} (active : p.columns.get? j = some column)
      (free : column.bounds.isFree = true) :
      Rewrite settings p (.splitFree j p.columns.size) (p.splitColumn j column)
  | shiftLower {p : Program α} {j : Nat} {column : Column α} (active : p.columns.get? j = some column)
      (finite : Scalar.isFinite column.bounds.lower = true) :
      Rewrite settings p (.shiftLower j column.bounds.lower column.entries) (p.shiftedColumn j column)
  | flipUpper {p : Program α} {j : Nat} {column : Column α} (active : p.columns.get? j = some column)
      (finite : Scalar.isFinite column.bounds.upper = true) :
      Rewrite settings p (.flipUpper j column.bounds.upper column.entries) (p.flippedColumn j column)
  | splitUpper {p : Program α} {j : Nat} {column : Column α} (active : p.columns.get? j = some column)
      (grounded : (column.bounds.lower == 0) = true) (finite : Scalar.isFinite column.bounds.upper = true) :
      Rewrite settings p (.splitUpper j p.columns.size p.rows.size column.bounds.upper)
        (p.cappedColumn j column.bounds.upper)
  | substituteFixed {p : Program α} {j : Nat} {column : Column α} (active : p.columns.get? j = some column)
      (fixed : column.bounds.isPoint = true) (finite : Scalar.isFinite column.bounds.lower = true) :
      Rewrite settings p (.substituteFixed j column.bounds.lower column.cost column.entries)
        (p.substituted j column)
  | dropEmptyRow {p : Program α} {i : Nat} {row : Row α} (active : p.rows.get? i = some row)
      (empty : row.entries = [])
      (within : ¬ (row.bounds.lower > settings.absoluteTolerance ∨ row.bounds.upper <
        -settings.absoluteTolerance)) :
      Rewrite settings p (.dropEmptyRow i) (p.withoutRow i)
  | settleEmpty {p : Program α} {j : Nat} {column : Column α} (active : p.columns.get? j = some column)
      (empty : column.entries = [])
      (bounded : Step.isUnboundedDirection column.bounds column.cost settings.absoluteTolerance = false) :
      Rewrite settings p
        (.settleEmpty j (Step.bestValue column.bounds column.cost).1
          (Step.bestValue column.bounds column.cost).2)
        (p.boundedColumn j (.point (Step.bestValue column.bounds column.cost).1))
  | settleSingleton {p : Program α} {i j : Nat} {row : Row α} {column : Column α} {coefficient : α}
      (row_active : p.rows.get? i = some row) (equality : row.bounds.isPoint = true)
      (single : row.entries = [(j, coefficient)]) (column_active : p.columns.get? j = some column)
      (admitted : Step.admits settings column.bounds (row.bounds.lower / coefficient) = true) :
      Rewrite settings p (.settleSingleton i j coefficient (row.bounds.lower / coefficient))
        (p.settledBy i j (row.bounds.lower / coefficient))

/-- The column that a record leaves for the next record to remove. -/
def Record.settled? : Record α → Option Nat
  | .settleEmpty j _ _ | .settleSingleton _ j _ _ => some j
  | _ => none

/-- What happens to a program at once: a single rewrite, or two of them when a column is settled. -/
inductive Move (settings : Settings α) : Program α → List (Record α) → Program α → Prop where
  | single {p q : Program α} {r : Record α} (rewrite : Rewrite settings p r q)
      (unsettled : r.settled? = none) : Move settings p [r] q
  | settled {p q : Program α} {r : Record α} {j : Nat} {column : Column α} (rewrite : Rewrite settings p r q)
      (settles : r.settled? = some j) (active : q.columns.get? j = some column)
      (fixed : column.bounds.isPoint = true) (finite : Scalar.isFinite column.bounds.lower = true) :
      Move settings p [.substituteFixed j column.bounds.lower column.cost column.entries, r]
        (q.substituted j column)

/-- Moves one after the other, with their records, the latest one first. -/
inductive History (settings : Settings α) (p : Program α) : List (Record α) → Program α → Prop where
  | refl : History settings p [] p
  | move {q u : Program α} {records news : List (Record α)} (before : History settings p records q)
      (move : Move settings q news u) : History settings p (news ++ records) u

/-- Rewrites one after the other, with their records, the latest one first. -/
inductive Rewrites (settings : Settings α) (p : Program α) : List (Record α) → Program α → Prop where
  | refl : Rewrites settings p [] p
  | rewrite {q u : Program α} {records : List (Record α)} {r : Record α}
      (before : Rewrites settings p records q)
      (rewrite : Rewrite settings q r u) : Rewrites settings p (r :: records) u

variable {settings : Settings α} {p q u : Program α} {records news : List (Record α)} {r : Record α}

namespace History

theorem trans (first : History settings p records q) (later : History settings q news u) :
    History settings p (news ++ records) u := by
  induction later with
  | refl => exact first
  | move before move inductionHypothesis =>
    rw [List.append_assoc]
    exact .move inductionHypothesis move

theorem of_move (move : Move settings p news q) : History settings p news q := by
  have history := History.move .refl move
  rwa [List.append_nil] at history

theorem rewrites (history : History settings p records q) : Rewrites settings p records q := by
  -- A move that settles a column takes two rewrites, the second of which removes the column.
  induction history with
  | refl => exact .refl
  | move before move inductionHypothesis =>
    cases move with
    | single rewrite unsettled => exact .rewrite inductionHypothesis rewrite
    | settled rewrite settles active fixed finite =>
      exact .rewrite (.rewrite inductionHypothesis rewrite) (.substituteFixed active fixed finite)

end History

theorem Rewrites.preserves {holds : Program α → Prop}
    (step : ∀ {p q : Program α} {r : Record α}, Rewrite settings p r q → holds p → holds q)
    (rewrites : Rewrites settings p records q) (start : holds p) : holds q := by
  induction rewrites with
  | refl => exact start
  | rewrite before rewrite inductionHypothesis => exact step rewrite inductionHypothesis

/-! ## Agreement of the two views -/

theorem Rewrite.transposed (rewrite : Rewrite settings p r q) (same : p.Transposed) : q.Transposed := by
  cases rewrite with
  | dropFreeRow active free => exact same.withoutRow _
  | addSurplus active finite inequality => exact same.withRange active _ _ _
  | addSlack active finite inequality => exact same.withRange active _ _ _
  | splitFree active free => exact same.splitColumn active
  | shiftLower active finite => exact same.shiftedColumn active
  | flipUpper active finite => exact same.flippedColumn active
  | splitUpper active grounded finite => exact same.cappedColumn active _
  | substituteFixed active fixed finite => exact same.substituted active
  | dropEmptyRow active empty within => exact same.withoutRow _
  | settleEmpty active empty bounded => exact same.boundedColumn _ _
  | settleSingleton row_active equality single column_active admitted => exact same.settledBy _ _ _

theorem History.transposed (history : History settings p records q) (same : p.Transposed) : q.Transposed :=
  history.rewrites.preserves Rewrite.transposed same

/-! ## Sense -/

theorem Rewrite.sense_eq (rewrite : Rewrite settings p r q) : q.sense = p.sense := by
  cases rewrite with
  | splitFree active free => exact Program.sense_linkAll ..
  | shiftLower active finite => exact Program.sense_offset ..
  | flipUpper active finite => exact Program.sense_offset ..
  | substituteFixed active fixed finite => exact Program.sense_offset ..
  | _ => rfl

theorem Rewrites.sense_eq (rewrites : Rewrites settings p records q) : q.sense = p.sense := by
  induction rewrites with
  | refl => rfl
  | rewrite before rewrite inductionHypothesis => exact rewrite.sense_eq.trans inductionHypothesis

/-! ## Rows and columns before and after -/

/-- The row that a reduction removes or makes an equality. -/
def Record.ownRow? : Record α → Option Nat
  | .dropFreeRow i _ | .addSurplus i _ | .addSlack i _ | .dropEmptyRow i | .settleSingleton i _ _ _ => some i
  | _ => none

/-- The column that a reduction changes or removes. -/
def Record.ownColumn? : Record α → Option Nat
  | .splitFree j _ | .shiftLower j _ _ | .flipUpper j _ _ | .splitUpper j _ _ _ | .substituteFixed j _ _ _
  | .settleEmpty j _ _ | .settleSingleton _ j _ _ => some j
  | _ => none

def Record.newRow? : Record α → Option Nat
  | .splitUpper _ _ i _ => some i
  | _ => none

def Record.newColumn? : Record α → Option Nat
  | .addSurplus _ j | .addSlack _ j | .splitFree _ j | .splitUpper _ j _ _ => some j
  | _ => none

def Record.emptiedRow? : Record α → Option Nat
  | .dropFreeRow i _ | .dropEmptyRow i | .settleSingleton i _ _ _ => some i
  | _ => none

def Record.emptiedColumn? : Record α → Option Nat
  | .substituteFixed j _ _ _ => some j
  | _ => none

theorem Program.rows_restored_withRange (p : Program α) (i : Nat) (range : Bounds α) (c b : α) :
    p.rows.Restores (p.withRange i range c b).rows none := by
  refine .of_isSome (by simp [Program.withRange, Program.boundedRow, Program.link, Program.adjustRow,
    Program.adjustColumn, Program.pushColumn]) fun l _ => ?_
  rw [Program.rows_withRange]
  split <;> simp

theorem Program.columns_restored_withRange (p : Program α) (i : Nat) (range : Bounds α) (c b : α) :
    p.columns.Restores (p.withRange i range c b).columns none := by
  refine .of_isSome (by simp [Program.withRange, Program.boundedRow, Program.link, Program.adjustRow,
    Program.adjustColumn, Program.pushColumn]) fun k inside => ?_
  rw [Program.columns_withRange, if_neg (Nat.ne_of_lt inside)]

/-- A reduction removes at most the row that its record says. Rows that it adds come last. -/
theorem Rewrite.rows_restored (rewrite : Rewrite settings p r q) (same : p.Transposed) :
    p.rows.Restores q.rows r.emptiedRow? := by
  cases rewrite with
  | dropFreeRow active free => exact .clear (Slots.isActive_of_eq_some active)
  | addSurplus active finite inequality => exact Program.rows_restored_withRange ..
  | addSlack active finite inequality => exact Program.rows_restored_withRange ..
  -- Coefficients are added to rows that are there, and no row comes or goes.
  | splitFree active free =>
    refine .of_isSome (by rw [Program.splitColumn, Program.size_rows_linkAll]; exact Nat.le_refl _)
      fun l _ => ?_
    rw [Program.rows_splitColumn _ (same.columns_nodup _ _ active), Option.isSome_map]
  | shiftLower active finite =>
    refine .of_isSome (Nat.le_of_eq (Program.size_rows_offset _ _ _).symm) fun l _ => ?_
    rw [Program.rows_shiftedColumn _ (same.columns_nodup _ _ active), Option.isSome_map]
  | flipUpper active finite =>
    refine .of_isSome ?_ fun l _ => ?_
    · rw [Program.flippedColumn, Program.rows_boundedColumn, Program.negatedColumn, Slots.size_map]
      exact Nat.le_of_eq (Program.size_rows_offset _ _ _).symm
    · rw [Program.rows_flippedColumn _ (same.columns_nodup _ _ active), Option.isSome_map]
  | splitUpper active grounded finite =>
    refine .of_isSome (by simp [Program.cappedColumn, Program.boundedColumn, Program.link, Program.adjustRow,
      Program.adjustColumn, Program.pushColumn, Program.pushRow]) fun l inside => ?_
    rw [Program.rows_cappedColumn, if_neg (Nat.ne_of_lt inside)]
  | substituteFixed active fixed finite =>
    refine .of_isSome ?_ fun l _ => ?_
    · refine Nat.le_of_eq (Eq.trans ?_ (Program.size_rows_offset _ _ _).symm)
      exact (Slots.size_map ..).symm
    · rw [Program.rows_substituted _ (same.columns_nodup _ _ active), Option.isSome_map]
  | dropEmptyRow active empty within => exact .clear (Slots.isActive_of_eq_some active)
  | settleEmpty active empty bounded => exact .refl _
  | settleSingleton row_active equality single column_active admitted =>
    exact .clear (Slots.isActive_of_eq_some row_active)

/-- A reduction removes at most the column that its record says. Columns that it adds come last. -/
theorem Rewrite.columns_restored (rewrite : Rewrite settings p r q) :
    p.columns.Restores q.columns r.emptiedColumn? := by
  cases rewrite with
  | dropFreeRow active free =>
    exact .of_isSome (Nat.le_of_eq (Slots.size_map ..).symm) fun k _ => by
      rw [Program.columns_withoutRow, Option.isSome_map]
  | addSurplus active finite inequality => exact Program.columns_restored_withRange ..
  | addSlack active finite inequality => exact Program.columns_restored_withRange ..
  | splitFree active free =>
    refine .of_isSome ?_ fun k inside => ?_
    · rw [Program.splitColumn, Program.size_columns_linkAll]
      simp [Program.boundedColumn, Program.adjustColumn, Program.pushColumn]
    · rw [Program.columns_splitColumn, if_neg (Nat.ne_of_lt inside)]
      split <;> simp
  | shiftLower active finite =>
    refine .of_isSome ?_ fun k _ => ?_
    · refine Nat.le_of_eq (Eq.trans ?_ (Slots.size_modify ..).symm)
      exact congrArg Slots.size (Program.columns_offset ..).symm
    · rw [Program.columns_shiftedColumn]
      split <;> simp
  -- Three changes of one column keep all slots as they are.
  | flipUpper active finite =>
    refine .of_isSome ?_ fun k _ => ?_
    · refine Nat.le_of_eq (Eq.trans ?_ (Slots.size_modify ..).symm)
      refine Eq.trans ?_ (Slots.size_modify ..).symm
      refine Eq.trans ?_ (Slots.size_modify ..).symm
      exact congrArg Slots.size (Program.columns_offset ..).symm
    · rw [Program.columns_flippedColumn]
      split <;> simp
  | splitUpper active grounded finite =>
    refine .of_isSome (by simp [Program.cappedColumn, Program.boundedColumn, Program.link, Program.adjustRow,
      Program.adjustColumn, Program.pushColumn, Program.pushRow]) fun k inside => ?_
    rw [Program.columns_cappedColumn _ (Slots.lt_size active), if_neg (Nat.ne_of_lt inside)]
    split <;> simp
  | substituteFixed active fixed finite =>
    rw [Program.substituted, Program.absorbed, Program.columns_offset]
    exact .clear (Slots.isActive_of_eq_some active)
  | dropEmptyRow active empty within =>
    exact .of_isSome (Nat.le_of_eq (Slots.size_map ..).symm) fun k _ => by
      rw [Program.columns_withoutRow, Option.isSome_map]
  | settleEmpty active empty bounded =>
    refine .of_isSome (Nat.le_of_eq (Slots.size_modify ..).symm) fun k _ => ?_
    rw [Program.columns_boundedColumn]
    split <;> simp
  | settleSingleton row_active equality single column_active admitted =>
    refine .of_isSome (Nat.le_of_eq ((Slots.size_modify ..).trans (Slots.size_map ..)).symm) fun k _ => ?_
    rw [Program.columns_settledBy, Option.isSome_map]

end LinearReduction
