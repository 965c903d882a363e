import LinearReduction.Proofs.Recovery.Valuation
import LinearReduction.Proofs.Session.Rewrite

/-!
# Records undone

What undoing a record makes of a valuation, as a plain function. Undoing it in what is known never asks for
anything unknown: the rows and columns that a record names are active after the reduction, or get their value
from the record itself. Main statements: one for each of the three quantities, and that only the row and the
column that a record is about get other values.
-/

namespace LinearReduction

variable {α : Type} [Scalar α]

/-- Add the share that a part of a column has in the activities of its rows. -/
def Valuation.addActivities (v : Valuation α) (entries : Entries α) (value : α) : Valuation α :=
  entries.foldl (fun v entry => v.setRow entry.1 (v.rows entry.1 + entry.2 * value)) v

namespace Record

/-- Primal values before a reduction, given those after it. -/
def primalBefore (v : Valuation α) : Record α → Valuation α
  | .dropFreeRow i entries => v.setRow i (Scalar.sum (entries.map fun entry => entry.2 * v.columns entry.1))
  | .addSurplus i j => v.setRow i (v.rows i + v.columns j)
  | .addSlack i j => v.setRow i (v.rows i + -v.columns j)
  | .splitFree j k => v.setColumn j (v.columns j - v.columns k)
  | .shiftLower j bound entries => (v.setColumn j (bound + v.columns j)).addActivities entries bound
  | .flipUpper j bound entries => (v.setColumn j (bound - v.columns j)).addActivities entries bound
  | .splitUpper .. | .settleEmpty .. => v
  | .substituteFixed j value _ entries => (v.setColumn j value).addActivities entries value
  | .dropEmptyRow i => v.setRow i 0
  | .settleSingleton i j coefficient _ => v.setRow i (coefficient * v.columns j)

/-- Dual values before a reduction, given those after it. -/
def dualBefore (v : Valuation α) : Record α → Valuation α
  | .dropFreeRow i _ | .dropEmptyRow i => v.setRow i 0
  | .addSurplus i j => v.setRow i (v.columns j)
  | .addSlack i j => v.setRow i (-v.columns j)
  | .splitFree j _ => v.setColumn j 0
  | .shiftLower .. | .settleEmpty .. => v
  | .flipUpper j _ _ => v.setColumn j (-v.columns j)
  | .splitUpper j k _ _ => v.setColumn j (v.columns j - v.columns k)
  | .substituteFixed j _ cost entries =>
      v.setColumn j (cost - Scalar.sum (entries.map fun entry => entry.2 * v.rows entry.1))
  | .settleSingleton i j coefficient _ => (v.setRow i (v.columns j / coefficient)).setColumn j 0

/-- Statuses before a reduction, given those after it. The upper bound of a column that was moved into a row
    leaves some pairs of statuses without an answer. -/
def statusBefore (v : Valuation Status) : Record α → Except (Fault α) (Valuation Status)
  | .dropFreeRow i _ | .dropEmptyRow i => .ok (v.setRow i .basic)
  | .addSurplus i j => .ok (v.setRow i (v.columns j))
  | .addSlack i j => .ok (v.setRow i (v.columns j).opposite)
  | .splitFree j k =>
    .ok (v.setColumn j (differenceStatus ((v.columns j).isNonbasic && (v.columns k).isNonbasic)))
  | .shiftLower .. => .ok v
  | .flipUpper j _ _ => .ok (v.setColumn j (v.columns j).opposite)
  | .splitUpper j k _ _ => (boundedStatus (v.columns j) (v.columns k)).map (v.setColumn j)
  | .substituteFixed j _ _ _ => .ok (v.setColumn j .fixed)
  | .settleEmpty j _ status => .ok (v.setColumn j status)
  | .settleSingleton i j _ _ =>
      if v.columns j = .fixed then .ok ((v.setColumn j .basic).setRow i .fixed)
      else .error (.breached .unfixedSingleton)

end Record

/-! ## What a record changes -/

theorem Valuation.columns_addActivities (v : Valuation α) (entries : Entries α) (value : α) :
    (v.addActivities entries value).columns = v.columns := by
  induction entries generalizing v with
  | nil => rfl
  | cons first rest inductionHypothesis => exact inductionHypothesis _

section

variable {r : Record α} {v : Valuation α} {k l : Nat}

/-- Only its own column gets another value when a record is undone. -/
theorem Record.columns_primalBefore (other : r.ownColumn? ≠ some k) :
    (r.primalBefore v).columns k = v.columns k := by
  have kept : ∀ {j : Nat} {value : α}, some j ≠ some k → (v.setColumn j value).columns k = v.columns k := by
    intro j value apart
    rw [Valuation.columns_setColumn, if_neg fun same => apart (congrArg some same.symm)]
  cases r with
  | splitFree j _ => exact kept other
  | shiftLower j _ _ => rw [Record.primalBefore, Valuation.columns_addActivities]; exact kept other
  | flipUpper j _ _ => rw [Record.primalBefore, Valuation.columns_addActivities]; exact kept other
  | substituteFixed j _ _ _ => rw [Record.primalBefore, Valuation.columns_addActivities]; exact kept other
  | _ => rfl

/-- Only its own row gets another multiplier when a record is undone. -/
theorem Record.rows_dualBefore (other : r.ownRow? ≠ some l) : (r.dualBefore v).rows l = v.rows l := by
  have kept : ∀ {v : Valuation α} {i : Nat} {value : α}, some i ≠ some l →
      (v.setRow i value).rows l = v.rows l := by
    intro v i value apart
    rw [Valuation.rows_setRow, if_neg fun same => apart (congrArg some same.symm)]
  cases r with
  | dropFreeRow i _ => exact kept other
  | addSurplus i _ => exact kept other
  | addSlack i _ => exact kept other
  | dropEmptyRow i => exact kept other
  | settleSingleton i j coefficient _ => exact kept other
  | _ => rfl

/-- Only its own column gets another net cost when a record is undone. -/
theorem Record.columns_dualBefore (other : r.ownColumn? ≠ some k) :
    (r.dualBefore v).columns k = v.columns k := by
  have kept : ∀ {v : Valuation α} {j : Nat} {value : α}, some j ≠ some k →
      (v.setColumn j value).columns k = v.columns k := by
    intro v j value apart
    rw [Valuation.columns_setColumn, if_neg fun same => apart (congrArg some same.symm)]
  cases r with
  | splitFree j _ => exact kept other
  | flipUpper j _ _ => exact kept other
  | splitUpper j _ _ _ => exact kept other
  | substituteFixed j _ _ _ => exact kept other
  | settleSingleton i j coefficient _ => exact kept other
  | _ => rfl

end

/-! ## Reading and adding along coefficients -/

section

variable {ε β γ : Type}

theorem exists_of_bind_eq_ok {first : Except ε β} {next : β → Except ε γ} {result : γ}
    (run : (first >>= next) = .ok result) : ∃ between, first = .ok between ∧ next between = .ok result := by
  cases first with
  | error fault => cases run
  | ok between => exact ⟨between, rfl, run⟩

theorem bind_eq_ok {first : Except ε β} {next : β → Except ε γ} {between : β} {result : γ}
    (run : first = .ok between) (later : next between = .ok result) : (first >>= next) = .ok result := by
  rw [run]
  exact later

theorem mapM_eq_ok {f : β → Except ε γ} {g : β → γ} {list : List β} (each : ∀ x ∈ list, f x = .ok (g x)) :
    list.mapM f = .ok (list.map g) := by
  induction list with
  | nil => rfl
  | cons first rest inductionHypothesis =>
    rw [List.mapM_cons, each first (by simp), inductionHypothesis fun x later =>
      each x (List.mem_cons_of_mem _ later)]
    rfl

end

namespace Known

variable {p : Program α} {k : Known .primal α} {v : Valuation α}

theorem addToRow_agrees (agrees : k.Agrees p v) {i : Nat} (active : p.rows.isActive i = true) (amount : α) :
    ∃ after, k.addToRow i amount = .ok after ∧ after.Agrees p (v.setRow i (v.rows i + amount)) := by
  rw [addToRow, agrees.row active]
  exact agrees.setRow ((Slots.Restores.refl _).some_of_active active) (.refl _)
    (Slots.lt_size_of_isActive active) _

theorem addActivities_agrees (agrees : k.Agrees p v) {entries : Entries α}
    (active : ∀ i ∈ entries.ordinals, p.rows.isActive i = true) (value : α) :
    ∃ after, k.addActivities entries value = .ok after ∧ after.Agrees p (v.addActivities entries value) := by
  -- Each row that gets its share is known before and after, with another value.
  induction entries generalizing k v with
  | nil => exact ⟨k, rfl, agrees⟩
  | cons first rest inductionHypothesis =>
    obtain ⟨i, coefficient⟩ := first
    obtain ⟨between, added, agrees⟩ :=
      addToRow_agrees agrees (active i (by simp [Entries.ordinals])) (coefficient * value)
    obtain ⟨after, continued, agrees⟩ := inductionHypothesis agrees fun l later => active l (by
      simp only [Entries.ordinals] at later ⊢
      exact List.mem_cons_of_mem _ later)
    refine ⟨after, ?_, agrees⟩
    rw [addActivities, List.foldlM_cons]
    simp only [added]
    exact continued

end Known

/-! ## Quantities of a program before a reduction -/

section

variable {settings : Settings α} {p q : Program α} {r : Record α}

theorem Rewrite.undoPrimal (rewrite : Rewrite settings p r q) (same : p.Transposed) {k : Known .primal α}
    {v : Valuation α} (agrees : k.Agrees q v) :
    ∃ before, Record.undoPrimal k r = .ok before ∧ before.Agrees p (r.primalBefore v) := by
  have rows := rewrite.rows_restored same
  have columns := rewrite.columns_restored
  cases rewrite with
  | @dropFreeRow i row active free =>
    -- The record has all coefficients of the row, and their columns are still there.
    have terms : row.entries.mapM (fun entry => return entry.2 * (← k.column entry.1)) =
        (.ok (row.entries.map fun entry => entry.2 * v.columns entry.1) : Except (Fault α) _) := by
      apply mapM_eq_ok
      intro entry listed
      obtain ⟨column, found⟩ := same.column_active active (Entries.mem_ordinals_of_mem listed)
      have kept := columns.isActive (Slots.isActive_of_eq_some found)
      simp only [agrees.column kept]
      rfl
    obtain ⟨after, set, agrees'⟩ := agrees.setRow rows columns (Slots.lt_size active) (Scalar.sum _)
    refine ⟨after, ?_, agrees'⟩
    change (row.entries.mapM (fun entry => return entry.2 * (← k.column entry.1)) >>= _) = _
    rw [terms]
    exact set
  | @addSurplus i row active finite inequality =>
    have kept := rows.isActive (Slots.isActive_of_eq_some active)
    obtain ⟨after, added, agrees'⟩ := Known.addToRow_agrees agrees kept (v.columns p.columns.size)
    refine ⟨after, ?_, agrees'.restrict rows columns⟩
    rw [Record.undoPrimal, agrees.column (Program.isActive_withRange ..)]
    exact added
  | @addSlack i row active finite inequality =>
    have kept := rows.isActive (Slots.isActive_of_eq_some active)
    obtain ⟨after, added, agrees'⟩ := Known.addToRow_agrees agrees kept (-v.columns p.columns.size)
    refine ⟨after, ?_, agrees'.restrict rows columns⟩
    rw [Record.undoPrimal, agrees.column (Program.isActive_withRange ..)]
    exact added
  | @splitFree j column active free =>
    have occupied := Slots.isActive_of_eq_some active
    rw [Record.undoPrimal, agrees.column (columns.isActive occupied),
      agrees.column (Program.isActive_splitColumn ..)]
    exact agrees.setColumn rows (columns.some_of_active occupied) (Slots.lt_size active) _
  | @shiftLower j column active finite =>
    have occupied := Slots.isActive_of_eq_some active
    -- The column gets its value first. Its rows are there throughout.
    obtain ⟨between, set, between_agrees⟩ := agrees.setColumn rows (columns.some_of_active occupied)
      (Slots.lt_size active) (column.bounds.lower + v.columns j)
    have rows_active := fun i listed => same.row_isActive active (i := i) listed
    obtain ⟨after, added, agrees'⟩ :=
      Known.addActivities_agrees between_agrees rows_active column.bounds.lower
    refine ⟨after, ?_, agrees'⟩
    exact bind_eq_ok (agrees.column (columns.isActive occupied)) (bind_eq_ok set added)
  | @flipUpper j column active finite =>
    have occupied := Slots.isActive_of_eq_some active
    obtain ⟨between, set, between_agrees⟩ := agrees.setColumn rows (columns.some_of_active occupied)
      (Slots.lt_size active) (column.bounds.upper - v.columns j)
    have rows_active := fun i listed => same.row_isActive active (i := i) listed
    obtain ⟨after, added, agrees'⟩ :=
      Known.addActivities_agrees between_agrees rows_active column.bounds.upper
    refine ⟨after, ?_, agrees'⟩
    exact bind_eq_ok (agrees.column (columns.isActive occupied)) (bind_eq_ok set added)
  | splitUpper active grounded finite => exact ⟨k, rfl, agrees.restrict rows columns⟩
  | @substituteFixed j column active fixed finite =>
    obtain ⟨between, set, between_agrees⟩ :=
      agrees.setColumn rows columns (Slots.lt_size active) column.bounds.lower
    have rows_active := fun i listed => same.row_isActive active (i := i) listed
    obtain ⟨after, added, agrees'⟩ :=
      Known.addActivities_agrees between_agrees rows_active column.bounds.lower
    exact ⟨after, bind_eq_ok set added, agrees'⟩
  | @dropEmptyRow i row active empty within => exact agrees.setRow rows columns (Slots.lt_size active) 0
  | settleEmpty active empty bounded => exact ⟨k, rfl, agrees.restrict rows columns⟩
  | @settleSingleton i j row column coefficient row_active equality single column_active admitted =>
    rw [Record.undoPrimal, agrees.column (columns.isActive (Slots.isActive_of_eq_some column_active))]
    exact agrees.setRow rows columns (Slots.lt_size row_active) _

theorem Rewrite.undoDual (rewrite : Rewrite settings p r q) (same : p.Transposed) {k : Known .dual α}
    {v : Valuation α} (agrees : k.Agrees q v) :
    ∃ before, Record.undoDual k r = .ok before ∧ before.Agrees p (r.dualBefore v) := by
  have rows := rewrite.rows_restored same
  have columns := rewrite.columns_restored
  cases rewrite with
  | @dropFreeRow i row active free => exact agrees.setRow rows columns (Slots.lt_size active) 0
  | @addSurplus i row active finite inequality =>
    have occupied := Slots.isActive_of_eq_some active
    rw [Record.undoDual, agrees.column (Program.isActive_withRange ..)]
    exact agrees.setRow (rows.some_of_active occupied) columns (Slots.lt_size active) _
  | @addSlack i row active finite inequality =>
    have occupied := Slots.isActive_of_eq_some active
    rw [Record.undoDual, agrees.column (Program.isActive_withRange ..)]
    exact agrees.setRow (rows.some_of_active occupied) columns (Slots.lt_size active) _
  | @splitFree j column active free =>
    have occupied := Slots.isActive_of_eq_some active
    exact agrees.setColumn rows (columns.some_of_active occupied) (Slots.lt_size active) 0
  | shiftLower active finite => exact ⟨k, rfl, agrees.restrict rows columns⟩
  | @flipUpper j column active finite =>
    have occupied := Slots.isActive_of_eq_some active
    rw [Record.undoDual, agrees.column (columns.isActive occupied)]
    exact agrees.setColumn rows (columns.some_of_active occupied) (Slots.lt_size active) _
  | @splitUpper j column active grounded finite =>
    have occupied := Slots.isActive_of_eq_some active
    have inside := Slots.lt_size active
    rw [Record.undoDual, agrees.column (columns.isActive occupied),
      agrees.column (Program.isActive_cappedColumn inside)]
    exact agrees.setColumn rows (columns.some_of_active occupied) inside _
  | @substituteFixed j column active fixed finite =>
    -- The record has all coefficients of the column, and their rows are still there.
    have terms : column.entries.mapM (fun entry => return entry.2 * (← k.row entry.1)) =
        (.ok (column.entries.map fun entry => entry.2 * v.rows entry.1) : Except (Fault α) _) := by
      apply mapM_eq_ok
      intro entry listed
      have kept := rows.isActive (same.row_isActive active (Entries.mem_ordinals_of_mem listed))
      simp only [agrees.row kept]
      rfl
    obtain ⟨after, set, agrees'⟩ :=
      agrees.setColumn rows columns (Slots.lt_size active) (column.cost - Scalar.sum _)
    refine ⟨after, ?_, agrees'⟩
    change (column.entries.mapM (fun entry => return entry.2 * (← k.row entry.1)) >>= _) = _
    rw [terms]
    exact set
  | @dropEmptyRow i row active empty within => exact agrees.setRow rows columns (Slots.lt_size active) 0
  | settleEmpty active empty bounded => exact ⟨k, rfl, agrees.restrict rows columns⟩
  | @settleSingleton i j row column coefficient row_active equality single column_active admitted =>
    have occupied := Slots.isActive_of_eq_some column_active
    obtain ⟨between, priced, between_agrees⟩ := agrees.setRow rows columns (Slots.lt_size row_active)
      (v.columns j / coefficient)
    obtain ⟨after, set, agrees'⟩ := between_agrees.setColumn (.refl _)
      ((Slots.Restores.refl _).some_of_active occupied) (Slots.lt_size column_active) 0
    refine ⟨after, ?_, agrees'⟩
    exact bind_eq_ok (agrees.column (columns.isActive occupied)) (bind_eq_ok priced set)

omit [Scalar α] in
/-- Whether both parts of a column are nonbasic. The second one is looked at only if the first one is. -/
theorem Known.Agrees.both_nonbasic {k : Known .status Status} {v : Valuation Status}
    (agrees : k.Agrees q v) {j l : Nat} (first : q.columns.isActive j = true)
    (second : q.columns.isActive l = true) :
    (Status.isNonbasic <$> k.column j <&&> Status.isNonbasic <$> k.column l : Except (Fault α) Bool) =
      .ok ((v.columns j).isNonbasic && (v.columns l).isNonbasic) := by
  have read : ∀ {k'}, q.columns.isActive k' = true →
      Status.isNonbasic <$> (k.column k' : Except (Fault α) Status) = .ok (v.columns k').isNonbasic := by
    intro k' active
    rw [agrees.column active]
    rfl
  refine bind_eq_ok (read first) ?_
  cases (v.columns j).isNonbasic with
  | false => rfl
  | true => exact read second

theorem Rewrite.undoStatus (rewrite : Rewrite settings p r q) (same : p.Transposed) {k : Known .status Status}
    {v w : Valuation Status} (agrees : k.Agrees q v) (possible : r.statusBefore v = .ok w) :
    ∃ before, Record.undoStatus k r = .ok before ∧ before.Agrees p w := by
  have rows := rewrite.rows_restored same
  have columns := rewrite.columns_restored
  cases rewrite with
  | @dropFreeRow i row active free =>
    cases possible
    exact agrees.setRow rows columns (Slots.lt_size active) .basic
  | @addSurplus i row active finite inequality =>
    cases possible
    have occupied := Slots.isActive_of_eq_some active
    rw [Record.undoStatus, agrees.column (Program.isActive_withRange ..)]
    exact agrees.setRow (rows.some_of_active occupied) columns (Slots.lt_size active) _
  | @addSlack i row active finite inequality =>
    cases possible
    have occupied := Slots.isActive_of_eq_some active
    rw [Record.undoStatus, agrees.column (Program.isActive_withRange ..)]
    exact agrees.setRow (rows.some_of_active occupied) columns (Slots.lt_size active) _
  | @splitFree j column active free =>
    cases possible
    have occupied := Slots.isActive_of_eq_some active
    rw [Record.undoStatus, agrees.both_nonbasic (columns.isActive occupied) (Program.isActive_splitColumn ..)]
    exact agrees.setColumn rows (columns.some_of_active occupied) (Slots.lt_size active) _
  | shiftLower active finite =>
    cases possible
    exact ⟨k, rfl, agrees.restrict rows columns⟩
  | @flipUpper j column active finite =>
    cases possible
    have occupied := Slots.isActive_of_eq_some active
    rw [Record.undoStatus, agrees.column (columns.isActive occupied)]
    exact agrees.setColumn rows (columns.some_of_active occupied) (Slots.lt_size active) _
  -- Two statuses together have an answer or not, and the undoing fails exactly where they have none.
  | @splitUpper j column active grounded finite =>
    have occupied := Slots.isActive_of_eq_some active
    have inside := Slots.lt_size active
    rw [Record.statusBefore] at possible
    cases status :
      (Record.boundedStatus (v.columns j) (v.columns p.columns.size) : Except (Fault α) Status) with
    | error fault =>
      rw [status] at possible
      cases possible
    | ok status' =>
      rw [status] at possible
      cases possible
      obtain ⟨after, set, agrees'⟩ := agrees.setColumn rows (columns.some_of_active occupied) inside status'
      refine ⟨after, bind_eq_ok (agrees.column (columns.isActive occupied)) ?_, agrees'⟩
      exact bind_eq_ok (agrees.column (Program.isActive_cappedColumn inside)) (bind_eq_ok status set)
  | @substituteFixed j column active fixed finite =>
    cases possible
    exact agrees.setColumn rows columns (Slots.lt_size active) .fixed
  | @dropEmptyRow i row active empty within =>
    cases possible
    exact agrees.setRow rows columns (Slots.lt_size active) .basic
  | @settleEmpty j column active empty bounded =>
    cases possible
    have occupied := Slots.isActive_of_eq_some active
    exact agrees.setColumn rows (columns.some_of_active occupied) (Slots.lt_size active) _
  | @settleSingleton i j row column coefficient row_active equality single column_active admitted =>
    have occupied := Slots.isActive_of_eq_some column_active
    rw [Record.statusBefore] at possible
    -- A value that was settled is followed by a record that makes the column a fixed one.
    by_cases fixed : v.columns j = .fixed
    · rw [if_pos fixed] at possible
      cases possible
      have kept := columns.isActive occupied
      obtain ⟨between, freed, between_agrees⟩ := agrees.setColumn (.refl _)
        ((Slots.Restores.refl _).some_of_active kept) (Slots.lt_size_of_isActive kept) .basic
      obtain ⟨after, set, agrees'⟩ := between_agrees.setRow rows columns (Slots.lt_size row_active) .fixed
      have read := (agrees.column kept).trans (congrArg Except.ok fixed)
      exact ⟨after, bind_eq_ok read (bind_eq_ok freed set), agrees'⟩
    · rw [if_neg fixed] at possible
      cases possible

end

end LinearReduction
