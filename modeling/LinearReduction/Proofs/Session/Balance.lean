import LinearReduction.Proofs.Program.Building
import LinearReduction.Proofs.Session.Sequences

/-!
# Slots and records in balance

Which slots are occupied is told by the records: every record empties a slot, adds new ones at the end, or
leaves them all as they are. Main statement: `Session.Reaches.balanced`, for any sequence of calls. A slot is
empty exactly if one record emptied it, and then stays empty, its ordinal is never given out again, and the
sizes of the program follow from the number of records of each kind.
-/

namespace LinearReduction

/-! ## Occupied slots without what they hold -/

namespace Slots

variable {β : Type}

/-- Which slots there are and which of them are occupied. -/
def shape (s : Slots β) : Slots Unit :=
  ⟨s.cells.map fun cell => cell.map fun _ => (), s.occupied⟩

@[simp] theorem occupied_shape (s : Slots β) : s.shape.occupied = s.occupied := rfl

@[simp] theorem size_shape (s : Slots β) : s.shape.size = s.size := by
  simp [shape, size]

theorem get?_shape (s : Slots β) (i : Nat) : s.shape.get? i = (s.get? i).map fun _ => () := by
  simp only [shape, get?, Array.getElem?_map]
  cases s.cells[i]? <;> rfl

@[simp] theorem isActive_shape (s : Slots β) (i : Nat) : s.shape.isActive i = s.isActive i := by
  rw [isActive, isActive, get?_shape, Option.isSome_map]

theorem isCounted_shape {s : Slots β} : s.shape.IsCounted ↔ s.IsCounted := by
  have same : s.shape.ordinals = s.ordinals := by
    simp only [ordinals_eq_filter, size_shape, funext (isActive_shape s)]
  rw [IsCounted, IsCounted, ← length_ordinals, ← length_ordinals, same, occupied_shape]

@[simp] theorem shape_map (s : Slots β) (f : β → β) : (s.map f).shape = s.shape := by
  refine ext_get? (by simp) rfl fun i => ?_
  rw [get?_shape, get?_shape, get?_map, Option.map_map]

@[simp] theorem shape_modify (s : Slots β) (i : Nat) (change : β → β) :
    (s.modify i change).shape = s.shape := by
  refine ext_get? (by simp) rfl fun l => ?_
  rw [get?_shape, get?_shape, get?_modify]
  split
  · rw [Option.map_map]
  · rfl

@[simp] theorem shape_push (s : Slots β) (entry : β) : (s.push entry).shape = s.shape.push () := by
  refine ext_get? (by simp) rfl fun l => ?_
  rw [get?_shape, get?_push, get?_push, size_shape, get?_shape]
  split <;> rfl

@[simp] theorem shape_clear (s : Slots β) (i : Nat) : (s.clear i).shape = s.shape.clear i := by
  refine ext_get? (by simp) rfl fun l => ?_
  rw [get?_shape, get?_clear, get?_clear, get?_shape]
  split <;> rfl

/-- A table before and after a reduction, the slot that was emptied and whether one was added. -/
inductive Reshaped : Slots Unit → Option Nat → Bool → Slots Unit → Prop where
  | same (s : Slots Unit) : Reshaped s none false s
  | pushed (s : Slots Unit) : Reshaped s none true (s.push ())
  | cleared {s : Slots Unit} {i : Nat} (active : s.isActive i = true) : Reshaped s (some i) false (s.clear i)

namespace Reshaped

variable {s t : Slots Unit} {emptied : Option Nat} {added : Bool}

theorem isCounted (reshaped : Reshaped s emptied added t) (counted : s.IsCounted) : t.IsCounted := by
  cases reshaped with
  | same => exact counted
  | pushed => exact counted.push ()
  | cleared active => exact counted.clear active

/-- One more slot is occupied if one was added, one less if one was emptied. -/
theorem occupied_eq (reshaped : Reshaped s emptied added t) (counted : s.IsCounted) :
    t.occupied + emptied.isSome.toNat = s.occupied + added.toNat := by
  cases reshaped with
  | same => rfl
  | pushed => rfl
  | @cleared i active =>
    obtain ⟨entry, found⟩ := isActive_iff.1 active
    have positive : 0 < s.occupied := by
      rw [← counted]
      exact List.length_pos_of_mem (mem_active.2 found)
    exact Nat.sub_add_cancel positive

end Reshaped

/-- How often a slot was emptied: once if it is empty, and never if it is occupied or not there. -/
def timesEmptied (s : Slots Unit) (i : Nat) : Nat :=
  if i < s.size ∧ s.isActive i = false then 1 else 0

theorem timesEmptied_eq_one_iff {s : Slots Unit} {i : Nat} :
    s.timesEmptied i = 1 ↔ i < s.size ∧ s.isActive i = false := by
  simp [timesEmptied]

theorem timesEmptied_of_full {s : Slots Unit} (full : ∀ i < s.size, s.isActive i = true) (i : Nat) :
    s.timesEmptied i = 0 := by
  refine if_neg fun gone => ?_
  rw [full i gone.1] at gone
  exact Bool.false_ne_true gone.2.symm

theorem timesEmptied_le_one (s : Slots Unit) (i : Nat) : s.timesEmptied i ≤ 1 := by
  unfold timesEmptied
  split <;> omega

theorem Reshaped.timesEmptied_eq {s t : Slots Unit} {emptied : Option Nat} {added : Bool}
    (reshaped : Reshaped s emptied added t) (i : Nat) :
    t.timesEmptied i = s.timesEmptied i + (emptied == some i).toNat := by
  cases reshaped with
  | same => rfl
  | pushed =>
    by_cases last : i = s.size
    · simp [timesEmptied, isActive_push, last]
    · have inside : i < s.size + 1 ↔ i < s.size := by omega
      simp [timesEmptied, isActive_push, last, inside]
  | @cleared l active =>
    have inside := lt_size_of_isActive active
    by_cases same : l = i
    · subst same
      simp [timesEmptied, isActive_clear, active, inside]
    · simp [timesEmptied, isActive_clear, same, Ne.symm same]

end Slots

/-! ## Reductions -/

variable {α : Type} [Scalar α]

def Record.addsRow : Record α → Bool
  | .splitUpper .. => true
  | _ => false

def Record.addsColumn : Record α → Bool
  | .addSurplus .. | .addSlack .. | .splitFree .. | .splitUpper .. => true
  | _ => false

section

variable {settings : Settings α} {p q : Program α} {r : Record α} {records news : List (Record α)}

open Slots (Reshaped)

namespace Program

omit [Scalar α] in
theorem shape_rows_link (p : Program α) (i j : Nat) (value : α) :
    (p.link i j value).rows.shape = p.rows.shape :=
  Slots.shape_modify ..

omit [Scalar α] in
theorem shape_columns_link (p : Program α) (i j : Nat) (value : α) :
    (p.link i j value).columns.shape = p.columns.shape :=
  Slots.shape_modify ..

omit [Scalar α] in
theorem shape_rows_linkAll (p : Program α) (entries : Entries α) (j : Nat) :
    (p.linkAll j entries).rows.shape = p.rows.shape :=
  linkAll_keeps p (·.rows.shape) j (fun p i value => shape_rows_link p i j value) entries

omit [Scalar α] in
theorem shape_columns_linkAll (p : Program α) (entries : Entries α) (j : Nat) :
    (p.linkAll j entries).columns.shape = p.columns.shape :=
  linkAll_keeps p (·.columns.shape) j (fun p i value => shape_columns_link p i j value) entries

theorem shape_columns_asMinimization (p : Program α) : p.asMinimization.columns.shape = p.columns.shape := by
  unfold asMinimization
  split
  · rfl
  · exact Slots.shape_map ..

theorem shape_rows_absorbed (p : Program α) (entries : Entries α) (cost value : α) :
    (p.absorbed entries cost value).rows.shape = p.rows.shape :=
  offset_keeps p (·.rows.shape) (fun _ _ _ => Slots.shape_modify ..) entries value

theorem shape_columns_absorbed (p : Program α) (entries : Entries α) (cost value : α) :
    (p.absorbed entries cost value).columns.shape = p.columns.shape :=
  offset_keeps p (·.columns.shape) (fun _ _ _ => rfl) entries value

end Program

/-- The record of a reduction tells what happened to the slots of the rows. -/
theorem Rewrite.rows_reshaped (rewrite : Rewrite settings p r q) :
    Reshaped p.rows.shape r.emptiedRow? r.addsRow q.rows.shape := by
  have unchanged : q.rows.shape = p.rows.shape → Reshaped p.rows.shape none false q.rows.shape := by
    intro same
    rw [same]
    exact .same _
  have cleared : ∀ {i : Nat} {row : Row α}, p.rows.get? i = some row →
      Reshaped p.rows.shape (some i) false (p.rows.clear i).shape := by
    intro i row active
    rw [Slots.shape_clear]
    exact .cleared (by rw [Slots.isActive_shape]; exact Slots.isActive_of_eq_some active)
  cases rewrite with
  | dropFreeRow active free => exact cleared active
  | addSurplus active finite inequality =>
    exact unchanged ((Slots.shape_modify ..).trans (Program.shape_rows_link ..))
  | addSlack active finite inequality =>
    exact unchanged ((Slots.shape_modify ..).trans (Program.shape_rows_link ..))
  | splitFree active free => exact unchanged (Program.shape_rows_linkAll ..)
  | @shiftLower j column active finite =>
    exact unchanged (p.shape_rows_absorbed column.entries column.cost _)
  | @flipUpper j column active finite =>
    exact unchanged ((Slots.shape_map ..).trans (p.shape_rows_absorbed column.entries column.cost _))
  | @splitUpper j column active grounded finite =>
    have pushed : (p.cappedColumn j column.bounds.upper).rows.shape = p.rows.shape.push () := by
      rw [Program.cappedColumn, Program.shape_rows_link, Program.shape_rows_link]
      exact Slots.shape_push ..
    rw [pushed]
    exact .pushed _
  | @substituteFixed j column active fixed finite =>
    exact unchanged (((p.withoutColumn j).shape_rows_absorbed column.entries column.cost _).trans
      (Slots.shape_map ..))
  | dropEmptyRow active empty within => exact cleared active
  | settleEmpty active empty bounded => exact unchanged rfl
  | settleSingleton row_active equality single column_active admitted => exact cleared row_active

/-- The record of a reduction tells what happened to the slots of the columns. -/
theorem Rewrite.columns_reshaped (rewrite : Rewrite settings p r q) :
    Reshaped p.columns.shape r.emptiedColumn? r.addsColumn q.columns.shape := by
  have unchanged : q.columns.shape = p.columns.shape →
      Reshaped p.columns.shape none false q.columns.shape := by
    intro same
    rw [same]
    exact .same _
  have pushed : q.columns.shape = p.columns.shape.push () →
      Reshaped p.columns.shape none true q.columns.shape := by
    intro same
    rw [same]
    exact .pushed _
  cases rewrite with
  | dropFreeRow active free => exact unchanged (Slots.shape_map ..)
  | addSurplus active finite inequality =>
    exact pushed ((Program.shape_columns_link ..).trans (Slots.shape_push ..))
  | addSlack active finite inequality =>
    exact pushed ((Program.shape_columns_link ..).trans (Slots.shape_push ..))
  | splitFree active free =>
    refine pushed ((Program.shape_columns_linkAll ..).trans ((Slots.shape_push ..).trans ?_))
    exact congrArg (Slots.push · ()) (Slots.shape_modify ..)
  | @shiftLower j column active finite =>
    exact unchanged ((Slots.shape_modify ..).trans (p.shape_columns_absorbed column.entries column.cost _))
  | @flipUpper j column active finite =>
    refine unchanged ((Slots.shape_modify ..).trans
      ((Slots.shape_modify ..).trans ((Slots.shape_modify ..).trans ?_)))
    exact p.shape_columns_absorbed column.entries column.cost _
  | splitUpper active grounded finite =>
    refine pushed ((Program.shape_columns_link ..).trans ((Program.shape_columns_link ..).trans ?_))
    exact (Slots.shape_push ..).trans (congrArg (Slots.push · ()) (Slots.shape_modify ..))
  | @substituteFixed j column active fixed finite =>
    have cleared : (p.substituted j column).columns.shape = p.columns.shape.clear j :=
      ((p.withoutColumn j).shape_columns_absorbed column.entries column.cost _).trans (Slots.shape_clear ..)
    rw [cleared]
    exact .cleared (by rw [Slots.isActive_shape]; exact Slots.isActive_of_eq_some active)
  | dropEmptyRow active empty within => exact unchanged (Slots.shape_map ..)
  | settleEmpty active empty bounded => exact unchanged (Slots.shape_modify ..)
  | settleSingleton row_active equality single column_active admitted =>
    exact unchanged ((Slots.shape_modify ..).trans (Slots.shape_map ..))

theorem Rewrite.counted (rewrite : Rewrite settings p r q) (counted : p.Counted) : q.Counted :=
  ⟨Slots.isCounted_shape.1 (rewrite.rows_reshaped.isCounted (Slots.isCounted_shape.2 counted.rows)),
    Slots.isCounted_shape.1 (rewrite.columns_reshaped.isCounted (Slots.isCounted_shape.2 counted.columns))⟩

/-! ## All reductions -/

omit [Scalar α] in
theorem Record.countP_cons (test : Record α → Bool) (first : Record α) (rest : List (Record α)) :
    (first :: rest).countP test = rest.countP test + (test first).toNat := by
  rw [List.countP_cons]
  cases test first <;> rfl

namespace Rewrites

theorem counted (rewrites : Rewrites settings p records q) (counted : p.Counted) : q.Counted :=
  rewrites.preserves Rewrite.counted counted

theorem rows_timesEmptied (rewrites : Rewrites settings p records q) (i : Nat) :
    q.rows.shape.timesEmptied i = p.rows.shape.timesEmptied i + records.countP (·.emptiedRow? = some i) := by
  induction rewrites with
  | refl => rfl
  | rewrite before rewrite inductionHypothesis =>
    rw [rewrite.rows_reshaped.timesEmptied_eq, inductionHypothesis, Record.countP_cons, Nat.add_assoc,
      Bool.beq_eq_decide_eq]

theorem columns_timesEmptied (rewrites : Rewrites settings p records q) (j : Nat) :
    q.columns.shape.timesEmptied j = p.columns.shape.timesEmptied j +
    records.countP (·.emptiedColumn? = some j) := by
  induction rewrites with
  | refl => rfl
  | rewrite before rewrite inductionHypothesis =>
    rw [rewrite.columns_reshaped.timesEmptied_eq, inductionHypothesis, Record.countP_cons, Nat.add_assoc,
      Bool.beq_eq_decide_eq]

theorem rows_occupied (rewrites : Rewrites settings p records q) (counted : p.Counted) :
    q.rows.occupied + records.countP (·.emptiedRow?.isSome) = p.rows.occupied +
    records.countP (·.addsRow) := by
  induction rewrites with
  | refl => rfl
  | rewrite before rewrite inductionHypothesis =>
    have step := rewrite.rows_reshaped.occupied_eq (Slots.isCounted_shape.2 (before.counted counted).rows)
    rw [Slots.occupied_shape, Slots.occupied_shape] at step
    rw [Record.countP_cons, Record.countP_cons]
    omega

theorem columns_occupied (rewrites : Rewrites settings p records q) (counted : p.Counted) :
    q.columns.occupied + records.countP (·.emptiedColumn?.isSome) =
      p.columns.occupied + records.countP (·.addsColumn) := by
  induction rewrites with
  | refl => rfl
  | rewrite before rewrite inductionHypothesis =>
    have step :=
      rewrite.columns_reshaped.occupied_eq (Slots.isCounted_shape.2 (before.counted counted).columns)
    rw [Slots.occupied_shape, Slots.occupied_shape] at step
    rw [Record.countP_cons, Record.countP_cons]
    omega

end Rewrites

/-- A record that settles a column is followed by the one that removes it. -/
theorem History.settled_le (history : History settings p records q) :
    records.countP (·.settled?.isSome) ≤ records.countP (·.emptiedColumn?.isSome) := by
  induction history with
  | refl => exact Nat.le_refl _
  | move before move inductionHypothesis =>
    rw [List.countP_append, List.countP_append]
    refine Nat.add_le_add ?_ inductionHypothesis
    cases move with
    | single rewrite unsettled => simp [unsettled]
    | @settled _ r j column rewrite settles active fixed finite =>
      refine Nat.le_trans ?_ (List.countP_pos_iff.2 ⟨_, List.mem_cons_self, rfl⟩)
      rw [List.countP_cons_of_neg Bool.false_ne_true]
      exact List.countP_le_length

end

/-! ## Numbers of records -/

namespace Record

variable (records : List (Record α))

omit [Scalar α] in
theorem countP_emptiedRow : records.countP (·.emptiedRow?.isSome) =
    records.countP (·.reduction = .dropFreeRow) + records.countP (·.reduction = .dropEmptyRow) +
    records.countP (·.reduction = .settleSingleton) := by
  induction records with
  | nil => rfl
  | cons r rest inductionHypothesis =>
    have one : (if r.emptiedRow?.isSome then 1 else 0) = (if r.reduction = .dropFreeRow then 1 else 0) +
        (if r.reduction = .dropEmptyRow then 1 else 0) +
            (if r.reduction = .settleSingleton then 1 else 0) := by
      cases r <;> rfl
    simp only [List.countP_cons, decide_eq_true_eq, inductionHypothesis, one]
    omega

omit [Scalar α] in
theorem countP_addsColumn : records.countP (·.addsColumn) = records.countP (·.reduction = .addSurplus) +
    records.countP (·.reduction = .addSlack) + records.countP (·.reduction = .splitFree) +
      records.countP (·.reduction = .splitUpper) := by
  induction records with
  | nil => rfl
  | cons r rest inductionHypothesis =>
    have one : (if r.addsColumn then 1 else 0) = (if r.reduction = .addSurplus then 1 else 0) +
        (if r.reduction = .addSlack then 1 else 0) + (if r.reduction = .splitFree then 1 else 0) +
          (if r.reduction = .splitUpper then 1 else 0) := by
      cases r <;> rfl
    simp only [List.countP_cons, decide_eq_true_eq, inductionHypothesis, one]
    omega

omit [Scalar α] in
theorem countP_settled : records.countP (·.settled?.isSome) =
    records.countP (·.reduction = .settleEmpty) + records.countP (·.reduction = .settleSingleton) := by
  induction records with
  | nil => rfl
  | cons r rest inductionHypothesis =>
    have one : (if r.settled?.isSome then 1 else 0) =
        (if r.reduction = .settleEmpty then 1 else 0) +
            (if r.reduction = .settleSingleton then 1 else 0) := by
      cases r <;> rfl
    simp only [List.countP_cons, decide_eq_true_eq, inductionHypothesis, one]
    omega

omit [Scalar α] in
theorem countP_addsRow : records.countP (·.addsRow) = records.countP (·.reduction = .splitUpper) := by
  congr 1
  funext r
  cases r <;> rfl

omit [Scalar α] in
theorem countP_emptiedColumn :
    records.countP (·.emptiedColumn?.isSome) = records.countP (·.reduction = .substituteFixed) := by
  congr 1
  funext r
  cases r <;> rfl

end Record

omit [Scalar α] in
theorem Tally.count_addAll (tally : Tally) (records : List (Record α)) (r : Reduction) :
    (tally.addAll records).count r = tally.count r + records.countP (·.reduction = r) := by
  induction records with
  | nil => rfl
  | cons record rest inductionHypothesis =>
    rw [addAll, List.foldr_cons, ← addAll, count_add, inductionHypothesis, List.countP_cons]
    by_cases same : record.reduction = r
    · simp [same, Nat.add_assoc]
    · simp [same]

/-! ## Sessions -/

def Added.rows : Added → List Nat
  | .nothing | .column _ => []
  | .columnAndRow _ i => [i]

def Added.columns : Added → List Nat
  | .nothing => []
  | .column j | .columnAndRow j _ => [j]

namespace Session

/-- What the records say about the slots, and the counts about the records. -/
structure Balanced (s : Session α) : Prop where
  rows : ∀ i < s.program.rows.size,
    s.program.rows.isActive i = false ↔ s.records.countP (·.emptiedRow? = some i) = 1
  columns : ∀ j < s.program.columns.size,
    s.program.columns.isActive j = false ↔ s.records.countP (·.emptiedColumn? = some j) = 1
  tally : ∀ r, s.tally.count r = s.records.countP (·.reduction = r)
  rows_eq : (s.summary.rows : Int) = s.summary.initialRows + s.summary.tally.count .splitUpper -
    s.summary.tally.count .dropFreeRow - s.summary.tally.count .dropEmptyRow -
    s.summary.tally.count .settleSingleton
  columns_eq : (s.summary.columns : Int) = s.summary.initialColumns + s.summary.tally.count .addSurplus +
    s.summary.tally.count .addSlack + s.summary.tally.count .splitFree + s.summary.tally.count .splitUpper -
    s.summary.tally.count .substituteFixed
  settled_le : s.summary.tally.count .settleEmpty + s.summary.tally.count .settleSingleton ≤
    s.summary.tally.count .substituteFixed

/-- Rows and columns that are gone stay gone, and a further reduction gives none of their ordinals to a new
    one. -/
structure Retires (s t : Session α) : Prop where
  rows : ∀ i < s.program.rows.size, s.program.rows.isActive i = false → t.program.rows.isActive i = false ∧
    ∀ r k added u, Step.reduce r k t = .ok added u → i ∉ added.rows
  columns : ∀ j < s.program.columns.size, s.program.columns.isActive j = false →
    t.program.columns.isActive j = false ∧ ∀ r k added u, Step.reduce r k t = .ok added u → j ∉ added.columns

variable [LawfulScalar α] {p : Program α} {settings : Settings α} {start s t : Session α}

theorem ReducesTo.tallied (reduces : s.ReducesTo t) (same : s.program.Transposed)
    (tallied : ∀ r, s.tally.count r = s.records.countP (·.reduction = r)) (r : Reduction) :
    t.tally.count r = t.records.countP (·.reduction = r) := by
  induction reduces with
  | refl => exact tallied r
  | reduce before result inductionHypothesis =>
    have transposed := (before.reaches.advances same).transposed same
    obtain ⟨news, _, records, tally, _⟩ := ((Step.reduce_ends transposed _ _).done_of_eq_ok result).move
    rw [tally, records, Tally.count_addAll, List.countP_append, inductionHypothesis, Nat.add_comm]

theorem Reaches.retires (reaches : s.Reaches t) (same : s.program.Transposed) : s.Retires t := by
  have advances := reaches.advances same
  obtain ⟨news, history, _⟩ := advances.history
  have rows_gone : ∀ i < s.program.rows.size, s.program.rows.isActive i = false →
      i < t.program.rows.size ∧ t.program.rows.isActive i = false := by
    intro i inside empty
    have before : s.program.rows.shape.timesEmptied i = 1 :=
      Slots.timesEmptied_eq_one_iff.2 (by simp [inside, empty])
    have after := history.rewrites.rows_timesEmptied i
    have once := t.program.rows.shape.timesEmptied_le_one i
    have gone := Slots.timesEmptied_eq_one_iff.1 (show t.program.rows.shape.timesEmptied i = 1 by omega)
    simpa using gone
  have columns_gone : ∀ j < s.program.columns.size, s.program.columns.isActive j = false →
      j < t.program.columns.size ∧ t.program.columns.isActive j = false := by
    intro j inside empty
    have before : s.program.columns.shape.timesEmptied j = 1 :=
      Slots.timesEmptied_eq_one_iff.2 (by simp [inside, empty])
    have after := history.rewrites.columns_timesEmptied j
    have once := t.program.columns.shape.timesEmptied_le_one j
    have gone := Slots.timesEmptied_eq_one_iff.1 (show t.program.columns.shape.timesEmptied j = 1 by omega)
    simpa using gone
  -- What a reduction gives out is the number of slots, and slots that are gone are slots still.
  refine ⟨fun i inside empty => ?_, fun j inside empty => ?_⟩
  · obtain ⟨inside_after, empty_after⟩ := rows_gone i inside empty
    refine ⟨empty_after, fun r k added u result listed => ?_⟩
    have fresh := ((Step.reduce_ends (advances.transposed same) r k).done_of_eq_ok result).fresh
    cases added with
    | nothing | column n => cases listed
    | columnAndRow n m =>
      rw [Added.rows, List.mem_singleton, fresh.2] at listed
      exact Nat.ne_of_lt inside_after listed
  · obtain ⟨inside_after, empty_after⟩ := columns_gone j inside empty
    refine ⟨empty_after, fun r k added u result listed => ?_⟩
    have fresh := ((Step.reduce_ends (advances.transposed same) r k).done_of_eq_ok result).fresh
    cases added with
    | nothing => cases listed
    | column n =>
      rw [Added.columns, List.mem_singleton, fresh] at listed
      exact Nat.ne_of_lt inside_after listed
    | columnAndRow n m =>
      rw [Added.columns, List.mem_singleton, fresh.1] at listed
      exact Nat.ne_of_lt inside_after listed

/-- Slots and records are in balance after any sequence of calls. -/
theorem Reaches.balanced (begun : Session.begin p settings = .ok start) (full : p.Full)
    (reaches : start.Reaches s) : s.Balanced ∧ ∀ t, s.Reaches t → s.Retires t := by
  obtain ⟨coherent, _, origin_eq, history⟩ := reaches.history begun
  have transposed := coherent.transposed.asMinimization
  refine ⟨?_, fun t further => further.retires (history.transposed transposed)⟩
  have rewrites := history.rewrites
  have full_start := Program.full_asMinimization.2 full
  have counted := coherent.counted.asMinimization
  have tally : ∀ r, s.tally.count r = s.records.countP (·.reduction = r) := by
    obtain ⟨_, rfl⟩ := begin_eq_ok begun
    exact (reaches.reducesTo transposed).tallied transposed fun r => Tally.count_zero r
  have full_rows : ∀ i < p.asMinimization.rows.shape.size, p.asMinimization.rows.shape.isActive i = true := by
    simpa using full_start.1
  have full_columns : ∀ j < p.asMinimization.columns.shape.size,
      p.asMinimization.columns.shape.isActive j = true := by
    simpa using full_start.2
  have rows_once : ∀ i, s.program.rows.shape.timesEmptied i = s.records.countP (·.emptiedRow? = some i) := by
    intro i
    rw [rewrites.rows_timesEmptied, Slots.timesEmptied_of_full full_rows, Nat.zero_add]
  have columns_once : ∀ j,
      s.program.columns.shape.timesEmptied j = s.records.countP (·.emptiedColumn? = some j) := by
    intro j
    rw [rewrites.columns_timesEmptied, Slots.timesEmptied_of_full full_columns, Nat.zero_add]
  have rows_start : p.asMinimization.rows.occupied = p.rows.size := by
    rw [← counted.rows, Slots.length_active_of_full full_start.1, Program.rows_asMinimization]
  have columns_start : p.asMinimization.columns.occupied = p.columns.size := by
    rw [← counted.columns, Slots.length_active_of_full full_start.2, ← Slots.size_shape,
      Program.shape_columns_asMinimization, Slots.size_shape]
  have rows := rewrites.rows_occupied counted
  have columns := rewrites.columns_occupied counted
  have settled := history.settled_le
  rw [rows_start, Record.countP_emptiedRow, Record.countP_addsRow] at rows
  rw [columns_start, Record.countP_emptiedColumn, Record.countP_addsColumn] at columns
  rw [Record.countP_emptiedColumn, Record.countP_settled] at settled
  refine ⟨fun i inside => ?_, fun j inside => ?_, tally, ?_, ?_, ?_⟩
  · rw [← rows_once, Slots.timesEmptied_eq_one_iff, Slots.size_shape, Slots.isActive_shape,
      and_iff_right inside]
  · rw [← columns_once, Slots.timesEmptied_eq_one_iff, Slots.size_shape, Slots.isActive_shape,
      and_iff_right inside]
  · simp only [summary, tally, origin_eq, Program.origin]
    omega
  · simp only [summary, tally, origin_eq, Program.origin]
    omega
  · simpa only [summary, tally] using settled

end Session

/-- The row and the column that were settled together are gone for good. -/
theorem mixed_balanced : mixedSession.program.columns.isActive 1 = false ∧ mixedSession.Balanced ∧
    ∀ t, mixedSession.Reaches t → mixedSession.Retires t :=
  ⟨rfl, Session.Reaches.balanced mixedStart_begun mixedProgram_built.full mixedSession_reached⟩

end LinearReduction
