import LinearReduction.Proofs.Session.Eliminations

/-!
# Working through an agenda

Every row or column that an elimination takes coefficients from is looked at again, and all others are as they
were. Main statement: `exhaust_ends`, that nothing is left to eliminate after working through the agenda of
all rows and columns, and that all that was done is a sequence of eliminations.
-/

namespace LinearReduction

variable {α : Type} [Scalar α]

structure Session.Exhausted (s : Session α) : Prop where
  rows : ∀ i, s.rowOpportunity? i = none
  columns : ∀ j, s.columnOpportunity? j = none

/-- Whether the settings ask for a reduction when rows and columns are eliminated. -/
def Settings.asksFor (settings : Settings α) : Reduction → Bool
  | .dropFreeRow | .substituteFixed => true
  | .dropEmptyRow | .settleEmpty => settings.dropEmpty
  | .settleSingleton => settings.dropSingletonRows
  | _ => false

/-- No elimination that is asked for applies to any row or column. -/
theorem Session.Exhausted.not_eligible {s : Session α} (exhausted : s.Exhausted) {r : Reduction}
    (asked : s.settings.asksFor r = true) (k : Nat) : ¬ s.program.Eligible r k := by
  have row := exhausted.rows k
  have column := exhausted.columns k
  unfold rowOpportunity? at row
  unfold columnOpportunity? at column
  intro eligible
  cases r with
  | dropFreeRow =>
    obtain ⟨_, active, free⟩ := eligible
    simp only [active, free, Option.bind_eq_bind, Option.bind_some, if_true] at row
    split at row <;> cases row
  | dropEmptyRow =>
    obtain ⟨_, active, empty⟩ := eligible
    change s.settings.dropEmpty = true at asked
    simp [active, Row.degree, empty, asked] at row
  | settleSingleton =>
    obtain ⟨_, j, coefficient, active, equality, single⟩ := eligible
    change s.settings.dropSingletonRows = true at asked
    simp only [active, Row.degree, single, equality, asked, Option.bind_eq_bind, Option.bind_some] at row
    split at row
    · cases row
    · split at row <;> cases row
  | settleEmpty =>
    obtain ⟨_, active, empty⟩ := eligible
    change s.settings.dropEmpty = true at asked
    simp [active, Column.degree, empty, asked] at column
  | substituteFixed =>
    obtain ⟨_, active, fixed⟩ := eligible
    simp only [active, fixed, Option.bind_eq_bind, Option.bind_some, if_true] at column
    split at column <;> cases column
  | _ => cases asked

/-! ## What eliminations leave alone -/

section

variable {p q u : Program α} {i j k l : Nat} {row : Row α} {column : Column α}

omit [Scalar α] in
theorem Program.columns_withoutRow_of_not_mem (same : p.Transposed) (active : p.rows.get? i = some row)
    (absent : k ∉ row.entries.ordinals) : (p.withoutRow i).columns.get? k = p.columns.get? k := by
  rw [columns_withoutRow]
  cases found : p.columns.get? k with
  | none => rfl
  | some other =>
    rw [same.mem_ordinals_iff active found] at absent
    rw [Option.map_some, Entries.erase_of_not_mem absent]

theorem Program.rows_substituted_of_not_mem (same : p.Transposed) (active : p.columns.get? j = some column)
    (bounds : Bounds α) (absent : l ∉ column.entries.ordinals) :
    (p.substituted j { column with bounds := bounds }).rows.get? l = p.rows.get? l := by
  have distinct : ({ column with bounds := bounds } : Column α).entries.ordinals.Nodup :=
    same.columns_nodup j column active
  rw [rows_substituted _ distinct, Entries.lookup_eq_none_iff.2 absent]
  cases found : p.rows.get? l with
  | none => rfl
  | some other =>
    rw [← same.mem_ordinals_iff found active] at absent
    rw [Option.map_some, Row.absorbing, Entries.erase_of_not_mem absent]

/-- Every row and column is as it was, or gone, or to be looked at again. -/
structure Opportunity.Frames (e : Opportunity) (p q : Program α) : Prop where
  rows : ∀ l, q.rows.get? l = p.rows.get? l ∨ q.rows.get? l = none ∨ l ∈ e.wakesRows
  columns : ∀ k, q.columns.get? k = p.columns.get? k ∨ q.columns.get? k = none ∨ k ∈ e.wakesColumns

namespace Opportunity.Frames

variable {e : Opportunity}

omit [Scalar α] in
theorem withoutRow (same : p.Transposed) (active : p.rows.get? i = some row)
    (woken : ∀ k ∈ row.entries.ordinals, k ∈ e.wakesColumns) : e.Frames p (p.withoutRow i) := by
  refine ⟨fun l => ?_, fun k => ?_⟩
  · rw [Program.rows_withoutRow]
    split
    · exact .inr (.inl rfl)
    · exact .inl rfl
  · by_cases listed : k ∈ row.entries.ordinals
    · exact .inr (.inr (woken k listed))
    · exact .inl (Program.columns_withoutRow_of_not_mem same active listed)

theorem substituted (same : p.Transposed) (active : p.columns.get? j = some column) (bounds : Bounds α)
    (woken : ∀ l ∈ column.entries.ordinals, l ∈ e.wakesRows) :
    e.Frames p (p.substituted j { column with bounds := bounds }) := by
  refine ⟨fun l => ?_, fun k => ?_⟩
  · by_cases listed : l ∈ column.entries.ordinals
    · exact .inr (.inr (woken l listed))
    · exact .inl (Program.rows_substituted_of_not_mem same active bounds listed)
  · rw [Program.columns_substituted]
    split
    · exact .inr (.inl rfl)
    · exact .inl rfl

end Opportunity.Frames

end

/-! ## Opportunities that are taken -/

namespace Session

variable {s t : Session α} {e : Opportunity} {added : Added} {i j : Nat}

theorem RowOpportunity.isElimination (found : s.RowOpportunity i e) :
    e.reduction.isElimination = true := by
  cases found <;> rfl

theorem ColumnOpportunity.isElimination (found : s.ColumnOpportunity j e) :
    e.reduction.isElimination = true := by
  cases found <;> rfl

/-- The row is gone, and what else changed is to be looked at again. -/
theorem RowOpportunity.frames (found : s.RowOpportunity i e) (same : s.program.Transposed)
    (performs : s.Performs e.reduction e.ordinal added t) :
    e.Frames s.program t.program ∧ t.program.rows.get? i = none := by
  have gone : (s.program.withoutRow i).rows.get? i = none := by
    rw [Program.rows_withoutRow, if_pos rfl]
  cases found with
  | dropEmptyRow active empty wanted =>
    obtain ⟨row, also, empty, _, left⟩ := performs.of_dropEmptyRow
    rw [left]
    refine ⟨.withoutRow same also fun k listed => ?_, gone⟩
    rw [empty] at listed
    cases listed
  | dropFreeRow active free =>
    obtain ⟨row, also, _, left⟩ := performs.of_dropFreeRow
    cases active.symm.trans also
    rw [left]
    exact ⟨.withoutRow same active fun _ listed => listed, gone⟩
  | @settleSingleton row j coefficient active equality single wanted =>
    obtain ⟨_, k, _, column, also, _, single', column_active, _, left⟩ := performs.of_settleSingleton
    cases active.symm.trans also
    cases single.symm.trans single'
    have reduced := (s.program.columns_withoutRow i j).trans (by rw [column_active, Option.map_some])
    have removed := Opportunity.Frames.substituted (same.withoutRow i) reduced
      (.point (row.bounds.lower / coefficient))
      (e := ⟨.settleSingleton, i, (s.program.rowsOf j).filter (· != i), []⟩) fun l listed => by
        have distinct := same.columns_nodup j column column_active
        obtain ⟨apart, listed⟩ := (Entries.mem_ordinals_erase distinct).1 listed
        simp [Program.rowsOf, column_active, apart, listed]
    rw [left]
    refine ⟨⟨fun l => ?_, fun k => ?_⟩, ?_⟩
    · rcases removed.rows l with unchanged | gone_or_woken
      · rw [unchanged, Program.rows_withoutRow]
        split
        · exact .inr (.inl rfl)
        · exact .inl rfl
      · exact .inr gone_or_woken
    · rw [Program.columns_substituted]
      split
      case isTrue => exact .inr (.inl rfl)
      case isFalse apart =>
        refine .inl (Program.columns_withoutRow_of_not_mem same active ?_)
        simpa [single, Entries.ordinals] using Ne.symm apart
    · have out : i ∉ Entries.ordinals (column.entries.erase i) := fun listed =>
        ((Entries.mem_ordinals_erase (same.columns_nodup j column column_active)).1 listed).1 rfl
      exact (Program.rows_substituted_of_not_mem (same.withoutRow i) reduced _ out).trans gone

/-- The column is gone, and what else changed is to be looked at again. -/
theorem ColumnOpportunity.frames (found : s.ColumnOpportunity j e) (same : s.program.Transposed)
    (performs : s.Performs e.reduction e.ordinal added t) :
    e.Frames s.program t.program ∧ t.program.columns.get? j = none := by
  have gone : ∀ column, (s.program.substituted j column).columns.get? j = none := fun column => by
    rw [Program.columns_substituted, if_pos rfl]
  cases found with
  | settleEmpty active empty wanted =>
    obtain ⟨column, also, empty, _, left⟩ := performs.of_settleEmpty
    rw [left]
    refine ⟨.substituted same also _ fun l listed => ?_, gone _⟩
    rw [empty] at listed
    cases listed
  | @substituteFixed column active fixed =>
    obtain ⟨_, also, _, _, left⟩ := performs.of_substituteFixed
    cases active.symm.trans also
    rw [left]
    exact ⟨.substituted same active column.bounds fun _ listed => listed, gone column⟩

/-! ## What an agenda covers -/

/-- Whether there is something to eliminate in a row depends on that row alone. -/
theorem isSome_rowOpportunity_congr (rows : t.program.rows.get? i = s.program.rows.get? i)
    (settings : t.settings = s.settings) : (t.rowOpportunity? i).isSome = (s.rowOpportunity? i).isSome := by
  unfold rowOpportunity?
  rw [rows, settings]
  cases s.program.rows.get? i with
  | none => rfl
  | some row =>
    simp only [Option.bind_eq_bind, Option.bind_some]
    split
    · rfl
    · split
      · rfl
      · split
        · split <;> rfl
        · rfl

/-- Whether there is something to eliminate in a column depends on that column alone. -/
theorem columnOpportunity_congr (columns : t.program.columns.get? j = s.program.columns.get? j)
    (settings : t.settings = s.settings) : t.columnOpportunity? j = s.columnOpportunity? j := by
  unfold columnOpportunity?
  rw [columns, settings]

theorem rowOpportunity_of_none (gone : s.program.rows.get? i = none) : s.rowOpportunity? i = none := by
  unfold rowOpportunity?
  rw [gone]
  rfl

theorem columnOpportunity_of_none (gone : s.program.columns.get? j = none) :
    s.columnOpportunity? j = none := by
  unfold columnOpportunity?
  rw [gone]
  rfl

end Session

namespace Opportunity.Frames

variable {s t : Session α} {e : Opportunity} (frames : e.Frames s.program t.program)
    (settings : t.settings = s.settings)
include frames settings

/-- A row in which there is something to eliminate is woken, or there was something to eliminate before. -/
theorem row_proposed {l : Nat} (proposed : (t.rowOpportunity? l).isSome = true) :
    (s.rowOpportunity? l).isSome = true ∨ l ∈ e.wakesRows := by
  rcases frames.rows l with same | gone | woken
  · exact .inl (Session.isSome_rowOpportunity_congr same settings ▸ proposed)
  · rw [Session.rowOpportunity_of_none gone] at proposed
    cases proposed
  · exact .inr woken

theorem column_proposed {k : Nat} (proposed : (t.columnOpportunity? k).isSome = true) :
    (s.columnOpportunity? k).isSome = true ∨ k ∈ e.wakesColumns := by
  rcases frames.columns k with same | gone | woken
  · exact .inl (Session.columnOpportunity_congr same settings ▸ proposed)
  · rw [Session.columnOpportunity_of_none gone] at proposed
    cases proposed
  · exact .inr woken

end Opportunity.Frames

namespace Agenda

variable {s t : Session α} {agenda rest : Agenda} {e : Opportunity} {added : Added}

theorem mem_enqueue {queue newcomers : List Nat} {k : Nat} :
    k ∈ enqueue queue newcomers ↔ k ∈ queue ∨ k ∈ newcomers := by
  induction newcomers generalizing queue with
  | nil => simp [enqueue]
  | cons first others inductionHypothesis =>
    rw [enqueue, List.foldl_cons, ← enqueue, inductionHypothesis]
    by_cases waiting : first ∈ queue
    · rw [if_pos waiting, List.mem_cons]
      constructor
      · rintro (earlier | later)
        · exact .inl earlier
        · exact .inr (.inr later)
      · rintro (earlier | rfl | later)
        · exact .inl earlier
        · exact .inl waiting
        · exact .inr later
    · rw [if_neg waiting, List.mem_append, List.mem_singleton, List.mem_cons, or_assoc]

/-- Every row and column in which there is something to eliminate is on the agenda. -/
structure Covers (agenda : Agenda) (s : Session α) : Prop where
  rows : ∀ i, (s.rowOpportunity? i).isSome = true → i ∈ agenda.rows
  columns : ∀ j, (s.columnOpportunity? j).isSome = true → j ∈ agenda.columns

theorem covers_full (s : Session α) : (full s.program).Covers s := by
  refine ⟨fun i proposed => ?_, fun j proposed => ?_⟩
  · cases active : s.program.rows.get? i with
    | none =>
      rw [Session.rowOpportunity_of_none active] at proposed
      cases proposed
    | some row => exact Slots.mem_ordinals.2 (Slots.isActive_of_eq_some active)
  · cases active : s.program.columns.get? j with
    | none =>
      rw [Session.columnOpportunity_of_none active] at proposed
      cases proposed
    | some column => exact Slots.mem_ordinals.2 (Slots.isActive_of_eq_some active)

theorem Covers.exhausted (covers : agenda.Covers s) (none_found : agenda.next? s = none) : s.Exhausted := by
  obtain ⟨rows, columns⟩ := next?_eq_none none_found
  refine ⟨fun i => ?_, fun j => ?_⟩
  · cases proposed : s.rowOpportunity? i with
    | none => rfl
    | some e => exact proposed ▸ rows i (covers.rows i (by rw [proposed]; rfl))
  · cases proposed : s.columnOpportunity? j with
    | none => rfl
    | some e => exact proposed ▸ columns j (covers.columns j (by rw [proposed]; rfl))

/-- What is left on the agenda, and what was woken, covers all that is left to eliminate. -/
theorem Covers.wake (covers : agenda.Covers s) (found : agenda.next? s = some (e, rest))
    (same : s.program.Transposed) (performs : s.Performs e.reduction e.ordinal added t) :
    (rest.wake e).Covers t := by
  rcases next?_eq_some found with ⟨i, proposal, columns, others⟩ | ⟨j, proposal, nothing, others⟩
  · obtain ⟨frames, gone⟩ := proposal.frames same performs
    refine ⟨fun l proposed => mem_enqueue.2 ?_, fun k proposed => mem_enqueue.2 ?_⟩
    · rcases frames.row_proposed performs.settings_eq proposed with before | woken
      · rcases others l (covers.rows l before) before with rfl | later
        · rw [Session.rowOpportunity_of_none gone] at proposed
          cases proposed
        · exact .inl later
      · exact .inr woken
    · rw [columns]
      exact (frames.column_proposed performs.settings_eq proposed).imp_left (covers.columns k)
  · obtain ⟨frames, gone⟩ := proposal.frames same performs
    refine ⟨fun l proposed => mem_enqueue.2 ?_, fun k proposed => mem_enqueue.2 ?_⟩
    · rcases frames.row_proposed performs.settings_eq proposed with before | woken
      · rw [nothing l (covers.rows l before)] at before
        cases before
      · exact .inr woken
    · rcases frames.column_proposed performs.settings_eq proposed with before | woken
      · rcases others k (covers.columns k before) before with rfl | later
        · rw [Session.columnOpportunity_of_none gone] at proposed
          cases proposed
        · exact .inl later
      · exact .inr woken

theorem next?_isElimination (found : agenda.next? s = some (e, rest)) :
    e.reduction.isElimination = true := by
  rcases next?_eq_some found with ⟨i, proposal, _⟩ | ⟨j, proposal, _⟩
  · exact proposal.isElimination
  · exact proposal.isElimination

end Agenda

/-! ## Working through -/

omit [Scalar α] in
theorem Program.Counted.extent_le {p : Program α} (counted : p.Counted) :
    p.extent ≤ p.rows.size + p.columns.size := by
  rw [extent, ← counted.rows, ← counted.columns]
  exact Nat.add_le_add p.rows.length_active_le p.columns.length_active_le

theorem Session.Exhausted.of_extent {s : Session α} (counted : s.program.Counted)
    (empty : s.program.extent = 0) : s.Exhausted := by
  obtain ⟨rows, columns⟩ := Nat.add_eq_zero_iff.1 empty
  rw [← counted.rows, List.length_eq_zero_iff] at rows
  rw [← counted.columns, List.length_eq_zero_iff] at columns
  refine ⟨fun i => Session.rowOpportunity_of_none ?_, fun j => Session.columnOpportunity_of_none ?_⟩
  · refine Option.eq_none_iff_forall_ne_some.2 fun row active => ?_
    rw [← Slots.mem_active, rows] at active
    cases active
  · refine Option.eq_none_iff_forall_ne_some.2 fun column active => ?_
    rw [← Slots.mem_active, columns] at active
    cases active

namespace Step

open Fault (Ends)

variable [LawfulScalar α] {s t : Session α}

/-- Nothing is left to eliminate after an agenda is worked through that covers everything. -/
theorem workThrough_ends {n budget : Nat} {agenda : Agenda} (same : s.program.Transposed)
    (before : s.Eliminates n t) (counted : t.program.Counted) (enough : t.program.extent ≤ budget)
    (covers : agenda.Covers t) :
    Ends (workThrough budget agenda) t (fun _ u => u.Exhausted ∧ ∃ m, s.Eliminates m u)
      fun _ u => ∃ m, s.Eliminates m u := by
  induction budget generalizing t n agenda with
  | zero => exact .pure ⟨.of_extent counted (Nat.le_zero.1 enough), n, before⟩
  | succ budget inductionHypothesis =>
    refine .bind (.get ?_)
    cases found : agenda.next? t with
    | none => exact .pure ⟨covers.exhausted found, n, before⟩
    | some next =>
      obtain ⟨e, rest⟩ := next
      have transposed := before.transposed same
      have elimination := Agenda.next?_isElimination found
      have reduced := (reduce_ends transposed e.reduction e.ordinal).with_result
      refine .bind (.discard (reduced.mono (fun added u done => ?_) fun fault u stops => ?_))
      · have smaller := done.2.extent_lt elimination counted
        exact inductionHypothesis (.eliminate before elimination done.1) (done.2.counted counted) (by omega)
          (covers.wake found transposed done.2)
      · rw [stops.1]
        exact ⟨n, before⟩

/-- Eliminations end, and then nothing is left to eliminate. -/
theorem exhaust_ends (same : s.program.Transposed) (counted : s.program.Counted) :
    Ends exhaust s (fun _ t => t.Exhausted ∧ ∃ n, s.Eliminates n t) fun _ t => ∃ n, s.Eliminates n t := by
  -- No more eliminations can be made than are allowed for.
  exact .bind (.get (workThrough_ends same .refl counted counted.extent_le (Agenda.covers_full s)))

/-- Simplification only eliminates unless it is to bring the program in standard form. -/
theorem simplify_eliminates (same : s.program.Transposed) (counted : s.program.Counted)
    (unformed : s.settings.standardForm = false) :
    Ends simplify s (fun _ t => t.Exhausted ∧ ∃ n, s.Eliminates n t) fun _ t => ∃ n, s.Eliminates n t := by
  refine .bind ((exhaust_ends same counted).mono (fun _ t ⟨exhausted, n, eliminates⟩ => .bind (.get ?_))
    fun _ _ stops => stops)
  have settings := (eliminates.reducesTo.reaches.advances same).settings_eq
  rw [settings, unformed]
  exact .bind (.get (.bind (.ensure fun _ => .pure ⟨exhausted, n, eliminates⟩)))

end Step

end LinearReduction
