import LinearReduction.Proofs.Session.Rules
import LinearReduction.Session.Agenda

/-!
# Rows and columns that a reduction applies to

What each reduction asks of a row or column. Main statement: `Agenda.next?_eligible`, that an agenda proposes
only eliminations that apply.
-/

namespace LinearReduction

variable {α : Type} [Scalar α]

/-- What a reduction asks of a row or column. -/
def Program.Eligible (p : Program α) (r : Reduction) (k : Nat) : Prop :=
  match r with
  | .dropFreeRow => ∃ row, p.rows.get? k = some row ∧ row.bounds.isFree = true
  | .addSurplus => ∃ row, p.rows.get? k = some row ∧ Scalar.isFinite row.bounds.lower = true ∧
      row.bounds.lower < row.bounds.upper
  | .addSlack => ∃ row, p.rows.get? k = some row ∧ Scalar.isFinite row.bounds.upper = true ∧
      row.bounds.lower < row.bounds.upper
  | .splitFree => ∃ column, p.columns.get? k = some column ∧ column.bounds.isFree = true
  | .shiftLower => ∃ column, p.columns.get? k = some column ∧ Scalar.isFinite column.bounds.lower = true
  | .flipUpper => ∃ column, p.columns.get? k = some column ∧ Scalar.isFinite column.bounds.upper = true
  | .splitUpper => ∃ column, p.columns.get? k = some column ∧ (column.bounds.lower == 0) = true ∧
      Scalar.isFinite column.bounds.upper = true
  | .substituteFixed => ∃ column, p.columns.get? k = some column ∧ column.bounds.isPoint = true
  | .dropEmptyRow => ∃ row, p.rows.get? k = some row ∧ row.entries = []
  | .settleEmpty => ∃ column, p.columns.get? k = some column ∧ column.entries = []
  | .settleSingleton => ∃ row j coefficient, p.rows.get? k = some row ∧ row.bounds.isPoint = true ∧
      row.entries = [(j, coefficient)]

/-- What an opportunity proposes can be done. -/
def Opportunity.Eligible (e : Opportunity) (p : Program α) : Prop :=
  p.Eligible e.reduction e.ordinal

variable {s : Session α} {e : Opportunity}

/-! ## Reductions as rewrites -/

namespace Session.Performs

variable {t : Session α} {r : Reduction} {k : Nat} {added : Added}

/-- A reduction that settles no column is a single rewrite. -/
theorem rewrite (performs : s.Performs r k added t) (not_empty : r ≠ .settleEmpty)
    (not_single : r ≠ .settleSingleton) : ∃ record, record.reduction = r ∧ record.ordinal = k ∧
    Rewrite s.settings s.program record t.program := by
  obtain ⟨news, move, _, _, first, last, rfl, rfl⟩ := performs.move
  generalize t.program = q at move
  cases move with
  | single rewrite unsettled =>
    cases last
    exact ⟨_, rfl, rfl, rewrite⟩
  | settled rewrite settles active fixed finite =>
    cases last
    cases rewrite with
    | settleEmpty => exact absurd rfl not_empty
    | settleSingleton => exact absurd rfl not_single
    | _ => cases settles

/-- A reduction that settles a column makes a rewrite and removes the column. -/
theorem settles (performs : s.Performs r k added t) (kind : r = .settleEmpty ∨ r = .settleSingleton) :
    ∃ record q j column, record.reduction = r ∧ record.ordinal = k ∧ Rewrite s.settings s.program record q ∧
      record.settled? = some j ∧ q.columns.get? j = some column ∧ column.bounds.isPoint = true ∧
        Scalar.isFinite column.bounds.lower = true ∧ t.program = q.substituted j column := by
  obtain ⟨news, move, _, _, first, last, rfl, rfl⟩ := performs.move
  generalize t.program = u at move
  cases move with
  | single rewrite unsettled =>
    cases last
    cases rewrite with
    | settleEmpty => cases unsettled
    | settleSingleton => cases unsettled
    | _ => simp [Record.reduction] at kind
  | settled rewrite settles active fixed finite =>
    cases last
    exact ⟨_, _, _, _, rfl, rfl, rewrite, settles, active, fixed, finite, rfl⟩

end Session.Performs

/-! ## Eliminations that are proposed -/

namespace Session

/-- The elimination that is proposed for a row, with the rows and columns that lose coefficients to it. -/
inductive RowOpportunity (s : Session α) (i : Nat) : Opportunity → Prop where
  | dropEmptyRow {row : Row α} (active : s.program.rows.get? i = some row) (empty : row.entries = [])
      (wanted : s.settings.dropEmpty = true) : RowOpportunity s i ⟨.dropEmptyRow, i, [], []⟩
  | dropFreeRow {row : Row α} (active : s.program.rows.get? i = some row) (free : row.bounds.isFree = true) :
      RowOpportunity s i ⟨.dropFreeRow, i, [], row.entries.ordinals⟩
  | settleSingleton {row : Row α} {j : Nat} {coefficient : α} (active : s.program.rows.get? i = some row)
      (equality : row.bounds.isPoint = true) (single : row.entries = [(j, coefficient)])
      (wanted : s.settings.dropSingletonRows = true) :
      RowOpportunity s i ⟨.settleSingleton, i, (s.program.rowsOf j).filter (· != i), []⟩

/-- The elimination that is proposed for a column, with the rows that lose coefficients to it. -/
inductive ColumnOpportunity (s : Session α) (j : Nat) : Opportunity → Prop where
  | settleEmpty {column : Column α} (active : s.program.columns.get? j = some column)
      (empty : column.entries = [])
      (wanted : s.settings.dropEmpty = true) : ColumnOpportunity s j ⟨.settleEmpty, j, [], []⟩
  | substituteFixed {column : Column α} (active : s.program.columns.get? j = some column)
      (fixed : column.bounds.isPoint = true) :
      ColumnOpportunity s j ⟨.substituteFixed, j, column.entries.ordinals, []⟩

theorem rowOpportunity_of_eq_some {i : Nat} (found : s.rowOpportunity? i = some e) :
    s.RowOpportunity i e := by
  unfold rowOpportunity? at found
  cases active : s.program.rows.get? i with
  | none =>
    rw [active] at found
    cases found
  | some row =>
    simp only [active, Option.bind_eq_bind, Option.bind_some] at found
    split at found
    case isTrue empty =>
      cases found
      obtain ⟨degree, wanted⟩ := Bool.and_eq_true_iff.1 empty
      exact .dropEmptyRow active (List.length_eq_zero_iff.1 (eq_of_beq degree)) wanted
    case isFalse =>
      split at found
      case isTrue free =>
        cases found
        exact .dropFreeRow active free
      case isFalse =>
        split at found
        case h_1 j coefficient single =>
          split at found
          case isTrue equality =>
            cases found
            obtain ⟨equality, wanted⟩ := Bool.and_eq_true_iff.1 equality
            exact .settleSingleton active equality single wanted
          case isFalse => cases found
        case h_2 => cases found

theorem columnOpportunity_of_eq_some {j : Nat} (found : s.columnOpportunity? j = some e) :
    s.ColumnOpportunity j e := by
  unfold columnOpportunity? at found
  cases active : s.program.columns.get? j with
  | none =>
    rw [active] at found
    cases found
  | some column =>
    simp only [active, Option.bind_eq_bind, Option.bind_some] at found
    split at found
    case isTrue empty =>
      cases found
      obtain ⟨degree, wanted⟩ := Bool.and_eq_true_iff.1 empty
      exact .settleEmpty active (List.length_eq_zero_iff.1 (eq_of_beq degree)) wanted
    case isFalse =>
      split at found
      case isTrue fixed =>
        cases found
        exact .substituteFixed active fixed
      case isFalse => cases found

theorem RowOpportunity.eligible {i : Nat} (found : s.RowOpportunity i e) : e.Eligible s.program := by
  cases found with
  | dropEmptyRow active empty wanted => exact ⟨_, active, empty⟩
  | dropFreeRow active free => exact ⟨_, active, free⟩
  | settleSingleton active equality single wanted => exact ⟨_, _, _, active, equality, single⟩

theorem ColumnOpportunity.eligible {j : Nat} (found : s.ColumnOpportunity j e) : e.Eligible s.program := by
  cases found with
  | settleEmpty active empty wanted => exact ⟨_, active, empty⟩
  | substituteFixed active fixed => exact ⟨_, active, fixed⟩

end Session

namespace Agenda

variable {applies : Nat → Option Opportunity} {queue rest : List Nat}

omit [Scalar α] in
theorem firstOf_eq_none (none_found : firstOf applies queue = none) : ∀ k ∈ queue, applies k = none := by
  induction queue with
  | nil => nofun
  | cons k later inductionHypothesis =>
    unfold firstOf at none_found
    cases applied : applies k with
    | some other =>
      rw [applied] at none_found
      cases none_found
    | none =>
      rw [applied] at none_found
      exact List.forall_mem_cons.2 ⟨applied, inductionHypothesis none_found⟩

omit [Scalar α] in
/-- Whatever was passed over has nothing that applies. -/
theorem firstOf_eq_some (found : firstOf applies queue = some (e, rest)) :
    ∃ k, applies k = some e ∧ ∀ l ∈ queue, (applies l).isSome = true → l = k ∨ l ∈ rest := by
  induction queue with
  | nil => cases found
  | cons k later inductionHypothesis =>
    unfold firstOf at found
    cases applied : applies k with
    | some other =>
      rw [applied] at found
      cases found
      exact ⟨k, applied, fun l listed _ => List.mem_cons.1 listed⟩
    | none =>
      rw [applied] at found
      obtain ⟨first, applied_first, others⟩ := inductionHypothesis found
      refine ⟨first, applied_first, fun l listed proposed => ?_⟩
      rcases List.mem_cons.1 listed with rfl | listed
      · rw [applied] at proposed
        cases proposed
      · exact others l listed proposed

variable {agenda remaining : Agenda}

theorem next?_eq_none (none_found : agenda.next? s = none) :
    (∀ i ∈ agenda.rows, s.rowOpportunity? i = none) ∧ ∀ j ∈ agenda.columns,
    s.columnOpportunity? j = none := by
  unfold next? at none_found
  split at none_found
  case h_1 => cases none_found
  case h_2 rows_none =>
    exact ⟨firstOf_eq_none rows_none, firstOf_eq_none (Option.map_eq_none_iff.1 none_found)⟩

/-- The next elimination is one of a row, or one of a column if there is none of a row. -/
theorem next?_eq_some (found : agenda.next? s = some (e, remaining)) :
    (∃ i, s.RowOpportunity i e ∧ remaining.columns = agenda.columns ∧
      ∀ l ∈ agenda.rows, (s.rowOpportunity? l).isSome = true → l = i ∨ l ∈ remaining.rows) ∨
    (∃ j, s.ColumnOpportunity j e ∧ (∀ l ∈ agenda.rows, s.rowOpportunity? l = none) ∧
      ∀ k ∈ agenda.columns, (s.columnOpportunity? k).isSome = true → k = j ∨ k ∈ remaining.columns) := by
  unfold next? at found
  split at found
  case h_1 row_found =>
    cases found
    obtain ⟨i, applied, others⟩ := firstOf_eq_some row_found
    exact .inl ⟨i, Session.rowOpportunity_of_eq_some applied, rfl, others⟩
  case h_2 rows_none =>
    obtain ⟨⟨e, columns⟩, column_found, same⟩ := Option.map_eq_some_iff.1 found
    cases same
    obtain ⟨j, applied, others⟩ := firstOf_eq_some column_found
    exact .inr ⟨j, Session.columnOpportunity_of_eq_some applied, firstOf_eq_none rows_none, others⟩

/-- The next elimination on an agenda is one that can be done. -/
theorem next?_eligible (found : agenda.next? s = some (e, remaining)) : e.Eligible s.program := by
  rcases next?_eq_some found with ⟨i, proposed, _⟩ | ⟨j, proposed, _⟩
  · exact proposed.eligible
  · exact proposed.eligible

end Agenda

end LinearReduction
