import LinearReduction.Proofs.Session.Balance
import LinearReduction.Proofs.Session.Eligible

/-!
# Eliminations

The reductions that make a program smaller and never larger. Main statements: what each of them makes of a
program, and `Session.Eliminates.extent_le`, that there can't be more of them than there are rows and columns.
-/

namespace LinearReduction

variable {α : Type} [Scalar α]

/-- Whether a reduction makes a program smaller and never larger. -/
def Reduction.isElimination : Reduction → Bool
  | .dropFreeRow | .substituteFixed | .dropEmptyRow | .settleEmpty | .settleSingleton => true
  | _ => false

/-- Number of rows and columns that are there. -/
def Program.extent (p : Program α) : Nat :=
  p.rows.occupied + p.columns.occupied

/-- No elimination applies to any row or column. -/
def Program.Irreducible (p : Program α) : Prop :=
  ∀ r k, r.isElimination = true → ¬ p.Eligible r k

/-- Sessions that a number of eliminations leads to. -/
inductive Session.Eliminates (s : Session α) : Nat → Session α → Prop where
  | refl : Eliminates s 0 s
  | eliminate {n : Nat} {t u : Session α} {r : Reduction} {k : Nat} {added : Added}
      (before : Eliminates s n t)
      (elimination : r.isElimination = true) (result : Step.reduce r k t = .ok added u) :
        Eliminates s (n + 1) u

/-! ## Extent -/

namespace Record

variable {r : Record α}

omit [Scalar α] in
theorem addsRow_eq_false (elimination : r.reduction.isElimination = true) : r.addsRow = false := by
  cases r with
  | splitUpper => cases elimination
  | _ => rfl

omit [Scalar α] in
theorem addsColumn_eq_false (elimination : r.reduction.isElimination = true) : r.addsColumn = false := by
  cases r with
  | addSurplus | addSlack | splitFree | splitUpper => cases elimination
  | _ => rfl

omit [Scalar α] in
theorem empties_of_unsettled (elimination : r.reduction.isElimination = true)
    (unsettled : r.settled? = none) : 0 < r.emptiedRow?.isSome.toNat + r.emptiedColumn?.isSome.toNat := by
  cases r with
  | dropFreeRow | substituteFixed | dropEmptyRow => exact Nat.one_pos
  | settleEmpty | settleSingleton => cases unsettled
  | _ => cases elimination

end Record

theorem Rewrite.extent_eq {settings : Settings α} {p q : Program α} {r : Record α}
    (rewrite : Rewrite settings p r q) (counted : p.Counted) :
    q.extent + (r.emptiedRow?.isSome.toNat + r.emptiedColumn?.isSome.toNat) =
      p.extent + (r.addsRow.toNat + r.addsColumn.toNat) := by
  have rows := rewrite.rows_reshaped.occupied_eq (Slots.isCounted_shape.2 counted.rows)
  have columns := rewrite.columns_reshaped.occupied_eq (Slots.isCounted_shape.2 counted.columns)
  rw [Slots.occupied_shape, Slots.occupied_shape] at rows columns
  unfold Program.extent
  omega

namespace Session

variable {s t u : Session α} {r : Reduction} {k n : Nat} {added : Added}

theorem Performs.counted (performs : s.Performs r k added t) (counted : s.program.Counted) :
    t.program.Counted := by
  obtain ⟨news, move, _⟩ := performs.move
  exact (History.of_move move).rewrites.counted counted

theorem Performs.transposed (performs : s.Performs r k added t) (same : s.program.Transposed) :
    t.program.Transposed :=
  (Advances.of_moves performs.moves).transposed same

/-- An elimination leaves fewer rows and columns. -/
theorem Performs.extent_lt (performs : s.Performs r k added t) (elimination : r.isElimination = true)
    (counted : s.program.Counted) : t.program.extent < s.program.extent := by
  obtain ⟨news, move, _, _, first, last, named, _⟩ := performs.move
  rw [← named] at elimination
  generalize t.program = u at move ⊢
  cases move with
  | @single _ record rewrite unsettled =>
    obtain rfl : record = first := Option.some.inj last
    have size := rewrite.extent_eq counted
    have empties := Record.empties_of_unsettled elimination unsettled
    rw [Record.addsRow_eq_false elimination, Record.addsColumn_eq_false elimination] at size
    exact Nat.lt_of_lt_of_eq (Nat.lt_add_of_pos_right empties) size
  | @settled q record j column rewrite settles active fixed finite =>
    obtain rfl : record = first := Option.some.inj last
    have size := rewrite.extent_eq counted
    rw [Record.addsRow_eq_false elimination, Record.addsColumn_eq_false elimination] at size
    -- The column that was settled is removed by the record after it.
    have removal : Rewrite s.settings q _ (q.substituted j column) := .substituteFixed active fixed finite
    have removed : (q.substituted j column).extent + 1 = q.extent :=
      removal.extent_eq (rewrite.counted counted)
    have settled : q.extent ≤ s.program.extent := Nat.le_of_add_right_le (Nat.le_of_eq size)
    exact Nat.lt_of_lt_of_le (Nat.lt_of_succ_le (Nat.le_of_eq removed)) settled

theorem Eliminates.reducesTo (eliminates : s.Eliminates n t) : s.ReducesTo t := by
  induction eliminates with
  | refl => exact .refl
  | eliminate before elimination result inductionHypothesis => exact .reduce inductionHypothesis result

variable [LawfulScalar α]

theorem Eliminates.transposed (eliminates : s.Eliminates n t) (same : s.program.Transposed) :
    t.program.Transposed :=
  (eliminates.reducesTo.reaches.advances same).transposed same

/-- There are at most as many eliminations as there are rows and columns. -/
theorem Eliminates.extent_le (eliminates : s.Eliminates n t) (same : s.program.Transposed)
    (counted : s.program.Counted) : t.program.Counted ∧ t.program.extent + n ≤ s.program.extent := by
  induction eliminates with
  | refl => exact ⟨counted, Nat.le_refl _⟩
  | eliminate before elimination result inductionHypothesis =>
    obtain ⟨counted, most⟩ := inductionHypothesis
    have performs := (Step.reduce_ends (before.transposed same) _ _).done_of_eq_ok result
    have smaller := performs.extent_lt elimination counted
    exact ⟨performs.counted counted, by omega⟩

end Session

/-! ## What eliminations make of a program -/

/-- It makes no difference which bounds a column had before it is removed. -/
theorem Program.substituted_boundedColumn (p : Program α) (j : Nat) (bounds : Bounds α) (column : Column α) :
    (p.boundedColumn j bounds).substituted j column = p.substituted j column := by
  have cleared : (p.boundedColumn j bounds).withoutColumn j = p.withoutColumn j := by
    have columns : (p.boundedColumn j bounds).columns.clear j = p.columns.clear j := by
      refine Slots.ext_get? (by simp [Program.boundedColumn, Program.adjustColumn]) rfl fun k => ?_
      rw [Slots.get?_clear, Slots.get?_clear, Program.columns_boundedColumn]
      split <;> rfl
    rw [Program.withoutColumn, columns]
    rfl
  rw [Program.substituted, cleared]
  rfl

namespace Session.Performs

variable {s t : Session α} {i j : Nat} {added : Added}

theorem of_dropFreeRow (performs : s.Performs .dropFreeRow i added t) :
    ∃ row, s.program.rows.get? i = some row ∧ row.bounds.isFree = true ∧
    t.program = s.program.withoutRow i := by
  obtain ⟨record, named, same, rewrite⟩ := performs.rewrite nofun nofun
  generalize t.program = q at rewrite ⊢
  cases rewrite with
  | @dropFreeRow n row active free =>
    obtain rfl : n = i := same
    exact ⟨row, active, free, rfl⟩
  | _ => cases named

theorem of_dropEmptyRow (performs : s.Performs .dropEmptyRow i added t) :
    ∃ row, s.program.rows.get? i = some row ∧ row.entries = [] ∧
    ¬ (row.bounds.lower > s.settings.absoluteTolerance ∨
      row.bounds.upper < -s.settings.absoluteTolerance) ∧ t.program = s.program.withoutRow i := by
  obtain ⟨record, named, same, rewrite⟩ := performs.rewrite nofun nofun
  generalize t.program = q at rewrite ⊢
  cases rewrite with
  | @dropEmptyRow n row active empty within =>
    obtain rfl : n = i := same
    exact ⟨row, active, empty, within, rfl⟩
  | _ => cases named

theorem of_substituteFixed (performs : s.Performs .substituteFixed j added t) : ∃ column,
    s.program.columns.get? j = some column ∧ column.bounds.isPoint = true ∧
      Scalar.isFinite column.bounds.lower = true ∧ t.program = s.program.substituted j column := by
  obtain ⟨record, named, same, rewrite⟩ := performs.rewrite nofun nofun
  generalize t.program = q at rewrite ⊢
  cases rewrite with
  | @substituteFixed n column active fixed finite =>
    obtain rfl : n = j := same
    exact ⟨column, active, fixed, finite, rfl⟩
  | _ => cases named

theorem of_settleEmpty (performs : s.Performs .settleEmpty j added t) : ∃ column,
    s.program.columns.get? j = some column ∧ column.entries = [] ∧
      Step.isUnboundedDirection column.bounds column.cost s.settings.absoluteTolerance = false ∧
        t.program = s.program.substituted j
          { column with bounds := .point (Step.bestValue column.bounds column.cost).1 } := by
  obtain ⟨record, q, k, settled, named, same, rewrite, settles, active, _, _, left⟩ :=
    performs.settles (.inl rfl)
  cases rewrite with
  | @settleEmpty n column before empty bounded =>
    obtain rfl : n = j := same
    cases settles
    rw [Program.columns_boundedColumn, if_pos rfl, before, Option.map_some] at active
    cases active
    exact ⟨column, before, empty, bounded, left.trans (Program.substituted_boundedColumn ..)⟩
  | _ => cases named

theorem of_settleSingleton (performs : s.Performs .settleSingleton i added t) : ∃ row j coefficient column,
    s.program.rows.get? i = some row ∧ row.bounds.isPoint = true ∧ row.entries = [(j, coefficient)] ∧
      s.program.columns.get? j = some column ∧
        Step.admits s.settings column.bounds (row.bounds.lower / coefficient) = true ∧
          t.program = (s.program.withoutRow i).substituted j
            { column with
              bounds := .point (row.bounds.lower / coefficient), entries := column.entries.erase i } := by
  obtain ⟨record, q, k, settled, named, same, rewrite, settles, active, _, _, left⟩ :=
    performs.settles (.inr rfl)
  cases rewrite with
  | @settleSingleton n _ row column coefficient row_active equality single column_active admitted =>
    obtain rfl : n = i := same
    cases settles
    rw [Program.columns_settledBy, column_active, Option.map_some, if_pos rfl] at active
    cases active
    exact ⟨row, _, coefficient, column, row_active, equality, single, column_active, admitted,
      left.trans (Program.substituted_boundedColumn ..)⟩
  | _ => cases named

end Session.Performs

end LinearReduction
