import LinearReduction.Proofs.Scalar.Finite
import LinearReduction.Proofs.Session.StandardForm
import LinearReduction.Proofs.Session.Worklist

/-!
# Standard form is reached

Each of the three loops goes through a list that was made before it, while rows and columns are added. What is
added is in the form that the loop is to bring about, and no later loop takes it out of that form. Main
statement: `Session.Reaches.standard_form_reached`, for every session that calls lead to and any arithmetic in
which values that are equal stay equal when the same finite value is taken away from both.
-/

namespace LinearReduction

open Fault (Ends)

variable {α : Type} [Scalar α]

namespace Program

def RowsEqual (p : Program α) : Prop :=
  ∀ {i row}, p.rows.get? i = some row → row.bounds.isPoint = true

def ColumnsGrounded (p : Program α) : Prop :=
  ∀ {j column}, p.columns.get? j = some column → (column.bounds.lower == 0) = true

/-- All rows are equalities, and all columns are nonnegative, without an upper bound if that is asked for. -/
structure Standard (p : Program α) (settings : Settings α) : Prop where
  rows : p.RowsEqual
  columns : p.ColumnsGrounded
  uppers : settings.splitUpperBounds = true → ∀ {j column}, p.columns.get? j = some column →
    column.bounds.upper = Scalar.posInf

/-- What a reduction takes away from the bounds of rows is finite. -/
def SharesFinite (p : Program α) (r : Reduction) (j : Nat) : Prop :=
  match r with
  | .shiftLower => ∀ column, p.columns.get? j = some column → ∀ entry ∈ column.entries,
      Scalar.isFinite (entry.2 * column.bounds.lower) = true
  | .flipUpper => ∀ column, p.columns.get? j = some column → ∀ entry ∈ column.entries,
      Scalar.isFinite (entry.2 * column.bounds.upper) = true
  | _ => True

end Program

/-! ## What is taken away from the bounds of rows -/

theorem Edit.absorb_shares {p : Program α} {entries : Entries α} {cost value : α} :
    Ends (absorb entries cost value) p
    (fun _ _ => ∀ entry ∈ entries, Scalar.isFinite (entry.2 * value) = true) fun _ _ => True := by
  have rows : ∀ q : Program α, Ends (entries.forM fun entry => offsetRow entry.1 (entry.2 * value)) q
      (fun _ _ => ∀ entry ∈ entries, Scalar.isFinite (entry.2 * value) = true) fun _ _ => True := by
    induction entries with
    | nil => exact fun q => .pure (List.forall_mem_nil _)
    | cons first rest inductionHypothesis =>
      refine fun q => .bind (.bind (.ensure fun finite => .always (fun _ between => ?_) fun _ _ => trivial))
      exact (inductionHypothesis between).mono (fun _ _ others => List.forall_mem_cons.2 ⟨finite, others⟩)
        fun _ _ _ => trivial
  exact .bind (.ensure fun _ => .bind ((rows p).mono (fun _ _ shares => .modify shares) fun _ _ _ => trivial))

namespace Step

variable {s : Session α} {j : Nat}

/-- Whatever follows, a column is only measured from one of its bounds if the rows' shares of that bound are
    finite. -/
theorem reduce_shares (r : Reduction) (j : Nat) :
    Ends (reduce r j) s (fun _ _ => s.program.SharesFinite r j) fun _ _ => True := by
  cases r with
  | shiftLower =>
    refine .bind (.bind (fetchColumn_ends (fun column active => ?_) fun _ => trivial))
    refine .bind (.require (fun _ => ?_) fun _ => trivial)
    refine .bind (.edit (Edit.absorb_shares.mono (fun _ q shares => ?_) fun _ _ _ => trivial))
    have finite : s.program.SharesFinite .shiftLower j := fun other found => by
      cases active.symm.trans found
      exact shares
    exact .always (fun _ _ => .pure finite) fun _ _ => trivial
  | flipUpper =>
    refine .bind (.bind (fetchColumn_ends (fun column active => ?_) fun _ => trivial))
    refine .bind (.require (fun _ => ?_) fun _ => trivial)
    refine .bind (.edit (Edit.absorb_shares.mono (fun _ q shares => ?_) fun _ _ _ => trivial))
    have finite : s.program.SharesFinite .flipUpper j := fun other found => by
      cases active.symm.trans found
      exact shares
    exact .always (fun _ _ => .pure finite) fun _ _ => trivial
  | _ => exact .always (fun _ _ => trivial) fun _ _ => trivial

end Step

/-! ## Equalities stay equalities -/

theorem Row.isPoint_absorbing {row : Row α} (alike : Scalar.SubtractsAlike α)
    (equal : row.bounds.isPoint = true) {share : Option α} {value : α}
    (finite : ∀ coefficient, share = some coefficient →
      Scalar.isFinite (coefficient * value) = true) : (row.absorbing share value).bounds.isPoint = true := by
  cases share with
  | none => exact equal
  | some coefficient => exact alike _ _ _ equal (finite coefficient rfl)

namespace Session.Performs

variable {s t : Session α} {r : Reduction} {i j k : Nat} {added : Added}

theorem rowsEqual [LawfulFinite α] (performs : s.Performs r j added t) (same : s.program.Transposed)
    (alike : Scalar.SubtractsAlike α) (shares : s.program.SharesFinite r j)
    (kind : r = .splitFree ∨ r = .shiftLower ∨ r = .flipUpper ∨ r = .splitUpper)
    (equal : s.program.RowsEqual) : t.program.RowsEqual := by
  obtain ⟨record, rfl, named, rewrite⟩ :=
    performs.rewrite (by rintro rfl; simp at kind) (by rintro rfl; simp at kind)
  -- Rows that lose their share of a bound lose a finite one.
  have absorbed : ∀ {column : Column α} {value : α}, s.program.columns.get? j = some column →
      (∀ entry ∈ column.entries, Scalar.isFinite (entry.2 * value) = true) → ∀ l row,
        s.program.rows.get? l = some row →
        (row.absorbing (column.entries.lookup l) value).bounds.isPoint = true := by
    intro column value active finite l row found
    refine row.isPoint_absorbing alike (equal found) fun coefficient listed => ?_
    have distinct := same.columns_nodup j column active
    exact finite _ ((Entries.lookup_eq_some_iff distinct).1 listed)
  intro l row found
  generalize t.program = q at rewrite found
  cases rewrite with
  | @splitFree n column active free =>
    rw [Program.rows_splitColumn _ (same.columns_nodup _ column active)] at found
    obtain ⟨before, there, rfl⟩ := Option.map_eq_some_iff.1 found
    rw [Row.bounds_extended]
    exact equal there
  | @shiftLower n column active finite =>
    obtain rfl : n = j := named
    rw [Program.rows_shiftedColumn _ (same.columns_nodup _ column active)] at found
    obtain ⟨before, there, rfl⟩ := Option.map_eq_some_iff.1 found
    exact absorbed active (shares column active) l before there
  | @flipUpper n column active finite =>
    obtain rfl : n = j := named
    rw [Program.rows_flippedColumn _ (same.columns_nodup _ column active)] at found
    obtain ⟨before, there, rfl⟩ := Option.map_eq_some_iff.1 found
    exact absorbed active (shares column active) l before there
  | @splitUpper n column active grounded finite =>
    rw [Program.rows_cappedColumn] at found
    split at found
    · cases found
      exact LawfulFinite.beq_self finite
    · exact equal found
  | _ => simp [Record.reduction] at kind

/-- A row that was made an equality is one. -/
theorem row_equal [LawfulFinite α] (performs : s.Performs r i added t)
    (kind : r = .dropFreeRow ∨ r = .addSurplus ∨ r = .addSlack) {row : Row α}
    (found : t.program.rows.get? i = some row) : row.bounds.isPoint = true := by
  obtain ⟨record, rfl, named, rewrite⟩ :=
    performs.rewrite (by rintro rfl; simp at kind) (by rintro rfl; simp at kind)
  generalize t.program = q at rewrite found
  cases rewrite with
  | @dropFreeRow n before active free =>
    obtain rfl : n = i := named
    rw [Program.rows_withoutRow, if_pos rfl] at found
    cases found
  | @addSurplus n before active finite inequality =>
    obtain rfl : n = i := named
    rw [Program.rows_withRange, if_pos rfl] at found
    obtain ⟨_, _, rfl⟩ := Option.map_eq_some_iff.1 found
    exact LawfulFinite.beq_self finite
  | @addSlack n before active finite inequality =>
    obtain rfl : n = i := named
    rw [Program.rows_withRange, if_pos rfl] at found
    obtain ⟨_, _, rfl⟩ := Option.map_eq_some_iff.1 found
    exact LawfulFinite.beq_self finite
  | _ => simp [Record.reduction] at kind

/-- A column whose upper bound was moved into a row has none. -/
theorem column_uncapped (performs : s.Performs .splitUpper j added t) {column : Column α}
    (found : t.program.columns.get? j = some column) : column.bounds.upper = Scalar.posInf := by
  obtain ⟨record, same, named, rewrite⟩ := performs.rewrite nofun nofun
  generalize t.program = q at rewrite found
  cases rewrite with
  | @splitUpper n before active grounded finite =>
    obtain rfl : n = j := named
    rw [Program.columns_cappedColumn _ (Slots.lt_size active), if_neg (Slots.ne_size active),
      if_pos rfl] at found
    obtain ⟨_, _, rfl⟩ := Option.map_eq_some_iff.1 found
    rfl
  | _ => cases same

/-- Another column has the bounds of one that was added, or those that it had. -/
theorem bounds_of_ne (performs : s.Performs r j added t)
    (kind : r = .splitFree ∨ r = .shiftLower ∨ r = .flipUpper ∨ r = .splitUpper) (apart : j ≠ k)
    {column : Column α} (found : t.program.columns.get? k = some column) : column.bounds = .nonnegative ∨
      ∃ before, s.program.columns.get? k = some before ∧ before.bounds = column.bounds := by
  rcases (performs.columns_bounds kind).2 k apart with ⟨_, other, also, nonnegative⟩ | kept
  · cases found.symm.trans also
    exact .inl nonnegative
  · rw [found, Option.map_some] at kept
    exact .inr (Option.map_eq_some_iff.1 kept.symm)

end Session.Performs

/-! ## The three loops -/

namespace Session

variable {settings : Settings α} {rest : List Nat} {s t : Session α} {r : Reduction} {i j : Nat}
    {added : Added}

/-- All rows are equalities but those that are still to be made equalities. -/
structure RowsFormed (settings : Settings α) (rest : List Nat) (s : Session α) : Prop where
  settings_eq : s.settings = settings
  transposed : s.program.Transposed
  rows : ∀ {i row}, s.program.rows.get? i = some row → i ∉ rest → row.bounds.isPoint = true

/-- All rows are equalities, and all columns start at zero but those that are still to be made nonnegative. -/
structure ColumnsFormed (settings : Settings α) (rest : List Nat) (s : Session α) : Prop where
  settings_eq : s.settings = settings
  transposed : s.program.Transposed
  rows : s.program.RowsEqual
  columns : ∀ {j column}, s.program.columns.get? j = some column → j ∉ rest →
    (column.bounds.lower == 0) = true

/-- All rows are equalities, all columns start at zero, and those that are still to lose their upper bounds
    are all that have a finite one. -/
structure UppersFormed (settings : Settings α) (rest : List Nat) (s : Session α) : Prop where
  settings_eq : s.settings = settings
  transposed : s.program.Transposed
  rows : s.program.RowsEqual
  columns : s.program.ColumnsGrounded
  uppers : ∀ {j column}, s.program.columns.get? j = some column →
    Scalar.isFinite column.bounds.upper = true → j ∈ rest

theorem RowsFormed.start (same : s.program.Transposed) :
    RowsFormed s.settings ((s.program.rows.active.filter (!·.2.bounds.isPoint)).map (·.1)) s where
  settings_eq := rfl
  transposed := same
  rows {i row} active out := by
    refine Bool.of_not_eq_false fun inequality => out (List.mem_map.2 ⟨(i, row), ?_, rfl⟩)
    exact List.mem_filter.2 ⟨Slots.mem_active.2 active, by rw [inequality]; rfl⟩

theorem RowsFormed.finished (formed : RowsFormed settings [] s) :
    ColumnsFormed settings s.program.columns.ordinals s where
  settings_eq := formed.settings_eq
  transposed := formed.transposed
  rows active := formed.rows active List.not_mem_nil
  columns active out := absurd (Slots.mem_ordinals.2 (Slots.isActive_of_eq_some active)) out

theorem ColumnsFormed.finished (formed : ColumnsFormed settings [] s) :
    UppersFormed settings ((s.program.columns.active.filter (Scalar.isFinite ·.2.bounds.upper)).map (·.1))
    s where
  settings_eq := formed.settings_eq
  transposed := formed.transposed
  rows := formed.rows
  columns active := formed.columns active List.not_mem_nil
  uppers active finite := List.mem_map.2 ⟨_, List.mem_filter.2 ⟨Slots.mem_active.2 active, finite⟩, rfl⟩

theorem ColumnsFormed.skip (formed : ColumnsFormed settings (j :: rest) s) {column : Column α}
    (active : s.program.columns.get? j = some column) (grounded : (column.bounds.lower == 0) = true) :
    ColumnsFormed settings rest s := by
  refine ⟨formed.settings_eq, formed.transposed, formed.rows, fun {k other} found out => ?_⟩
  by_cases same : k = j
  · subst same
    cases active.symm.trans found
    exact grounded
  · exact formed.columns found fun listed => (List.mem_cons.1 listed).elim same out

variable [LawfulFinite α]

theorem RowsFormed.tail (formed : RowsFormed settings (i :: rest) s) (performs : s.Performs r i added t)
    (kind : r = .dropFreeRow ∨ r = .addSurplus ∨ r = .addSlack) : RowsFormed settings rest t := by
  refine ⟨performs.settings_eq.trans formed.settings_eq, performs.transposed formed.transposed,
    fun {l row} found out => ?_⟩
  by_cases same : i = l
  · subst same
    exact performs.row_equal kind found
  · rw [performs.rows_eq kind same] at found
    exact formed.rows found fun listed => (List.mem_cons.1 listed).elim (Ne.symm same) out

variable [LawfulScalar α]

theorem ColumnsFormed.tail (formed : ColumnsFormed settings (j :: rest) s) (performs : s.Performs r j added t)
    (kind : r = .splitFree ∨ r = .shiftLower ∨ r = .flipUpper) (equal : t.program.RowsEqual) :
    ColumnsFormed settings rest t := by
  refine ⟨performs.settings_eq.trans formed.settings_eq, performs.transposed formed.transposed, equal,
    fun {k column} found out => ?_⟩
  have kinds := kind.imp_right (Or.imp_right (Or.inl (b := r = .splitUpper)))
  by_cases same : j = k
  · subst same
    rw [(performs.columns_bounds kinds).1 column found]
    exact LawfulFinite.zero_beq_zero
  · rcases performs.bounds_of_ne kinds same found with nonnegative | ⟨before, active, kept⟩
    · rw [nonnegative]
      exact LawfulFinite.zero_beq_zero
    · rw [← kept]
      exact formed.columns active fun listed => (List.mem_cons.1 listed).elim (Ne.symm same) out

theorem UppersFormed.tail (formed : UppersFormed settings (j :: rest) s)
    (performs : s.Performs .splitUpper j added t) (equal : t.program.RowsEqual) :
    UppersFormed settings rest t := by
  have kind : Reduction.splitUpper = .splitFree ∨ Reduction.splitUpper = .shiftLower ∨
      Reduction.splitUpper = .flipUpper ∨ Reduction.splitUpper = .splitUpper := .inr (.inr (.inr rfl))
  refine ⟨performs.settings_eq.trans formed.settings_eq, performs.transposed formed.transposed, equal,
    fun {k column} found => ?_, fun {k column} found finite => ?_⟩
  · by_cases same : j = k
    · subst same
      rw [(performs.columns_bounds kind).1 column found]
      exact LawfulFinite.zero_beq_zero
    · rcases performs.bounds_of_ne kind same found with nonnegative | ⟨before, active, kept⟩
      · rw [nonnegative]
        exact LawfulFinite.zero_beq_zero
      · rw [← kept]
        exact formed.columns active
  · have unbounded : Scalar.isFinite (Scalar.posInf : α) ≠ true :=
      Bool.eq_false_iff.1 LawfulScalar.isFinite_posInf
    by_cases same : j = k
    · subst same
      rw [performs.column_uncapped found] at finite
      exact absurd finite unbounded
    · rcases performs.bounds_of_ne kind same found with nonnegative | ⟨before, active, kept⟩
      · rw [nonnegative] at finite
        exact absurd finite unbounded
      · rw [← kept] at finite
        exact (List.mem_cons.1 (formed.uppers active finite)).resolve_left (Ne.symm same)

end Session

namespace Step

variable [LawfulScalar α] [LawfulFinite α] {settings : Settings α} {rest : List Nat} {s : Session α}
    {r : Reduction}
  {i j : Nat}

theorem equateRow_forms (formed : s.RowsFormed settings (i :: rest)) :
    Ends (equateRow i) s (fun _ t => t.RowsFormed settings rest) fun _ _ => True := by
  have round : ∀ r, r = .dropFreeRow ∨ r = .addSurplus ∨ r = .addSlack →
      Ends (discard (reduce r i)) s (fun _ t => t.RowsFormed settings rest) fun _ _ => True := fun r kind =>
    .discard ((reduce_ends formed.transposed r i).mono (fun _ _ performs => formed.tail performs kind)
      fun _ _ _ => trivial)
  refine .bind (fetchRow_ends (fun row active => ?_) fun _ => trivial)
  split
  · exact round _ (.inl rfl)
  · split
    · exact round _ (.inr (.inl rfl))
    · exact round _ (.inr (.inr rfl))

/-- A reduction of a column leaves all equalities as such. -/
theorem reduce_rowsEqual (alike : Scalar.SubtractsAlike α) (same : s.program.Transposed)
    (equal : s.program.RowsEqual) (kind : r = .splitFree ∨ r = .shiftLower ∨ r = .flipUpper ∨
      r = .splitUpper) : Ends (reduce r j) s (fun added t => s.Performs r j added t ∧ t.program.RowsEqual)
    fun _ _ => True := by
  have performs := (reduce_ends same r j).mono (fun _ _ performs => performs) fun _ _ _ => trivial
  refine (performs.and (reduce_shares r j)).mono (fun added t holds => ?_) fun _ _ _ => trivial
  exact ⟨holds.1, holds.1.rowsEqual same alike holds.2 kind equal⟩

theorem groundColumn_forms (alike : Scalar.SubtractsAlike α) (formed : s.ColumnsFormed settings (j :: rest)) :
    Ends (groundColumn j) s (fun _ t => t.ColumnsFormed settings rest) fun _ _ => True := by
  have round : ∀ r, r = .splitFree ∨ r = .shiftLower ∨ r = .flipUpper →
      Ends (discard (reduce r j)) s (fun _ t => t.ColumnsFormed settings rest)
          fun _ _ => True := fun r kind =>
    .discard ((reduce_rowsEqual alike formed.transposed formed.rows (kind.imp_right (Or.imp_right .inl))).mono
      (fun _ _ holds => formed.tail holds.1 kind holds.2) fun _ _ _ => trivial)
  refine .bind (fetchColumn_ends (fun column active => ?_) fun _ => trivial)
  split
  · exact round _ (.inl rfl)
  · split
    · split
      case isTrue grounded => exact .pure (formed.skip active grounded)
      case isFalse => exact round _ (.inr (.inl rfl))
    · exact round _ (.inr (.inr rfl))

theorem splitUpper_forms (alike : Scalar.SubtractsAlike α) (formed : s.UppersFormed settings (j :: rest)) :
    Ends (discard (reduce .splitUpper j)) s (fun _ t => t.UppersFormed settings rest) fun _ _ => True :=
  .discard ((reduce_rowsEqual alike formed.transposed formed.rows (.inr (.inr (.inr rfl)))).mono
    (fun _ _ holds => formed.tail holds.1 holds.2) fun _ _ _ => trivial)

/-- After all three loops, what has no finite upper bound is all that is left, if upper bounds were to be
    moved. -/
theorem toStandardForm_forms (alike : Scalar.SubtractsAlike α) (same : s.program.Transposed) :
    Ends toStandardForm s (fun _ t => t.ColumnsFormed s.settings [] ∧
      (s.settings.splitUpperBounds = true → t.UppersFormed s.settings [])) fun _ _ => True := by
  refine .bind (.get (.bind ?_))
  refine (Ends.forM_along (fun rest t => t.RowsFormed s.settings (rest.map (·.1))) (.start same)
    fun _ _ _ formed => equateRow_forms formed).mono (fun _ t formed => ?_) fun _ _ _ => trivial
  refine .bind (.get (.bind ?_))
  refine (Ends.forM_along (fun rest u => u.ColumnsFormed s.settings rest) formed.finished
    fun _ _ _ formed => groundColumn_forms alike formed).mono (fun _ u formed => ?_) fun _ _ _ => trivial
  refine .bind (.get ?_)
  dsimp only
  rw [formed.settings_eq]
  split
  case isTrue =>
    refine (Ends.forM_along (fun rest v => v.UppersFormed s.settings (rest.map (·.1))) formed.finished
      fun _ _ _ formed => splitUpper_forms alike formed).mono (fun _ v formed => ?_) fun _ _ _ => trivial
    exact ⟨⟨formed.settings_eq, formed.transposed, formed.rows, fun active _ => formed.columns active⟩,
      fun _ => formed⟩
  case isFalse whole => exact .pure ⟨formed, fun asked => absurd asked whole⟩

/-- The program is coherent in the end, so that a column without a finite upper bound has none. -/
theorem simplify_forms (alike : Scalar.SubtractsAlike α) (same : s.program.Transposed)
    (counted : s.program.Counted) (form : s.settings.standardForm = true) :
    Ends simplify s (fun _ t => t.program.Standard s.settings) fun _ _ => True := by
  refine .bind ((exhaust_ends same counted).mono (fun _ t ⟨_, n, eliminates⟩ => .bind (.get ?_))
    fun _ _ _ => trivial)
  have settings := (eliminates.reducesTo.reaches.advances same).settings_eq
  rw [settings, form]
  refine .bind ((toStandardForm_forms alike (eliminates.transposed same)).mono
    (fun _ u ⟨formed, uppers⟩ => ?_) fun _ _ _ => trivial)
  rw [settings] at formed uppers
  refine .bind (.get (.bind (.ensure fun coherent => .pure ?_)))
  have bounded := (Program.isCoherent_iff.1 coherent).bounded
  refine ⟨formed.rows, fun active => formed.columns active List.not_mem_nil, fun asked j column active => ?_⟩
  have proper := bounded.columns j column active
  have infinite : Scalar.isFinite column.bounds.upper = false :=
    Bool.eq_false_iff.2 fun finite => absurd ((uppers asked).uppers active finite) List.not_mem_nil
  simp only [Bounds.isProper, Bool.and_eq_true, decide_eq_true_eq] at proper
  exact LawfulFinite.eq_posInf_of_le proper.1.1.1 infinite proper.1.2

end Step

/-- If simplification is to bring the program in standard form and is done, then all rows are equalities and
    all columns are nonnegative, those that were added among them. They have no upper bounds if these were to
    be moved as well. -/
theorem Session.Reaches.standard_form_reached [LawfulScalar α] [LawfulFinite α] {p : Program α}
    {settings : Settings α} {start s t : Session α} {summary : Summary}
    (begun : Session.begin p settings = .ok start) (reaches : start.Reaches s)
    (alike : Scalar.SubtractsAlike α) (form : settings.standardForm = true)
    (run : Step.simplify s = .ok summary t) : t.program.Standard settings := by
  obtain ⟨coherent, rfl, _, history⟩ := reaches.history begun
  have same := history.transposed coherent.transposed.asMinimization
  have counted := history.rewrites.counted coherent.counted.asMinimization
  exact (Step.simplify_forms alike same counted form).done_of_eq_ok run

/-! ## A row with a range -/

/-- Minimize a column between two bounds, with a range for its sum with a column that has none. -/
def rangedProgram : Program ExtRat :=
  (((((Program.empty .minimize).pushColumn ⟨.finite 1, .finite 5⟩ .continuous (.finite 1)).pushColumn
    ⟨.negInf, .posInf⟩ .continuous (.finite 0)).pushRow ⟨.finite 2, .finite 6⟩).link 0 0
      (.finite 1)).link 0 1 (.finite 1)

/-- The session that begins with both columns, to be brought in standard form without upper bounds. -/
def rangedStart : Session ExtRat where
  program := rangedProgram
  settings := ⟨0, 0, true, true, true, true⟩
  stack := .empty
  origin := rangedProgram.origin

/-- The program in standard form, with a surplus, a negative part and a companion for each upper bound. -/
def rangedForm : Program ExtRat where
  sense := .minimize
  fixedCost := .finite 1
  rows := ⟨#[
    some ⟨.point (.finite 1), [(0, .finite 1), (1, .finite 1), (2, .finite (-1)), (3, .finite (-1))]⟩,
    some ⟨.point (.finite 4), [(0, .finite 1), (4, .finite 1)]⟩,
    some ⟨.point (.finite 4), [(2, .finite 1), (5, .finite 1)]⟩], 3⟩
  columns := ⟨#[
    some ⟨.nonnegative, .continuous, .finite 1, [(0, .finite 1), (1, .finite 1)]⟩,
    some ⟨.nonnegative, .continuous, .finite 0, [(0, .finite 1)]⟩,
    some ⟨.nonnegative, .continuous, .finite 0, [(0, .finite (-1)), (2, .finite 1)]⟩,
    some ⟨.nonnegative, .continuous, .finite 0, [(0, .finite (-1))]⟩,
    some ⟨.nonnegative, .continuous, .finite 0, [(1, .finite 1)]⟩,
    some ⟨.nonnegative, .continuous, .finite 0, [(2, .finite 1)]⟩], 6⟩

def rangedEnd : Session ExtRat where
  program := rangedForm
  settings := rangedStart.settings
  stack := .ofRecords [.splitUpper 2 5 2 (.finite 4), .splitUpper 0 4 1 (.finite 4), .splitFree 1 3,
    .shiftLower 0 (.finite 1) [(0, .finite 1)], .addSurplus 0 2]
  origin := rangedStart.origin

theorem rangedStart_begun : Session.begin rangedProgram rangedStart.settings = .ok rangedStart := by
  rfl

theorem rangedStart_simplified : Step.simplify rangedStart = .ok rangedEnd.summary rangedEnd :=
  Session.simplified_of_test (by decide +kernel)

/-- Columns and rows that were added are in standard form themselves. -/
theorem ranged_standard_form_reached : rangedForm.Standard rangedStart.settings :=
  Session.Reaches.standard_form_reached rangedStart_begun .refl ExtRat.subtractsAlike rfl
    rangedStart_simplified

end LinearReduction
