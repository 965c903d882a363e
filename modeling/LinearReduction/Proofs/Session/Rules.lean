import LinearReduction.Proofs.Program.Editing
import LinearReduction.Proofs.Scalar.Lawful
import LinearReduction.Proofs.Session.Rewrite
import LinearReduction.Session.Reduce

/-!
# Reductions step by step

Each reduction, as it is carried out, is a move of the program, or stops before it changes anything. What it
then says about the program is evident, and if it refuses then because of the row or column that it was asked
to reduce. Its records are counted one by one, the first of them tells what was reduced, and the ordinals that
it gives out were never used before. Main statements: `reduce_declines` and `reduce_ends`, for all reductions.
-/

namespace LinearReduction

variable {α : Type} [Scalar α]

/-- What a program shows when it is found to have no optimal solution. -/
def NoOptimum.Evident (settings : Settings α) (p : Program α) : NoOptimum α → Prop
  | .zeroOutOfBounds i bounds => ∃ row, p.rows.get? i = some row ∧ row.entries = [] ∧ row.bounds = bounds ∧
      (bounds.lower > settings.absoluteTolerance ∨ bounds.upper < -settings.absoluteTolerance)
  | .unboundedColumn j cost =>
    ∃ column, p.columns.get? j = some column ∧ column.entries = [] ∧ column.cost = cost ∧
      Step.isUnboundedDirection column.bounds cost settings.absoluteTolerance = true
  | .valueOutOfBounds i j value bounds => ∃ row column coefficient, p.rows.get? i = some row ∧
      row.bounds.isPoint = true ∧ row.entries = [(j, coefficient)] ∧ p.columns.get? j = some column ∧
      value = row.bounds.lower / coefficient ∧ bounds = column.bounds ∧
      Step.admits settings bounds value = false

def Fault.Evident (settings : Settings α) (p : Program α) (fault : Fault α) : Prop :=
  ∀ cause, fault = .noOptimum cause → cause.Evident settings p

def Program.boundsOf? (p : Program α) : Axis → Nat → Option (Bounds α)
  | .row, i => (p.rows.get? i).map (·.bounds)
  | .column, j => (p.columns.get? j).map (·.bounds)

def Program.degreeOf? (p : Program α) : Axis → Nat → Option Nat
  | .row, i => (p.rows.get? i).map (·.degree)
  | .column, j => (p.columns.get? j).map (·.degree)

def Bounds.at (bounds : Bounds α) : Side → α
  | .lower => bounds.lower
  | .upper => bounds.upper

section

omit [Scalar α]

variable {p : Program α} {i j : Nat}

theorem Program.boundsOf?_row {row? : Option (Row α)} (found : p.rows.get? i = row?) :
    p.boundsOf? .row i = row?.map (·.bounds) := by
  rw [boundsOf?, found]

theorem Program.boundsOf?_column {column? : Option (Column α)} (found : p.columns.get? j = column?) :
    p.boundsOf? .column j = column?.map (·.bounds) := by
  rw [boundsOf?, found]

theorem Program.degreeOf?_row {row? : Option (Row α)} (found : p.rows.get? i = row?) :
    p.degreeOf? .row i = row?.map (·.degree) := by
  rw [degreeOf?, found]

theorem Program.degreeOf?_column {column? : Option (Column α)} (found : p.columns.get? j = column?) :
    p.degreeOf? .column j = column?.map (·.degree) := by
  rw [degreeOf?, found]

end

def Reduction.axis : Reduction → Axis
  | .dropFreeRow | .addSurplus | .addSlack | .dropEmptyRow | .settleSingleton => .row
  | .splitFree | .shiftLower | .flipUpper | .splitUpper | .substituteFixed | .settleEmpty => .column

/-- The row or column that a reduction is refused for. -/
def Refusal.subject? : Refusal → Option (Axis × Nat)
  | .inactive axis k | .notEmpty axis k | .notFree axis k | .unbounded axis _ k => some (axis, k)
  | .notEquality i | .equality i | .notSingleton i => some (.row, i)
  | .notFixed j | .notNonnegative j => some (.column, j)
  | .danglingCoefficient _ | .sizeMismatch | .unknownValue .. | .impossibleStatuses .. => none

/-- What a program shows when it is refused to reduce a row or column of it. -/
def Refusal.Evident (p : Program α) : Refusal → Prop
  | .inactive axis k => p.boundsOf? axis k = none
  | .notEmpty axis k => ∃ degree, p.degreeOf? axis k = some degree ∧ degree ≠ 0
  | .notFree axis k => ∃ bounds, p.boundsOf? axis k = some bounds ∧ bounds.isFree = false
  | .unbounded axis side k =>
    ∃ bounds, p.boundsOf? axis k = some bounds ∧ Scalar.isFinite (bounds.at side) = false
  | .notEquality i => ∃ bounds, p.boundsOf? .row i = some bounds ∧ bounds.isPoint = false
  | .equality i => ∃ bounds, p.boundsOf? .row i = some bounds ∧ ¬ bounds.lower < bounds.upper
  | .notSingleton i => ∃ degree, p.degreeOf? .row i = some degree ∧ degree ≠ 1
  | .notFixed j => ∃ bounds, p.boundsOf? .column j = some bounds ∧ bounds.isPoint = false
  | .notNonnegative j => ∃ bounds, p.boundsOf? .column j = some bounds ∧ (bounds.lower == 0) = false
  | .danglingCoefficient _ | .sizeMismatch | .unknownValue .. | .impossibleStatuses .. => False

theorem Fault.Evident.refused {settings : Settings α} {p : Program α} {cause : Refusal} :
    (Fault.refused cause).Evident settings p := by
  intro _ same
  cases same

theorem Fault.Evident.noOptimum {settings : Settings α} {p : Program α} {cause : NoOptimum α}
    (evident : cause.Evident settings p) : (Fault.noOptimum cause).Evident settings p := by
  intro other same
  cases same
  exact evident

namespace Session

/-- A session after a move of its program. -/
structure Moves (s t : Session α) : Prop where
  settings_eq : t.settings = s.settings
  origin_eq : t.origin = s.origin
  move : ∃ news, Move s.settings s.program news t.program ∧ t.records = news ++ s.records

end Session

/-- The row or column that a reduction was applied to. -/
def Record.ordinal : Record α → Nat
  | .dropFreeRow i _ | .addSurplus i _ | .addSlack i _ | .dropEmptyRow i | .settleSingleton i _ _ _ => i
  | .splitFree j _ | .shiftLower j _ _ | .flipUpper j _ _ | .splitUpper j _ _ _ | .substituteFixed j _ _ _
  | .settleEmpty j _ _ => j

/-- Count records, given from the latest to the earliest. -/
def Tally.addAll (tally : Tally) (news : List (Record α)) : Tally :=
  news.foldr (fun record tally => tally.add record.reduction) tally

/-- The ordinals that were given out belong to slots that a program didn't have. -/
def Added.Fresh (p : Program α) : Added → Prop
  | .nothing => True
  | .column n => n = p.columns.size
  | .columnAndRow n m => n = p.columns.size ∧ m = p.rows.size

namespace Session

/-- A session after a reduction of a row or column, and the ordinals that the reduction gave out. -/
structure Performs (s : Session α) (r : Reduction) (k : Nat) (added : Added) (t : Session α) : Prop where
  settings_eq : t.settings = s.settings
  origin_eq : t.origin = s.origin
  fresh : added.Fresh s.program
  move : ∃ news, Move s.settings s.program news t.program ∧ t.records = news ++ s.records ∧
    t.tally = s.tally.addAll news ∧ ∃ first, news.getLast? = some first ∧ first.reduction = r ∧
    first.ordinal = k

theorem Performs.of_single {s : Session α} {q : Program α} {r : Record α} {added : Added}
    (rewrite : Rewrite s.settings s.program r q) (unsettled : r.settled? = none)
    (fresh : added.Fresh s.program) : s.Performs r.reduction r.ordinal added
      { s with program := q, stack := s.stack.store r } :=
  ⟨rfl, rfl, fresh, _, .single rewrite unsettled, s.stack.records_store r, s.stack.tally_store r, r,
    rfl, rfl, rfl⟩

theorem Performs.of_settled {s : Session α} {q : Program α} {r : Record α} {j : Nat} {column : Column α}
    (rewrite : Rewrite s.settings s.program r q) (settles : r.settled? = some j)
    (active : q.columns.get? j = some column) (fixed : column.bounds.isPoint = true)
    (finite : Scalar.isFinite column.bounds.lower = true) :
    s.Performs r.reduction r.ordinal .nothing
      { s with
        program := q.substituted j column
        stack := (s.stack.store r).store
          (.substituteFixed j column.bounds.lower column.cost column.entries) } := by
  refine ⟨rfl, rfl, trivial, _, .settled rewrite settles active fixed finite, ?_, ?_, r, rfl, rfl, rfl⟩
  · rw [records, Stack.records_store, Stack.records_store]
    rfl
  · rw [tally, Stack.tally_store, Stack.tally_store]
    rfl

theorem Performs.moves {s t : Session α} {r : Reduction} {k : Nat} {added : Added}
    (performs : s.Performs r k added t) : s.Moves t := by
  obtain ⟨news, move, records, _⟩ := performs.move
  exact ⟨performs.settings_eq, performs.origin_eq, news, move, records⟩

/-- A session that stops where it is. -/
def StopsAt (s : Session α) (fault : Fault α) (t : Session α) : Prop :=
  t = s ∧ fault.Evident s.settings s.program

/-- A session that stops where it is, for a reason that has to do with the row or column to be reduced. -/
structure Declines (s : Session α) (r : Reduction) (k : Nat) (fault : Fault α) (t : Session α) : Prop where
  unchanged : t = s
  evident : fault.Evident s.settings s.program
  refused_evident : ∀ cause, fault = .refused cause → cause.subject? = some (r.axis, k) ∧
    cause.Evident s.program

namespace Declines

variable {s : Session α} {r : Reduction} {k : Nat}

theorem refused {cause : Refusal} (subject : cause.subject? = some (r.axis, k))
    (evident : cause.Evident s.program) : s.Declines r k (.refused cause) s := by
  refine ⟨rfl, .refused, fun other same => ?_⟩
  cases same
  exact ⟨subject, evident⟩

theorem noOptimum {cause : NoOptimum α} (evident : cause.Evident s.settings s.program) :
    s.Declines r k (.noOptimum cause) s :=
  ⟨rfl, .noOptimum evident, nofun⟩

theorem stopsAt {fault : Fault α} {t : Session α} (declines : s.Declines r k fault t) : s.StopsAt fault t :=
  ⟨declines.unchanged, declines.evident⟩

end Declines

end Session

namespace Step

open Fault (Ends bind_of_eq_error)

variable {s : Session α} {i j : Nat}

/-! ## Parts of reductions -/

omit [Scalar α] in
theorem fetchRow_ends {done : Row α → Session α → Prop} {stopped : Fault α → Session α → Prop}
    (holds : ∀ row, s.program.rows.get? i = some row → done row s)
    (fails : s.program.rows.get? i = none → stopped (.refused (.inactive .row i)) s) :
    Ends (edit (Edit.fetchRow i)) s done stopped :=
  .edit (Edit.fetchRow_ends holds fails)

omit [Scalar α] in
theorem fetchColumn_ends {done : Column α → Session α → Prop} {stopped : Fault α → Session α → Prop}
    (holds : ∀ column, s.program.columns.get? j = some column → done column s)
    (fails : s.program.columns.get? j = none → stopped (.refused (.inactive .column j)) s) :
    Ends (edit (Edit.fetchColumn j)) s done stopped :=
  .edit (Edit.fetchColumn_ends holds fails)

theorem fetchRow_declines {r : Reduction} {done : Row α → Session α → Prop} (axis : r.axis = .row)
    (holds : ∀ row, s.program.rows.get? i = some row → done row s) :
    Ends (edit (Edit.fetchRow i)) s done (s.Declines r i) :=
  fetchRow_ends holds fun inactive =>
    .refused (congrArg (fun axis => some (axis, i)) axis.symm) (Program.boundsOf?_row inactive)

theorem fetchColumn_declines {r : Reduction} {done : Column α → Session α → Prop} (axis : r.axis = .column)
    (holds : ∀ column, s.program.columns.get? j = some column → done column s) :
    Ends (edit (Edit.fetchColumn j)) s done (s.Declines r j) :=
  fetchColumn_ends holds fun inactive =>
    .refused (congrArg (fun axis => some (axis, j)) axis.symm) (Program.boundsOf?_column inactive)

omit [Scalar α] in
theorem dropRow_ends {done : Row α → Session α → Prop} {stopped : Fault α → Session α → Prop}
    (same : s.program.Transposed) {row : Row α} (active : s.program.rows.get? i = some row)
    (holds : done row { s with program := s.program.withoutRow i }) :
    Ends (edit (Edit.dropRow i)) s done stopped :=
  .edit (.of_eq_ok (Edit.dropRow_of_active same active) holds)

omit [Scalar α] in
theorem record_ends {r : Record α} {done : Unit → Session α → Prop} {stopped : Fault α → Session α → Prop}
    (holds : done () { s with stack := s.stack.store r }) :
    Ends (record r) s done stopped :=
  holds

variable {p : Program α} {stopped : Fault α → Program α → Prop}

theorem absorbRange_ends {row : Row α} {range : Bounds α} {coefficient bound : α}
    {done : Nat → Program α → Prop} (active : p.rows.get? i = some row)
    (holds : done p.columns.size (p.withRange i range coefficient bound)) :
    Ends (absorbRange i range coefficient bound) p done stopped := by
  refine .bind (Edit.newColumn_ends fun _ => ?_)
  refine .bind (Edit.connect_ends active (p.columns_pushColumn_self ..)
    (by simp [Entries.ordinals]) fun _ => ?_)
  exact .bind (Edit.boundRow_ends (Program.rows_link_self active coefficient) fun _ => holds)

theorem appendNegative_ends (same : p.Transposed) {column : Column α} {bounds : Bounds α}
    (active : p.columns.get? j = some column) {done : Nat → Program α → Prop}
    (holds : done p.columns.size
      ((p.boundedColumn j bounds).pushColumn .nonnegative column.domain (-column.cost)
      |>.linkAll p.columns.size column.entries.negate)) :
    Ends (appendNegative column) (p.boundedColumn j bounds) done stopped := by
  have added := (p.boundedColumn j bounds).columns_pushColumn_self .nonnegative column.domain (-column.cost)
  rw [Program.size_columns_boundedColumn] at added
  refine .bind (Edit.newColumn_ends fun _ => ?_)
  rw [Program.size_columns_boundedColumn]
  refine .bind (Edit.connectAll_ends ?_ ?_ added (by simp [Entries.ordinals]) holds)
  · rw [Entries.ordinals_negate]
    exact same.columns_nodup j column active
  · intro i listed
    rw [Entries.ordinals_negate] at listed
    exact same.row_active active listed

theorem appendCompanion_ends (same : p.Transposed) {column : Column α} {bound : α}
    (active : p.columns.get? j = some column) {done : Nat × Nat → Program α → Prop}
    (holds : done (p.columns.size, p.rows.size) (p.cappedColumn j bound)) :
    Ends (appendCompanion j bound) (p.boundedColumn j .nonnegative) done stopped := by
  refine .bind (Edit.newColumn_ends fun _ => .bind (Edit.newRow_ends fun _ => ?_))
  have fresh : p.rows.size ∉ column.entries.ordinals := same.size_not_mem active
  refine .bind (Edit.connect_ends (p.rows_uncapped bound) (Program.columns_uncapped active bound)
    fresh fun _ => ?_)
  rw [Program.size_columns_boundedColumn]
  refine .bind (Edit.connect_ends (Program.rows_link_self (p.rows_uncapped bound) 1)
    (Program.companion_uncapped active bound) (by simp [Entries.ordinals]) fun _ => ?_)
  exact holds

/-! ## Reductions of a row -/

theorem dropFreeRow_ends (same : s.program.Transposed) :
    Ends (dropFreeRow i) s (fun _ t => s.Performs .dropFreeRow i .nothing t) (s.Declines .dropFreeRow i) := by
  refine .bind (fetchRow_declines rfl fun row active => ?_)
  refine .bind (.require (fun free => ?_) fun bounded => .refused rfl ⟨_,
    Program.boundsOf?_row active, bounded⟩)
  refine .bind (dropRow_ends same active ?_)
  exact record_ends (.of_single (.dropFreeRow active free) rfl trivial)

theorem addSurplus_ends :
    Ends (addSurplus i) s (fun n t => s.Performs .addSurplus i (.column n) t) (s.Declines .addSurplus i) := by
  refine .bind (fetchRow_declines rfl fun row active => ?_)
  refine .bind (.require (fun finite => ?_) fun infinite => .refused rfl ⟨_,
    Program.boundsOf?_row active, infinite⟩)
  refine .bind (.require (fun inequality => ?_)
    fun equality => .refused rfl ⟨_, Program.boundsOf?_row active, of_decide_eq_false equality⟩)
  refine .bind (.edit (absorbRange_ends active ?_))
  exact .bind (record_ends (.of_single (.addSurplus active finite (of_decide_eq_true inequality)) rfl rfl))

theorem addSlack_ends :
    Ends (addSlack i) s (fun n t => s.Performs .addSlack i (.column n) t) (s.Declines .addSlack i) := by
  refine .bind (fetchRow_declines rfl fun row active => ?_)
  refine .bind (.require (fun finite => ?_) fun infinite => .refused rfl ⟨_,
    Program.boundsOf?_row active, infinite⟩)
  refine .bind (.require (fun inequality => ?_)
    fun equality => .refused rfl ⟨_, Program.boundsOf?_row active, of_decide_eq_false equality⟩)
  refine .bind (.edit (absorbRange_ends active ?_))
  exact .bind (record_ends (.of_single (.addSlack active finite (of_decide_eq_true inequality)) rfl rfl))

theorem dropEmptyRow_ends (same : s.program.Transposed) :
    Ends (dropEmptyRow i) s (fun _ t => s.Performs .dropEmptyRow i .nothing t)
    (s.Declines .dropEmptyRow i) := by
  refine .bind (fetchRow_declines rfl fun row active => ?_)
  refine .bind (.require (fun degree => ?_)
    fun occupied => .refused rfl ⟨_, Program.degreeOf?_row active, ne_of_beq_false occupied⟩)
  have empty : row.entries = [] := List.length_eq_zero_iff.1 (eq_of_beq degree)
  refine .bind (.get ?_)
  dsimp only
  split
  case isTrue beyond => exact .bind (.reject (.noOptimum ⟨row, active, empty, rfl, beyond⟩))
  case isFalse within =>
    refine .bind (.discard (dropRow_ends same active ?_))
    exact record_ends (.of_single (.dropEmptyRow active empty within) rfl trivial)

/-! ## Reductions of a column -/

theorem splitFree_ends (same : s.program.Transposed) :
    Ends (splitFree j) s (fun n t => s.Performs .splitFree j (.column n) t) (s.Declines .splitFree j) := by
  refine .bind (fetchColumn_declines rfl fun column active => ?_)
  refine .bind (.require (fun free => ?_) fun bounded => .refused rfl ⟨_,
    Program.boundsOf?_column active, bounded⟩)
  refine .bind (.edit (Edit.boundColumn_ends active fun _ => ?_))
  refine .bind (.edit (appendNegative_ends same active ?_))
  exact .bind (record_ends (.of_single (.splitFree active free) rfl rfl))

theorem shiftLower_ends (same : s.program.Transposed) :
    Ends (shiftLower j) s (fun _ t => s.Performs .shiftLower j .nothing t) (s.Declines .shiftLower j) := by
  refine .bind (fetchColumn_declines rfl fun column active => ?_)
  refine .bind (.require (fun finite => ?_) fun infinite => .refused rfl ⟨_,
    Program.boundsOf?_column active, infinite⟩)
  refine .bind (.edit (Edit.absorb_ends (fun i listed => same.row_active active listed) fun _ => ?_))
  have kept := (s.program.columns_absorbed column.entries column.cost column.bounds.lower j).trans active
  refine .bind (.edit (Edit.boundColumn_ends kept fun _ => ?_))
  exact record_ends (.of_single (.shiftLower active finite) rfl trivial)

theorem flipUpper_ends (same : s.program.Transposed) :
    Ends (flipUpper j) s (fun _ t => s.Performs .flipUpper j .nothing t) (s.Declines .flipUpper j) := by
  refine .bind (fetchColumn_declines rfl fun column active => ?_)
  refine .bind (.require (fun finite => ?_) fun infinite => .refused rfl ⟨_,
    Program.boundsOf?_column active, infinite⟩)
  refine .bind (.edit (Edit.absorb_ends (fun i listed => same.row_active active listed) fun _ => ?_))
  -- Each of the edits leaves the column as the next one finds it.
  have kept := (s.program.columns_absorbed column.entries column.cost column.bounds.upper j).trans active
  have absorbed := same.absorbed (same.columns_nodup j column active) column.cost column.bounds.upper
  refine .bind (.edit (Edit.priceColumn_ends kept fun _ => ?_))
  have priced : ((s.program.absorbed column.entries column.cost column.bounds.upper).pricedColumn j
      (-column.cost)).columns.get? j = some { column with cost := -column.cost } := by
    rw [Program.columns_pricedColumn, if_pos rfl, kept, Option.map_some]
  refine .bind (.edit (.of_eq_ok (Edit.reverseColumn_of_active (absorbed.pricedColumn j _) priced) ?_))
  have negated : (((s.program.absorbed column.entries column.cost column.bounds.upper).pricedColumn j
      (-column.cost)).negatedColumn j).columns.get? j =
        some { column with cost := -column.cost, entries := column.entries.negate } := by
    rw [Program.columns_negatedColumn, if_pos rfl, priced, Option.map_some]
  refine .bind (.edit (Edit.boundColumn_ends negated fun _ => ?_))
  exact record_ends (.of_single (.flipUpper active finite) rfl trivial)

theorem splitUpper_ends (same : s.program.Transposed) :
    Ends (splitUpper j) s (fun n t => s.Performs .splitUpper j (.columnAndRow n.1 n.2) t)
      (s.Declines .splitUpper j) := by
  refine .bind (fetchColumn_declines rfl fun column active => ?_)
  refine .bind (.require (fun grounded => ?_) fun shifted => .refused rfl ⟨_,
    Program.boundsOf?_column active, shifted⟩)
  refine .bind (.require (fun finite => ?_) fun infinite => .refused rfl ⟨_,
    Program.boundsOf?_column active, infinite⟩)
  refine .bind (.edit (Edit.boundColumn_ends active fun _ => ?_))
  refine .bind (.edit (appendCompanion_ends same active ?_))
  exact .bind (record_ends (.of_single (.splitUpper active grounded finite) rfl ⟨rfl, rfl⟩))

/-! ## Columns with a settled value -/

theorem substituteFixed_ends (same : s.program.Transposed) {column : Column α}
    {done : Unit → Session α → Prop} {stopped : Fault α → Session α → Prop}
    (active : s.program.columns.get? j = some column) (holds : column.bounds.isPoint = true →
      Scalar.isFinite column.bounds.lower = true →
      done () { s with
        program := s.program.substituted j column
        stack := s.stack.store (.substituteFixed j column.bounds.lower column.cost column.entries) })
    (fails : column.bounds.isPoint = false → stopped (.refused (.notFixed j)) s) :
    Ends (substituteFixed j) s done stopped := by
  refine .bind (.edit (.of_eq_ok (Edit.fetchColumn_of_active active) ?_))
  refine .bind (.require (fun fixed => ?_) fails)
  refine .bind (.edit (.of_eq_ok (Edit.dropColumn_of_active same active) ?_))
  -- The column is gone from its rows by now, but the rows are still there.
  have rows_active : ∀ i ∈ column.entries.ordinals,
      ∃ row, (s.program.withoutColumn j).rows.get? i = some row := by
    intro i listed
    obtain ⟨row, found⟩ := same.row_active active listed
    exact ⟨_, by rw [Program.rows_withoutColumn, found, Option.map_some]⟩
  refine .bind (.edit (Edit.absorb_ends rows_active fun finite => ?_))
  exact record_ends (holds fixed finite)

theorem fixColumn_ends [LawfulScalar α] (column : Column α) {value : α} (same : s.program.Transposed)
    {done : Unit → Session α → Prop} {stopped : Fault α → Session α → Prop}
    (active : s.program.columns.get? j = some column)
    (holds : Scalar.isFinite value = true → (Bounds.point value).isPoint = true →
      done () { s with
        program :=
          (s.program.boundedColumn j (.point value)).substituted j { column with bounds := .point value }
        stack := s.stack.store (.substituteFixed j value column.cost column.entries) }) :
    Ends (fixColumn j value) s done stopped := by
  refine .bind (.edit (Edit.boundColumn_ends active fun proper => ?_))
  have bounded : (s.program.boundedColumn j (.point value)).columns.get? j =
      some { column with bounds := .point value } := by
    rw [Program.columns_boundedColumn, if_pos rfl, active, Option.map_some]
  -- Proper bounds are in order, so that the value is equal to itself and the column is taken to be fixed.
  have isPoint : (Bounds.point value).isPoint = true := by
    simp only [Bounds.isProper, Bool.and_eq_true, decide_eq_true_eq] at proper
    exact LawfulScalar.beq_self_of_le proper.1.1.1
  refine substituteFixed_ends (same.boundedColumn j _) bounded (fun fixed finite => holds finite isPoint) ?_
  intro loose
  rw [isPoint] at loose
  cases loose

theorem substituteFixed_performs (same : s.program.Transposed) :
    Ends (substituteFixed j) s (fun _ t => s.Performs .substituteFixed j .nothing t)
      (s.Declines .substituteFixed j) := by
  cases active : s.program.columns.get? j with
  | none =>
    refine .bind (fetchColumn_declines rfl fun column found => ?_)
    rw [active] at found
    cases found
  | some column =>
    refine substituteFixed_ends same active (fun fixed finite => ?_)
      fun loose => .refused rfl ⟨_, Program.boundsOf?_column active, loose⟩
    exact .of_single (.substituteFixed active fixed finite) rfl trivial

variable [LawfulScalar α]

theorem settleEmpty_ends (same : s.program.Transposed) :
    Ends (settleEmpty j) s (fun _ t => s.Performs .settleEmpty j .nothing t) (s.Declines .settleEmpty j) := by
  refine .bind (fetchColumn_declines rfl fun column active => ?_)
  refine .bind (.require (fun degree => ?_)
    fun occupied => .refused rfl ⟨_, Program.degreeOf?_column active, ne_of_beq_false occupied⟩)
  have empty : column.entries = [] := List.length_eq_zero_iff.1 (eq_of_beq degree)
  refine .bind (.get ?_)
  dsimp only
  split
  case isTrue unbounded => exact .bind (.reject (.noOptimum ⟨column, active, empty, rfl, unbounded⟩))
  case isFalse bounded =>
    -- Two records in a row make one move: why the column has its value, and that it is gone.
    refine .bind (record_ends ?_)
    have rewrite := Rewrite.settleEmpty active empty (Bool.eq_false_iff.2 bounded)
    refine fixColumn_ends column ?_ ?_ fun finite fixed =>
      .of_settled rewrite rfl ?_ fixed finite
    · exact same
    · exact active
    · rw [Program.columns_boundedColumn, if_pos rfl, active, Option.map_some]

theorem settleSingleton_ends (same : s.program.Transposed) :
    Ends (settleSingleton i) s (fun _ t => s.Performs .settleSingleton i .nothing t)
      (s.Declines .settleSingleton i) := by
  refine .bind (fetchRow_declines rfl fun row row_active => ?_)
  refine .bind (.require (fun equality => ?_) fun loose => .refused rfl ⟨_,
    Program.boundsOf?_row row_active, loose⟩)
  split
  case h_1 j coefficient single =>
    -- The column of the only coefficient can't be missing, or the coefficient would be without its other
    -- copy.
    have listed : j ∈ row.entries.ordinals := by simp [single, Entries.ordinals]
    obtain ⟨column, column_active⟩ := same.column_active row_active listed
    refine .bind (.edit (.of_eq_ok (Edit.fetchColumn_of_active column_active) ?_))
    refine .bind (.get ?_)
    dsimp only
    split
    case isTrue admitted =>
      refine .bind (record_ends (.bind (.discard ?_)))
      refine dropRow_ends same row_active ?_
      -- The column lost its coefficient in the row before it is fixed.
      have reduced := (s.program.columns_withoutRow i j).trans (by rw [column_active, Option.map_some])
      apply fixColumn_ends _ (same.withoutRow i) reduced
      intro finite fixed
      have rewrite := Rewrite.settleSingleton row_active equality single column_active admitted
      refine .of_settled rewrite rfl ?_ fixed finite
      rw [Program.settledBy, Program.columns_boundedColumn, if_pos rfl, reduced, Option.map_some]
    case isFalse barred =>
      refine .bind (.reject (.noOptimum ⟨row, column, coefficient, row_active, equality, single,
        column_active, rfl, rfl, ?_⟩))
      exact Bool.eq_false_iff.2 barred
  case h_2 several =>
    refine .refuse (.refused rfl ⟨_, Program.degreeOf?_row row_active, fun single => ?_⟩)
    obtain ⟨⟨j, coefficient⟩, only⟩ := List.length_eq_one_iff.1 single
    exact several j coefficient only

/-! ## All reductions -/

theorem reduce_declines (same : s.program.Transposed) (r : Reduction) (k : Nat) :
    Ends (reduce r k) s (fun added t => s.Performs r k added t) (s.Declines r k) := by
  cases r with
  | dropFreeRow => exact .bind (dropFreeRow_ends same)
  | addSurplus => exact .bind addSurplus_ends
  | addSlack => exact .bind addSlack_ends
  | splitFree => exact .bind (splitFree_ends same)
  | shiftLower => exact .bind (shiftLower_ends same)
  | flipUpper => exact .bind (flipUpper_ends same)
  | splitUpper => exact .bind (splitUpper_ends same)
  | substituteFixed => exact .bind (substituteFixed_performs same)
  | dropEmptyRow => exact .bind (dropEmptyRow_ends same)
  | settleEmpty => exact .bind (settleEmpty_ends same)
  | settleSingleton => exact .bind (settleSingleton_ends same)

omit [LawfulScalar α] in
/-- A row or column that isn't there is noticed before anything else. -/
theorem reduce_of_inactive {r : Reduction} {k : Nat} (inactive : s.program.boundsOf? r.axis k = none) :
    reduce r k s = .error (.refused (.inactive r.axis k)) s := by
  cases r
  case dropFreeRow | addSurplus | addSlack | dropEmptyRow | settleSingleton =>
    have missing : edit (Edit.fetchRow k) s = .error (.refused (.inactive .row k)) s := by
      rw [edit, Edit.fetchRow_of_inactive (Option.map_eq_none_iff.1 inactive)]
    exact bind_of_eq_error (bind_of_eq_error missing)
  all_goals
    have missing : edit (Edit.fetchColumn k) s = .error (.refused (.inactive .column k)) s := by
      rw [edit, Edit.fetchColumn_of_inactive (Option.map_eq_none_iff.1 inactive)]
    exact bind_of_eq_error (bind_of_eq_error missing)

theorem reduce_ends (same : s.program.Transposed) (r : Reduction) (k : Nat) :
    Ends (reduce r k) s (fun added t => s.Performs r k added t) s.StopsAt :=
  (reduce_declines same r k).mono (fun _ _ performs => performs) fun _ _ declines => declines.stopsAt

end Step

end LinearReduction
