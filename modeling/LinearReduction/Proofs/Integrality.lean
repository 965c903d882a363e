import LinearReduction.Proofs.Equivalence
import LinearReduction.Proofs.RecoveredPoint
import LinearReduction.Proofs.Session.NegativeParts

/-!
# Integer columns

Which reductions respect that a column takes integer values. Bounds that are integers stay so under all of
them, and negative parts are as integer as the column they were split from. Only an equality row with one
column leaves that column whatever value the row allows, an integer or not. Main statement: integer values are
recovered as integer values for all columns that no such row settled at a fraction.
-/

namespace LinearReduction

open ExtRat

/-! ## Integer values -/

def ExtRat.IsInteger (x : ExtRat) : Prop :=
  ∃ n : ℤ, x = .finite n

namespace ExtRat.IsInteger

variable {x y : ExtRat}

theorem zero : (0 : ExtRat).IsInteger :=
  ⟨0, rfl⟩

theorem add (x_integer : x.IsInteger) (y_integer : y.IsInteger) : (x + y).IsInteger := by
  obtain ⟨m, rfl⟩ := x_integer
  obtain ⟨n, rfl⟩ := y_integer
  exact ⟨m + n, by rw [finite_add, Int.cast_add]⟩

theorem sub (x_integer : x.IsInteger) (y_integer : y.IsInteger) : (x - y).IsInteger := by
  obtain ⟨m, rfl⟩ := x_integer
  obtain ⟨n, rfl⟩ := y_integer
  exact ⟨m - n, by rw [finite_sub, Int.cast_sub]⟩

end ExtRat.IsInteger

/-- Bounds that are integers where they are finite. -/
structure Bounds.IsIntegral (b : Bounds ExtRat) : Prop where
  lower : Scalar.isFinite b.lower = true → b.lower.IsInteger
  upper : Scalar.isFinite b.upper = true → b.upper.IsInteger

namespace Bounds.IsIntegral

variable {b : Bounds ExtRat} {value : ExtRat}

theorem nonnegative : (Bounds.nonnegative : Bounds ExtRat).IsIntegral :=
  ⟨fun _ => .zero, nofun⟩

theorem point (integer : value.IsInteger) : (Bounds.point value).IsIntegral :=
  ⟨fun _ => integer, fun _ => integer⟩

theorem range (integral : b.IsIntegral) (proper : b.Proper) : b.range.IsIntegral := by
  refine ⟨fun _ => .zero, fun finite => ?_⟩
  -- A finite range lies between two finite bounds.
  cases proper with
  | between order => exact (integral.upper rfl).sub (integral.lower rfl)
  | free | above l | below u => cases finite

/-- A column in no row is fixed at one of its bounds, or at zero if it has none. -/
theorem bestValue (integral : b.IsIntegral) (cost : ExtRat) : (Step.bestValue b cost).1.IsInteger := by
  unfold Step.bestValue
  split
  case h_1 => exact .zero
  case h_2 finite _ => exact integral.lower finite
  case h_3 _ finite => exact integral.upper finite
  case h_4 lower_finite upper_finite =>
    split
    · exact integral.lower lower_finite
    · split
      · exact integral.lower lower_finite
      · split
        · exact integral.upper upper_finite
        · split
          · exact integral.lower lower_finite
          · exact integral.upper upper_finite

end Bounds.IsIntegral

/-! ## Columns that no row settles at a fraction -/

/-- Some columns, with their negative parts, none of which a row settles at a fraction. -/
structure Record.Spares (records : List (Record ExtRat)) (among : Nat → Prop) : Prop where
  negative : ∀ j k, .splitFree j k ∈ records → among j → among k
  settled : ∀ i j coefficient value, .settleSingleton i j coefficient value ∈ records → among j →
    value.IsInteger

namespace Record.Spares

variable {records : List (Record ExtRat)} {r : Record ExtRat} {among : Nat → Prop}

theorem tail (spares : Record.Spares (r :: records) among) : Record.Spares records among :=
  ⟨fun j k listed => spares.negative j k (List.mem_cons_of_mem r listed),
    fun i j coefficient value listed => spares.settled i j coefficient value (List.mem_cons_of_mem r listed)⟩

theorem head (spares : Record.Spares (r :: records) among) : Record.Spares [r] among :=
  ⟨fun j k listed => spares.negative j k (List.mem_cons.2 (.inl (List.mem_singleton.1 listed))),
    fun i j coefficient value listed =>
      spares.settled i j coefficient value (List.mem_cons.2 (.inl (List.mem_singleton.1 listed)))⟩

/-- Negative parts aren't settled by rows, so that only the column itself matters. -/
theorem of_column {j : Nat} (settled : ∀ i coefficient value,
      .settleSingleton i j coefficient value ∈ records → value.IsInteger)
    (negative_unsettled : ∀ l k, .splitFree l k ∈ records → ∀ i coefficient value,
      .settleSingleton i k coefficient value ∉ records) :
    Record.Spares records fun k => k = j ∨ ∃ l, .splitFree l k ∈ records := by
  refine ⟨fun l k split _ => .inr ⟨l, split⟩, fun i k coefficient value listed among => ?_⟩
  rcases among with rfl | ⟨l, split⟩
  · exact settled i coefficient value listed
  · exact absurd listed (negative_unsettled l k split i coefficient value)

end Record.Spares

namespace Program

/-- Integer columns have integers as bounds, as far as they are bounded. -/
def BoundsIntegers (p : Program ExtRat) : Prop :=
  ∀ j column, p.columns.get? j = some column → column.domain = .integer → column.bounds.IsIntegral

def TakesIntegers (p : Program ExtRat) (values : Nat → ExtRat) : Prop :=
  ∀ j column, p.columns.get? j = some column → column.domain = .integer → (values j).IsInteger

/-- Some of the integer columns have integers as bounds. -/
def BoundsIntegersAmong (p : Program ExtRat) (among : Nat → Prop) : Prop :=
  ∀ j column, p.columns.get? j = some column → column.domain = .integer → among j → column.bounds.IsIntegral

/-- Some of the integer columns have integer values. -/
def TakesIntegersAmong (p : Program ExtRat) (among : Nat → Prop) (values : Nat → ExtRat) : Prop :=
  ∀ j column, p.columns.get? j = some column → column.domain = .integer → among j → (values j).IsInteger

end Program

section

variable {settings : Settings ExtRat} {p q : Program ExtRat} {r : Record ExtRat}
    {records : List (Record ExtRat)}
  {among : Nat → Prop} {x : Nat → ℚ}

/-- Integer bounds stay integers. -/
theorem Rewrite.boundsIntegers (rewrite : Rewrite settings p r q) (exact : p.Exact)
    (spares : Record.Spares [r] among) (bounded : p.BoundsIntegersAmong among) :
    q.BoundsIntegersAmong among := by
  intro k column' found integer included
  cases rewrite with
  | dropFreeRow active free | dropEmptyRow active empty within =>
    rw [Program.columns_withoutRow, Option.map_eq_some_iff] at found
    obtain ⟨column, found, rfl⟩ := found
    exact bounded k column found integer included
  | addSurplus active finite inequality | addSlack active finite inequality =>
    rw [Program.columns_withRange] at found
    split at found
    case isTrue => cases found; cases integer
    case isFalse => exact bounded k column' found integer included
  | splitFree active free =>
    rw [Program.columns_splitColumn] at found
    split at found
    case isTrue =>
      cases found
      exact .nonnegative
    case isFalse =>
      split at found
      case isTrue =>
        obtain ⟨column, _, rfl⟩ := Option.map_eq_some_iff.1 found
        exact .nonnegative
      case isFalse => exact bounded k column' found integer included
  | @shiftLower j own active finite =>
    rw [Program.columns_shiftedColumn] at found
    split at found
    case isTrue same =>
      obtain rfl := same
      rw [active] at found
      cases found
      exact (bounded j own active integer included).range (exact.columns j own active).proper
    case isFalse => exact bounded k column' found integer included
  | @flipUpper j own active finite =>
    rw [Program.columns_flippedColumn] at found
    split at found
    case isTrue same =>
      obtain rfl := same
      rw [active] at found
      cases found
      exact (bounded j own active integer included).range (exact.columns j own active).proper
    case isFalse => exact bounded k column' found integer included
  | splitUpper active grounded finite =>
    rw [Program.columns_cappedColumn _ (Slots.lt_size active)] at found
    split at found
    case isTrue => cases found; cases integer
    case isFalse =>
      split at found
      case isTrue =>
        obtain ⟨column, _, rfl⟩ := Option.map_eq_some_iff.1 found
        exact .nonnegative
      case isFalse => exact bounded k column' found integer included
  | substituteFixed active fixed finite =>
    rw [Program.columns_substituted] at found
    split at found
    case isTrue => cases found
    case isFalse => exact bounded k column' found integer included
  | @settleEmpty j own active empty direction =>
    rw [Program.columns_boundedColumn] at found
    split at found
    case isTrue same =>
      obtain rfl := same
      rw [active] at found
      cases found
      exact .point ((bounded j own active integer included).bestValue own.cost)
    case isFalse => exact bounded k column' found integer included
  | settleSingleton row_active equality single column_active admitted =>
    rw [Program.columns_settledBy, Option.map_eq_some_iff] at found
    obtain ⟨column, found, rfl⟩ := found
    dsimp only
    split
    case isTrue same =>
      obtain rfl := same
      exact .point (spares.settled _ _ _ _ (List.mem_singleton.2 rfl) included)
    case isFalse => exact bounded k column found integer included

/-- A column that isn't removed still takes the same kind of values. -/
theorem Rewrite.domain_kept (rewrite : Rewrite settings p r q) {k : Nat} {column : Column ExtRat}
    (active : p.columns.get? k = some column) (stays : r.emptiedColumn? ≠ some k) :
    ∃ column', q.columns.get? k = some column' ∧ column'.domain = column.domain := by
  have old := Slots.ne_size active
  cases rewrite with
  | dropFreeRow _ _ | dropEmptyRow _ _ _ =>
    rw [Program.columns_withoutRow, active]
    exact ⟨_, rfl, rfl⟩
  | addSurplus _ _ _ | addSlack _ _ _ =>
    rw [Program.columns_withRange, if_neg old]
    exact ⟨column, active, rfl⟩
  | splitFree _ _ =>
    rw [Program.columns_splitColumn, if_neg old, active]
    split <;> exact ⟨_, rfl, rfl⟩
  | shiftLower _ _ =>
    rw [Program.columns_shiftedColumn, active]
    split <;> exact ⟨_, rfl, rfl⟩
  | flipUpper _ _ =>
    rw [Program.columns_flippedColumn, active]
    split <;> exact ⟨_, rfl, rfl⟩
  | splitUpper own_active _ _ =>
    rw [Program.columns_cappedColumn _ (Slots.lt_size own_active), if_neg old, active]
    split <;> exact ⟨_, rfl, rfl⟩
  | substituteFixed _ _ _ =>
    have apart := fun same => stays (congrArg some same)
    rw [Program.columns_substituted, if_neg apart]
    exact ⟨column, active, rfl⟩
  | settleEmpty _ _ _ =>
    rw [Program.columns_boundedColumn, active]
    split <;> exact ⟨_, rfl, rfl⟩
  | settleSingleton _ _ _ _ _ =>
    rw [Program.columns_settledBy, active]
    exact ⟨_, rfl, rfl⟩

/-- Integer values come from integer values. -/
theorem Rewrite.takesIntegers_before (rewrite : Rewrite settings p r q) (spares : Record.Spares [r] among)
    (bounded : p.BoundsIntegersAmong among) (takes : q.TakesIntegersAmong among fun j => .finite (x j)) :
    p.TakesIntegersAmong among fun j => .finite (r.pointBefore x j) := by
  intro k column active integer included
  change (ExtRat.finite (r.pointBefore x k)).IsInteger
  -- Unless it is removed, the column has an integer value after the reduction.
  have later : r.emptiedColumn? ≠ some k → (ExtRat.finite (x k)).IsInteger := by
    intro stays
    obtain ⟨column', found, same⟩ := rewrite.domain_kept active stays
    exact takes k column' found (same.trans integer) included
  by_cases own : r.ownColumn? = some k
  case neg =>
    rw [r.pointBefore_of_ne own]
    exact later fun removed => own (by cases r <;> first | exact removed | cases removed)
  case pos =>
    have bounds := bounded k column active integer included
    have unremoved : none ≠ some k := (Option.some_ne_none k).symm
    cases rewrite.atColumn active own with
    | splitFree free =>
      have found : (p.splitColumn k column).columns.get? p.columns.size =
          some ⟨.nonnegative, column.domain, -column.cost, column.entries.negate⟩ := by
        rw [Program.columns_splitColumn, if_pos rfl]
      have negative := takes _ _ found integer (spares.negative k _ (List.mem_singleton.2 rfl) included)
      rw [Record.pointBefore, Function.update_self, ← finite_sub]
      exact (later unremoved).sub negative
    | shiftLower finite =>
      rw [Record.pointBefore, Function.update_self, ← finite_add, ← eq_finite_of_isFinite finite]
      exact (bounds.lower finite).add (later unremoved)
    | flipUpper finite =>
      rw [Record.pointBefore, Function.update_self, ← finite_sub, ← eq_finite_of_isFinite finite]
      exact (bounds.upper finite).sub (later unremoved)
    | substituteFixed fixed finite =>
      rw [Record.pointBefore, Function.update_self, ← eq_finite_of_isFinite finite]
      exact bounds.lower finite
    | splitUpper grounded finite => exact later unremoved
    | settleEmpty empty direction => exact later unremoved
    | settleSingleton row_active equality single => exact later unremoved

theorem Rewrites.boundsIntegers (rewrites : Rewrites settings p records q) (exact : p.Exact)
    (spares : Record.Spares records among) (bounded : p.BoundsIntegersAmong among) :
    q.BoundsIntegersAmong among := by
  induction rewrites with
  | refl => exact bounded
  | rewrite before rewrite inductionHypothesis =>
    exact rewrite.boundsIntegers (before.exact exact) spares.head (inductionHypothesis spares.tail)

theorem Rewrites.takesIntegers_before (rewrites : Rewrites settings p records q) (exact : p.Exact)
    (spares : Record.Spares records among) (bounded : p.BoundsIntegersAmong among)
    (takes : q.TakesIntegersAmong among fun j => .finite (x j)) :
    p.TakesIntegersAmong among fun j => .finite (records.foldl Record.pointBefore x j) := by
  -- The latest record is undone first, so that the values to start from are those before it.
  induction rewrites generalizing x with
  | refl => exact takes
  | rewrite before rewrite inductionHypothesis =>
    have bounded_between := before.boundsIntegers exact spares.tail bounded
    exact inductionHypothesis spares.tail (rewrite.takesIntegers_before spares.head bounded_between takes)

end

variable {p : Program ExtRat} {settings : Settings ExtRat} {start s : Session ExtRat}

theorem Program.BoundsIntegers.asMinimization (bounded : p.BoundsIntegers) :
    p.asMinimization.BoundsIntegers := by
  intro j column active integer
  rw [columns_asMinimization, Option.map_eq_some_iff] at active
  obtain ⟨before, active, rfl⟩ := active
  exact bounded j before active integer

theorem Program.Lists.takesIntegers {point : List ExtRat} {x : Nat → ℚ} (lists : p.Lists point x)
    (takes : p.TakesIntegers (valueAt point)) : p.TakesIntegers fun j => .finite (x j) := by
  intro j column active integer
  have whole := takes j column active integer
  rwa [lists.value j column active] at whole

/-- Integer values of the reduced program are values of the columns that are left. -/
theorem Program.Copied.takesIntegers {c : Program ExtRat} {u x : Nat → ℚ}
    (copied : p.Copied p.columns.active.length c) (renumbers : p.columns.Renumbers u x)
    (takes : c.TakesIntegers fun a => .finite (u a)) : p.TakesIntegers fun j => .finite (x j) := by
  intro j column active integer
  have listed := Slots.getElem?_active_iff.2 ⟨active, rfl⟩
  have whole : (ExtRat.finite (u _)).IsInteger := takes _ _ (copied.column_eq listed) integer
  rwa [renumbers _ j column listed] at whole

/-- Integer values are recovered as integer values, unless a row settled the column at a fraction. -/
theorem Session.Reaches.integers_recovered (built : p.Built) (bounded : p.BoundsIntegers)
    (begun : Session.begin p settings = .ok start) (reaches : start.Reaches s) :
    ∃ c, s.program.condense = .ok c ∧
      ∀ primal : Sides ExtRat, primal.rows.length = c.program.rows.size → c.program.IsPoint primal.columns →
        c.program.TakesIntegers (valueAt primal.columns) →
          ∃ recovered, s.recover (.integer primal) = .ok recovered ∧
            ∀ j column, p.columns.get? j = some column → column.domain = .integer →
              (∀ i coefficient value, Record.settleSingleton i j coefficient value ∈ s.records →
                value.IsInteger) → (valueAt recovered.solution.primal.columns j).IsInteger := by
  have exact := built.exact
  have descends := reaches.descendsFrom begun
  have rewrites := descends.history.rewrites
  obtain ⟨c, condensed, copied⟩ := (rewrites.exact exact.asMinimization).condense_eq_ok
  refine ⟨_, condensed, fun primal rows_length isPoint takes => ?_⟩
  have matched : s.isMatchedBy primal = true :=
    isMatchedBy_iff.2 ⟨rows_length.trans copied.rows_size, isPoint.length_eq.trans copied.columns_size⟩
  obtain ⟨recovered, run⟩ : ∃ recovered, s.recover (.integer primal) = .ok recovered :=
    recover_eq_ok descends (Program.full_asMinimization.2 built.full) matched nofun
  refine ⟨recovered, run, fun j column active integer settled => ?_⟩
  obtain ⟨_, full, primal_eq, _⟩ := recover_eq_ok_sides descends run
  have lists := isPoint.lists
  have renumbers := s.program.columns.renumbers_idxOf fun a => (valueAt primal.columns a).toRat
  have shown : p.asMinimization.ShowsColumns (s.primalBefore primal) _ :=
    rewrites.columns_shown_before exact.asMinimization
      (columns_shown_spread matched copied renumbers lists.value)
  -- The numbers that are listed after all reductions are integers, and so are those that they come from.
  have takes_after := copied.takesIntegers renumbers (lists.takesIntegers takes)
  have negative_unsettled := fun l k => descends.history.negative_unsettled (j := l) (k := k)
    descends.transposed
  have takes_before :=
    rewrites.takesIntegers_before exact.asMinimization (.of_column settled negative_unsettled)
    (fun k other found whole _ => bounded.asMinimization k other found whole)
    fun k other found whole _ => takes_after k other found whole
  have found : p.asMinimization.columns.get? j = some { column with cost := p.sense.price column.cost } := by
    rw [Program.columns_asMinimization, active, Option.map_some]
  have listed := (shown.lists_sides full).value j _ found
  change recovered.solution.primal = (s.primalBefore primal).sides _ _ at primal_eq
  rw [primal_eq, listed]
  exact takes_before j _ found integer (.inl rfl)

/-! ## A row that asks for twice an integer column -/

/-- Minimize an integer column from zero to ten, twice of which is to have a given value. -/
def doubledProgram (twice : ℚ) : Program ExtRat :=
  (((Program.empty .minimize).pushRow (.point (.finite twice))).pushColumn ⟨.finite 0, .finite 10⟩ .integer
    (.finite 1)).link 0 0 (.finite 2)

def doubledStart (twice : ℚ) : Session ExtRat where
  program := doubledProgram twice
  settings := ⟨.finite 0, .finite 0, true, true, true, true⟩
  stack := .empty
  origin := (doubledProgram twice).origin

def doubledSession (twice : ℚ) : Session ExtRat where
  program := ⟨.minimize, .finite (twice / 2), ⟨#[none], 0⟩, ⟨#[none], 0⟩⟩
  settings := (doubledStart twice).settings
  stack := .ofRecords [.substituteFixed 0 (.finite (twice / 2)) (.finite 1) [],
    .settleSingleton 0 0 (.finite 2) (.finite (twice / 2))]
  origin := (doubledStart twice).origin

theorem doubledProgram_built (twice : ℚ) : (doubledProgram twice).Built := by
  have proper : (Bounds.point (ExtRat.finite twice)).isProper = true :=
    Bounds.isProper_iff.2 (Bounds.proper_point twice)
  have with_row := Program.Built.newRow (.empty .minimize)
    (show Build.newRow (.point (.finite twice)) (Program.empty .minimize : Program ExtRat) = .ok 0 _ by
      rw [Build.newRow, proper]
      rfl)
  have with_column := with_row.newColumn
    (show Build.newColumn ⟨.finite 0, .finite 10⟩ .integer (.finite 1) _ = .ok 0 _ by rfl)
  exact with_column.newCoefficient
    (show Build.newCoefficient 0 0 (.finite 2) _ = .ok () (doubledProgram twice) by rfl)

theorem doubledProgram_boundsIntegers (twice : ℚ) : (doubledProgram twice).BoundsIntegers := by
  intro j column active _
  match j, active with
  | 0, active =>
    cases active
    exact ⟨fun _ => ⟨0, rfl⟩, fun _ => ⟨10, rfl⟩⟩

/-- Nothing is left to be solved but a fixed cost. -/
def doubledRemainder (twice : ℚ) : Program ExtRat :=
  { Program.empty .minimize with fixedCost := .finite (twice / 2) }

/-- Values for no row and no column. -/
def noPrimal : Sides ExtRat :=
  ⟨[], []⟩

theorem doubledSession_condensed (twice : ℚ) :
    (doubledSession twice).program.condense = .ok ⟨doubledRemainder twice, [], []⟩ := by
  rfl

theorem doubledRemainder_attained (twice : ℚ) : (doubledRemainder twice).Attains noPrimal :=
  ⟨rfl, ⟨⟨rfl, nofun⟩, nofun, nofun⟩, nofun⟩

theorem doubled_integers_recovered : ∃ recovered,
    (doubledSession 4).recover (.integer noPrimal) = .ok recovered ∧
    (valueAt recovered.solution.primal.columns 0).IsInteger := by
  have begun : Session.begin (doubledProgram 4) (doubledStart 4).settings = .ok (doubledStart 4) := by rfl
  have reaches : (doubledStart 4).Reaches (doubledSession 4) :=
    .of_run [.reduce .settleSingleton 0] (by decide +kernel)
  obtain ⟨c, condensed, recovers⟩ := Session.Reaches.integers_recovered (doubledProgram_built 4)
    (doubledProgram_boundsIntegers 4) begun reaches
  obtain rfl := Except.ok.inj (condensed.symm.trans (doubledSession_condensed 4))
  obtain ⟨recovered, run, integers⟩ := recovers noPrimal rfl ⟨rfl, nofun⟩ nofun
  refine ⟨recovered, run, integers 0 _ rfl rfl fun i coefficient value listed => ?_⟩
  -- The row asks for four, so that the only value it settles is two.
  obtain ⟨_, _, rfl⟩ : i = 0 ∧ coefficient = .finite 2 ∧ value = .finite (4 / 2) := by
    rw [Session.records, doubledSession, Stack.records_ofRecords] at listed
    simpa using listed
  exact ⟨2, congrArg ExtRat.finite (by norm_num)⟩

/-- An integer column is recovered as one and a half if a row asks for that. -/
theorem doubled_recovered_fraction :
    ¬ ∀ (p : Program ExtRat) (settings : Settings ExtRat) (start s : Session ExtRat), p.Built →
    p.BoundsIntegers → Session.begin p settings = .ok start → start.Reaches s →
      ∃ c, s.program.condense = .ok c ∧ ∀ primal : Sides ExtRat, c.program.Attains primal →
        c.program.TakesIntegers (valueAt primal.columns) →
          ∃ recovered, s.recover (.integer primal) = .ok recovered ∧
            p.TakesIntegers (valueAt recovered.solution.primal.columns) := by
  intro claim
  have begun : Session.begin (doubledProgram 3) (doubledStart 3).settings = .ok (doubledStart 3) := by rfl
  have reaches : (doubledStart 3).Reaches (doubledSession 3) :=
    .of_run [.reduce .settleSingleton 0] (by decide +kernel)
  obtain ⟨c, condensed, recovers⟩ :=
    claim _ _ _ _ (doubledProgram_built 3) (doubledProgram_boundsIntegers 3) begun reaches
  obtain rfl := Except.ok.inj (condensed.symm.trans (doubledSession_condensed 3))
  obtain ⟨recovered, run, takes⟩ := recovers noPrimal (doubledRemainder_attained 3) nofun
  have column_eq : recovered.solution.primal.columns = [.finite (3 / 2)] := by
    have test : (match (doubledSession 3).recover (.integer noPrimal) with
      | .ok recovered => decide (recovered.solution.primal.columns = [.finite (3 / 2)])
      | .error _ => false) = true := by decide +kernel
    rw [run] at test
    exact of_decide_eq_true test
  obtain ⟨n, fraction⟩ := takes 0 _ rfl rfl
  rw [column_eq] at fraction
  have halves : (3 : ℚ) = 2 * n := by
    have same : (3 / 2 : ℚ) = n := ExtRat.finite.inj fraction
    linarith
  have even : (3 : ℤ) = 2 * n := by exact_mod_cast halves
  omega

end LinearReduction
