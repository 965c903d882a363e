import LinearReduction.Proofs.EliminationOrder
import LinearReduction.Proofs.Exact.Solutions
import LinearReduction.Proofs.Recovery.Returned

/-!
# Eliminations as substitutions

Eliminations substitute columns by the values that recovery returns for them, and touch nothing else. Main
statement: `Session.simplify_substitutes`, for every program that can be built and every solution of what is
left of it.
-/

namespace LinearReduction

/-- Costs of the columns, at their ordinals. -/
def Program.costs {α : Type} (p : Program α) : Entries α :=
  p.columns.active.map fun (j, column) => (j, column.cost)

/-- A program that has absorbed what the columns of another one contribute at given values, where it doesn't
    have these columns itself. -/
structure Program.Absorbs {α : Type} [Scalar α] (p : Program α) (values : List α) (q : Program α) : Prop where
  length_eq : values.length = p.columns.size
  fixedCost_eq : q.fixedCost = p.fixedCost + Entries.dot (p.costs.filter (!q.columns.isActive ·.1)) values
  bounds_eq : ∀ {i row before}, q.rows.get? i = some row → p.rows.get? i = some before →
    row.bounds = before.bounds.shift (Entries.dot (before.entries.filter (!q.columns.isActive ·.1)) values)

/-- A session after a call to simplify that was done or showed that there is no optimum. -/
def Session.SimplifiesTo {α : Type} [Scalar α] (s t : Session α) : Prop :=
  (∃ summary, Step.simplify s = .ok summary t) ∨ ∃ cause, Step.simplify s = .error (.noOptimum cause) t

open ExtRat

/-! ## Columns at their values -/

section

variable {p q : Program ExtRat} {m : Removal} {values : List ExtRat} {i j k : Nat} {a b : ℚ}

theorem Removal.of_value_column (value : (column j a).value? k = some b) : k = j ∧ b = a := by
  change (if k = j then some a else none) = some b at value
  split at value
  case isTrue same => exact ⟨same, (Option.some.inj value).symm⟩
  case isFalse => cases value

/-- Columns that are not substituted add nothing to what the others contribute. -/
theorem Removal.value_filter (m : Removal) (entries : Entries ExtRat) :
    Entries.value (entries.filter fun entry => (m.value? entry.1).isSome) m.point =
    entries.value m.point := by
  induction entries with
  | nil => rfl
  | cons first rest inductionHypothesis =>
    rw [List.filter_cons, Entries.value_cons]
    cases value : m.value? first.1 with
    | some a => rw [Option.isSome_some, if_pos rfl, Entries.value_cons, inductionHypothesis]
    | none =>
      rw [Option.isSome_none, if_neg Bool.false_ne_true, inductionHypothesis, point_of_none value,
        mul_zero, zero_add]

theorem Program.value_costs (p : Program ExtRat) (x : Nat → ℚ) : p.costs.value x = p.linearCost x := by
  rw [linearCost_eq_active, Entries.value, costs, List.map_map]
  rfl

namespace Program.Leaves

theorem isActive_column (leaves : p.Leaves m q) (active : p.columns.isActive j = true) :
    q.columns.isActive j = (m.value? j).isNone := by
  rw [Slots.isActive, leaves.columns]
  cases m.value? j with
  | some a => rfl
  | none => exact (Option.isSome_map ..).trans active

theorem dot_eq (leaves : p.Leaves m q)
    (known : ∀ j a, p.columns.isActive j = true → m.value? j = some a → valueAt values j = .finite a)
    {entries : Entries ExtRat} (rational : ∀ entry ∈ entries, entry.2 = .finite entry.2.toRat)
    (within : ∀ k ∈ entries.ordinals, p.columns.isActive k = true) :
    Entries.dot (entries.filter (!q.columns.isActive ·.1)) values = .finite (entries.value m.point) := by
  have gone : entries.filter (!q.columns.isActive ·.1) = entries.filter fun entry =>
    (m.value? entry.1).isSome := by
    refine List.filter_congr fun entry listed => ?_
    rw [leaves.isActive_column (within entry.1 (Entries.mem_ordinals_of_mem listed)), Option.not_isNone]
  rw [gone, ← m.value_filter entries]
  refine Entries.dot_eq_finite (fun entry listed => rational entry (List.mem_filter.1 listed).1)
    fun k listed => ?_
  obtain ⟨c, kept⟩ := Entries.mem_ordinals.1 listed
  obtain ⟨listed, substituted⟩ := List.mem_filter.1 kept
  obtain ⟨a, value⟩ := Option.isSome_iff_exists.1 substituted
  rw [known k a (within k (Entries.mem_ordinals_of_mem listed)) value, Removal.point_of_some value]

/-- What is left has absorbed the values that were substituted. -/
theorem absorbs (leaves : p.Leaves m q) (exact : p.Exact) (length_eq : values.length = p.columns.size)
    (known : ∀ j a, p.columns.isActive j = true → m.value? j = some a → valueAt values j = .finite a) :
    p.Absorbs values q := by
  refine ⟨length_eq, ?_, fun {i row before} active found => ?_⟩
  · rw [leaves.fixedCost_eq, ← p.value_costs, leaves.dot_eq known]
    · intro entry listed
      obtain ⟨⟨j, column⟩, active, rfl⟩ := List.mem_map.1 listed
      exact (exact.columns j column (Slots.mem_active.1 active)).cost
    · intro k listed
      obtain ⟨c, listed⟩ := Entries.mem_ordinals.1 listed
      obtain ⟨⟨j, column⟩, active, same⟩ := List.mem_map.1 listed
      cases same
      exact Slots.isActive_of_eq_some (Slots.mem_active.1 active)
  · obtain ⟨_, other, also, rfl⟩ := leaves.of_row active
    obtain rfl := Option.some.inj (also.symm.trans found)
    rw [leaves.dot_eq known fun entry listed => ((exact.rows i other found).rational entry listed).1]
    · rfl
    · intro k listed
      obtain ⟨column, active⟩ := exact.transposed.column_active found listed
      exact Slots.isActive_of_eq_some active

end Program.Leaves

theorem Program.Removes.column_active {settings : Settings ExtRat} {r : Reduction}
    (removes : p.Removes settings r k m) (value : m.value? j = some a) : p.columns.isActive j = true := by
  cases removes with
  | dropFreeRow | dropEmptyRow => cases value
  | substituteFixed active | settleEmpty active | settleSingleton _ _ _ _ active =>
    obtain ⟨rfl, rfl⟩ := Removal.of_value_column value
    exact Slots.isActive_of_eq_some active

end

/-! ## Values that are recovered -/

theorem Record.column_substituteFixed (v : Valuation ExtRat) (j : Nat) (value cost : ExtRat)
    (entries : Entries ExtRat) :
    ((substituteFixed j value cost entries).primalBefore v).columns j = value := by
  rw [primalBefore, Valuation.columns_addActivities, Valuation.columns_setColumn, if_pos rfl]

namespace Session

variable {s t : Session ExtRat} {m : Removal} {r : Reduction} {k n : Nat} {added : Added}

/-- An elimination records the values that it substitutes. -/
theorem Performs.values_recorded (performs : s.Performs r k added t)
    (removes : s.program.Removes s.settings r k m) : ∃ news, t.records = news ++ s.records ∧
      ∀ v j a, m.value? j = some a → (news.foldl Record.primalBefore v).columns j = .finite a := by
  obtain ⟨news, move, records, _, first, last, rfl, rfl⟩ := performs.move
  refine ⟨news, records, fun v j a value => ?_⟩
  generalize t.program = q at move
  cases move with
  | @single _ record rewrite unsettled =>
    obtain rfl : record = first := Option.some.inj last
    cases rewrite with
    | @substituteFixed _ column active fixed finite =>
      cases removes with
      | substituteFixed found bounds =>
        obtain ⟨rfl, rfl⟩ := Removal.of_value_column value
        obtain rfl := Option.some.inj (active.symm.trans found)
        exact (Record.column_substituteFixed v j _ column.cost column.entries).trans
          (congrArg Bounds.lower bounds)
    | dropFreeRow | dropEmptyRow =>
      cases removes
      cases value
    | settleEmpty | settleSingleton => cases unsettled
    | _ => cases removes
  | @settled between record _ _ rewrite settles active fixed finite =>
    obtain rfl : record = first := Option.some.inj last
    cases rewrite with
    | @settleEmpty _ column before =>
      cases settles
      cases removes with
      | settleEmpty found _ _ best =>
        obtain ⟨rfl, rfl⟩ := Removal.of_value_column value
        obtain rfl := Option.some.inj (before.symm.trans found)
        rw [Program.columns_boundedColumn, if_pos rfl, before, Option.map_some] at active
        cases active
        exact (Record.column_substituteFixed v j _ column.cost column.entries).trans best
    | @settleSingleton i _ row column _ row_active _ single column_active =>
      cases settles
      cases removes with
      | settleSingleton row_found equality single' nonzero column_found =>
        obtain rfl := Option.some.inj (row_active.symm.trans row_found)
        cases single.symm.trans single'
        obtain ⟨rfl, rfl⟩ := Removal.of_value_column value
        rw [Program.columns_settledBy, column_active, Option.map_some, if_pos rfl] at active
        cases active
        refine (Record.column_substituteFixed v j _ column.cost (column.entries.erase _)).trans ?_
        rw [equality]
        exact finite_div _ nonzero
    | _ => cases settles

/-- What is left is determined by values that are recovered for the columns that are gone, whatever is
    given. -/
theorem Eliminates.leaves (eliminates : s.Eliminates n t) (exact : s.program.Exact) (fresh : s.records = []) :
    ∃ m, s.program.Leaves m t.program ∧
      ∀ v j a, m.value? j = some a → (t.records.foldl Record.primalBefore v).columns j = .finite a := by
  induction eliminates with
  | refl => exact ⟨.nothing, .nothing _, nofun⟩
  | eliminate before elimination result inductionHypothesis =>
    obtain ⟨m, leaves, known⟩ := inductionHypothesis
    have between := before.exact exact
    have performs := (Step.reduce_ends between.transposed _ _).done_of_eq_ok result
    obtain ⟨n, removes, later⟩ := performs.removes elimination between
    obtain ⟨news, records, recorded⟩ := performs.values_recorded removes
    refine ⟨m.and n, leaves.and_iff.2 later, fun v j a value => ?_⟩
    change (m.value? j).or (n.value? j) = some a at value
    rw [records, List.foldl_append]
    cases first : m.value? j with
    | some b =>
      rw [first, Option.some_or] at value
      exact known _ j a (first.trans value)
    | none =>
      -- The records from before are of other columns, as this one was still there.
      rw [first, Option.none_or] at value
      have gone := before.goneFrom exact.transposed fresh
      exact (Record.columns_foldl_primalBefore gone (removes.column_active value)).trans
        (recorded v j a value)

end Session

/-! ## Simplification without a standard form -/

namespace Session

/-- However simplification ends, only eliminations were made. -/
theorem SimplifiesTo.eliminates {α : Type} [Scalar α] [LawfulScalar α] {p : Program α} {settings : Settings α}
    {start t : Session α} (simplifies : start.SimplifiesTo t) (begun : Session.begin p settings = .ok start)
    (unformed : settings.standardForm = false) : ∃ n, start.Eliminates n t := by
  obtain ⟨test, rfl⟩ := begin_eq_ok begun
  have coherent := Program.isCoherent_iff.1 test
  have ends := Step.simplify_eliminates (s := ⟨p.asMinimization, settings, .empty, p.origin⟩)
    coherent.transposed.asMinimization coherent.counted.asMinimization unformed
  obtain ⟨summary, run⟩ | ⟨cause, run⟩ := simplifies
  · exact (ends.done_of_eq_ok run).2
  · exact ends.stopped_of_noOptimum run

/-- After eliminations, recovery returns values that what is left has absorbed. -/
theorem Eliminates.absorbs {p : Program ExtRat} {settings : Settings ExtRat}
    {start t : Session ExtRat} {n : Nat} (eliminates : start.Eliminates n t) (built : p.Built)
    (begun : Session.begin p settings = .ok start) {reduced : Solution ExtRat} {recovered : Recovered ExtRat}
    (run : t.recover reduced = .ok recovered) :
    p.asMinimization.Absorbs recovered.solution.primal.columns t.program := by
  have descends := eliminates.reducesTo.reaches.descendsFrom begun
  obtain ⟨_, rfl⟩ := begin_eq_ok begun
  have exact := built.exact.asMinimization
  obtain ⟨m, leaves, known⟩ := eliminates.leaves exact rfl
  obtain ⟨_, _, primal_eq, _⟩ := recover_eq_ok_sides descends run
  rw [primal_eq]
  refine leaves.absorbs exact ?_ fun j a active value => ?_
  · rw [Valuation.sides, List.length_map, List.length_range]
  · rw [Valuation.valueAt_columns_sides (Slots.lt_size_of_isActive active)]
    exact known _ j a value

/-- Eliminations are substitutions and touch nothing else: what is left has the rows, columns and coefficients
    that it had, and recovery returns what is given for it. Where numbers are exact, costs and bounds are what
    the values that recovery returns leave of them. -/
theorem simplify_substitutes :
    (∀ (α : Type) [Scalar α] [LawfulScalar α] (p : Program α) (settings : Settings α) (start t : Session α),
      p.Built → Session.begin p settings = .ok start → settings.standardForm = false → start.SimplifiesTo t →
        t.origin = p.origin ∧ p.asMinimization.NarrowsTo t.program ∧
          ∀ reduced : Solution α, t.isMatchedBy reduced.primal = true →
            ∃ recovered, t.recover reduced = .ok recovered ∧ t.Returns reduced recovered.solution) ∧
    ∀ (p : Program ExtRat) (settings : Settings ExtRat) (start t : Session ExtRat), p.Built →
      Session.begin p settings = .ok start → settings.standardForm = false → start.SimplifiesTo t →
        ∀ reduced : Solution ExtRat, t.isMatchedBy reduced.primal = true →
          ∃ recovered, t.recover reduced = .ok recovered ∧
            p.asMinimization.Absorbs recovered.solution.primal.columns t.program := by
  constructor
  · intro α _ _ p settings start t built begun unformed simplifies
    obtain ⟨n, eliminates⟩ := simplifies.eliminates begun unformed
    have descends := eliminates.reducesTo.reaches.descendsFrom begun
    obtain ⟨_, _, origin_eq, _⟩ := eliminates.reducesTo.reaches.history begun
    obtain ⟨_, rfl⟩ := begin_eq_ok begun
    refine ⟨origin_eq, eliminates.narrows descends.transposed, fun reduced matched => ?_⟩
    exact eliminates.returns built.full begun matched
  · intro p settings start t built begun unformed simplifies reduced matched
    obtain ⟨n, eliminates⟩ := simplifies.eliminates begun unformed
    obtain ⟨recovered, run, _⟩ := eliminates.returns built.full begun matched
    exact ⟨recovered, run, eliminates.absorbs built begun run⟩

end Session

/-! ## A column that shares a row with a fixed one -/

/-- Maximize two columns under a bound on both, the first of which is fixed. -/
def coupledProgram : Program ExtRat :=
  (((((Program.empty .maximize).pushColumn (.point (.finite 1)) .continuous (.finite 3)).pushColumn
    ⟨.finite 0, .finite 5⟩ .continuous (.finite 1)).pushRow ⟨.negInf, .finite 8⟩).link 0 0
      (.finite 2)).link 0 1 (.finite 1)

def coupledStart : Session ExtRat where
  program := coupledProgram.asMinimization
  settings := ⟨0, 0, true, true, false, false⟩
  stack := .empty
  origin := coupledProgram.origin

def coupledEnd : Session ExtRat where
  program := ⟨.minimize, .finite (-3), ⟨#[some ⟨⟨.negInf, .finite 6⟩, [(1, .finite 1)]⟩], 1⟩,
    ⟨#[none, some ⟨⟨.finite 0, .finite 5⟩, .continuous, .finite (-1), [(0, .finite 1)]⟩], 1⟩⟩
  settings := coupledStart.settings
  stack := .ofRecords [.substituteFixed 0 (.finite 1) (.finite (-3)) [(0, .finite 2)]]
  origin := coupledStart.origin

/-- The second column at its upper bound. -/
def coupledSolution : Solution ExtRat :=
  .basic ⟨[.basic], [.atUpper]⟩ ⟨[.finite 5], [.finite 5]⟩ ⟨[.finite 0], [.finite (-1)]⟩ ⟨rfl, rfl⟩ ⟨rfl, rfl⟩

theorem coupledProgram_built : coupledProgram.Built :=
  .newCoefficient (.newCoefficient (.newRow (.newColumn (.newColumn (.empty .maximize)
    (show Build.newColumn (.point (.finite 1)) .continuous (.finite 3) _ = .ok 0 _ by rfl))
    (show Build.newColumn ⟨.finite 0, .finite 5⟩ .continuous (.finite 1) _ = .ok 1 _ by rfl))
    (show Build.newRow ⟨.negInf, .finite 8⟩ _ = .ok 0 _ by rfl))
    (show Build.newCoefficient 0 0 (.finite 2) _ = .ok () _ by rfl))
    (show Build.newCoefficient 0 1 (.finite 1) _ = .ok () _ by rfl)

theorem coupledStart_begun : Session.begin coupledProgram coupledStart.settings = .ok coupledStart := by
  rfl

theorem coupledStart_simplified : Step.simplify coupledStart = .ok coupledEnd.summary coupledEnd :=
  Session.simplified_of_test (by decide +kernel)

/-- The bound that is left is eight less what the first column contributes. -/
theorem coupled_simplify_substitutes : coupledProgram.asMinimization.NarrowsTo coupledEnd.program ∧
    ∃ recovered, coupledEnd.recover coupledSolution = .ok recovered ∧
      coupledEnd.Returns coupledSolution recovered.solution ∧
        coupledProgram.asMinimization.Absorbs recovered.solution.primal.columns coupledEnd.program := by
  obtain ⟨frame, substitution⟩ := Session.simplify_substitutes
  have simplifies : coupledStart.SimplifiesTo coupledEnd := .inl ⟨_, coupledStart_simplified⟩
  have matched : coupledEnd.isMatchedBy coupledSolution.primal = true := by decide +kernel
  obtain ⟨_, narrows, returns⟩ :=
    frame ExtRat coupledProgram _ coupledStart coupledEnd coupledProgram_built coupledStart_begun rfl
      simplifies
  obtain ⟨recovered, run, given⟩ := returns coupledSolution matched
  obtain ⟨other, also, absorbs⟩ :=
    substitution coupledProgram _ coupledStart coupledEnd coupledProgram_built coupledStart_begun rfl
      simplifies coupledSolution matched
  obtain rfl := Except.ok.inj (also.symm.trans run)
  exact ⟨narrows, other, run, given, absorbs⟩

end LinearReduction
