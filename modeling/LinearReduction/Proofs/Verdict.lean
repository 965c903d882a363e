import LinearReduction.Proofs.Exact.Points
import Mathlib.Algebra.Order.Field.Basic

/-!
# Verdicts

What it means that a call finds out that there is no optimal solution. Main statement: rows out of bounds show
that the program at the start has no feasible point, and an unbounded column shows that it has no optimal one.
-/

namespace LinearReduction

open ExtRat

namespace Program

/-- There are feasible points of any cost, however good, the fixed cost left aside. -/
def Unbounded (p : Program ExtRat) : Prop :=
  ∀ limit : ℚ, ∃ point, p.Feasible point ∧ p.Prefers (p.variableCost point) (.finite limit)

def Infeasible (p : Program ExtRat) : Prop :=
  ∀ point, ¬ p.Feasible point

end Program

/-- What a verdict on a reduced program claims of the program at the start. An infinite fixed cost would make
    all points cost the same. -/
def NoOptimum.Claims (p : Program ExtRat) : NoOptimum ExtRat → Prop
  | .zeroOutOfBounds .. | .valueOutOfBounds .. => p.Infeasible
  | .unboundedColumn .. => (p.Infeasible ∨ p.Unbounded) ∧
      (Scalar.isFinite p.fixedCost = true → ∀ point, ¬ p.OptimalPoint point)

variable {settings : Settings ExtRat} {p q : Program ExtRat} {y : Nat → ℚ} {s t : ℚ}

/-! ## Evident verdicts -/

theorem NoOptimum.Evident.not_meets_of_zero (tolerates : settings.Tolerates s t) {i : Nat}
    {bounds : Bounds ExtRat} (evident : (NoOptimum.zeroOutOfBounds i bounds).Evident settings q) :
    ¬ q.Meets y := by
  intro meets
  obtain ⟨row, active, empty, rfl, outside⟩ := evident
  have contains := meets.rows i row active
  rw [empty] at contains
  rw [tolerates.absolute_eq] at outside
  exact Bounds.zero_within contains tolerates.absolute_nonneg outside

theorem NoOptimum.Evident.not_meets_of_value (tolerates : settings.Tolerates s t)
    (exact : q.Exact) {i j : Nat} {value : ExtRat} {bounds : Bounds ExtRat}
    (evident : (NoOptimum.valueOutOfBounds i j value bounds).Evident settings q) : ¬ q.Meets y := by
  intro meets
  obtain ⟨row, column, c, row_active, equality, single, column_active, rfl, rfl, rejected⟩ := evident
  rw [(exact.settled_value row_active equality single).1 (meets.rows i row row_active),
    Step.admits_of_contains tolerates (meets.columns j column column_active)] at rejected
  cases rejected

/-- Along an unbounded column, feasible points get as cheap as one likes. -/
theorem NoOptimum.Evident.exists_cheaper (tolerates : settings.Tolerates s t) (exact : q.Exact) {j : Nat}
    {cost : ExtRat} (evident : (NoOptimum.unboundedColumn j cost).Evident settings q)
    (meets : q.Meets y) (limit : ℚ) : ∃ z, q.Meets z ∧ q.linearCost z ≤ limit := by
  obtain ⟨column, active, empty, rfl, unbounded⟩ := evident
  obtain ⟨proper, cost⟩ := exact.columns j column active
  rw [cost, tolerates.absolute_eq, Step.isUnboundedDirection_iff] at unbounded
  rcases le_or_gt (q.linearCost y) limit with cheap | expensive
  · exact ⟨y, meets, cheap⟩
  have excess : 0 < q.linearCost y - limit := sub_pos.2 expensive
  have contains := meets.columns j column active
  obtain ⟨amount, saved, within⟩ : ∃ amount, column.cost.toRat * amount = q.linearCost y - limit ∧
      column.bounds.Contains (.finite (y j - amount)) := by
    refine ⟨(q.linearCost y - limit) / column.cost.toRat, ?_⟩
    rcases unbounded with ⟨positive, lower⟩ | ⟨negative, upper⟩
    · have priced : 0 < column.cost.toRat := tolerates.absolute_nonneg.trans_lt positive
      exact ⟨mul_div_cancel₀ _ priced.ne', Bounds.contains_of_le contains lower
        (sub_le_self _ (div_pos excess priced).le)⟩
    · have priced : column.cost.toRat < 0 := negative.trans_le (neg_nonpos.2 tolerates.absolute_nonneg)
      exact ⟨mul_div_cancel₀ _ priced.ne, Bounds.contains_of_ge contains upper
        (by linarith [div_neg_of_pos_of_neg excess priced])⟩
  refine ⟨Function.update y j (y j - amount), ⟨fun i row found => ?_, fun k column' found => ?_⟩, ?_⟩
  · rw [Entries.value_update_of_not_mem (exact.empty_not_mem active empty found)]
    exact meets.rows i row found
  · by_cases same : k = j
    · subst same
      obtain rfl := Option.some.inj (active.symm.trans found)
      rwa [Function.update_self]
    · rw [Function.update_of_ne same]
      exact meets.columns k column' found
  · rw [Program.linearCost_of_one (Slots.lt_size active) le_rfl
      fun k other => by rw [Function.update_of_ne other],
      Function.update_self, Program.price_of_active active]
    linarith

/-! ## Verdicts of a session -/

namespace Program

variable {p : Program ExtRat}

/-- Numbers that keep all bounds are a feasible point. -/
theorem Exact.feasible_of_meets (exact : p.Exact) {x : Nat → ℚ} (meets : p.Meets x) :
    ∃ point, p.Lists point x ∧ p.Feasible point :=
  ⟨_, p.lists_range x, ((p.lists_range x).feasible_iff exact).2 meets⟩

theorem Exact.infeasible_iff (exact : p.Exact) : p.Infeasible ↔ ∀ x, ¬ p.Meets x := by
  constructor
  · intro infeasible x meets
    obtain ⟨point, _, feasible⟩ := exact.feasible_of_meets meets
    exact infeasible point feasible
  · intro unmet point feasible
    exact unmet _ ((feasible.isPoint.lists.feasible_iff exact).1 feasible)

theorem prefers_of_minimize (sense : p.sense = .minimize) {a b : ℚ} :
    p.Prefers (.finite a) (.finite b) ↔ a ≤ b := by
  rw [Prefers, sense, finite_le_finite]

theorem prefers_of_maximize (sense : p.sense = .maximize) {a b : ℚ} :
    p.Prefers (.finite a) (.finite b) ↔ b ≤ a := by
  rw [← finite_le_finite, Prefers, sense]

/-- Where the cost to minimize has no lower limit, the cost has none in the sense of the program. -/
theorem Exact.unbounded_of_minimization (exact : p.Exact)
    (cheaper : ∀ limit : ℚ, ∃ x, p.Meets x ∧ p.asMinimization.linearCost x ≤ limit) : p.Unbounded := by
  intro limit
  cases sense : p.sense with
  | minimize =>
    obtain ⟨x, meets, cheap⟩ := cheaper limit
    obtain ⟨point, lists, feasible⟩ := exact.feasible_of_meets meets
    refine ⟨point, feasible, ?_⟩
    rw [linearCost_of_minimize sense] at cheap
    rwa [lists.variableCost_eq exact, prefers_of_minimize sense]
  | maximize =>
    obtain ⟨x, meets, cheap⟩ := cheaper (-limit)
    obtain ⟨point, lists, feasible⟩ := exact.feasible_of_meets meets
    refine ⟨point, feasible, ?_⟩
    rw [linearCost_of_maximize sense] at cheap
    rw [lists.variableCost_eq exact, prefers_of_maximize sense]
    linarith

theorem Exact.exists_cost (exact : p.Exact) (fixed : Scalar.isFinite p.fixedCost = true) {point : List ExtRat}
    (isPoint : p.IsPoint point) : ∃ cost : ℚ, p.variableCost point = .finite cost ∧
      p.costAt point = .finite (p.fixedCost.toRat + cost) := by
  have cost_eq := isPoint.lists.variableCost_eq exact
  refine ⟨_, cost_eq, ?_⟩
  rw [costAt, cost_eq, ← finite_add, ← eq_finite_of_isFinite fixed]

/-- Where there are feasible points of any cost, none of them is optimal. -/
theorem Exact.not_optimal_of_unbounded (exact : p.Exact) (fixed : Scalar.isFinite p.fixedCost = true)
    (unbounded : p.Unbounded) (point : List ExtRat) : ¬ p.OptimalPoint point := by
  rintro ⟨feasible, best⟩
  obtain ⟨cost, _, cost_eq⟩ := exact.exists_cost fixed feasible.isPoint
  cases sense : p.sense with
  | minimize =>
    obtain ⟨other, other_feasible, better⟩ := unbounded (cost - 1)
    obtain ⟨other_cost, variable_eq, other_eq⟩ := exact.exists_cost fixed other_feasible.isPoint
    have no_better := best other other_feasible
    rw [variable_eq, prefers_of_minimize sense] at better
    rw [cost_eq, other_eq, prefers_of_minimize sense] at no_better
    linarith
  | maximize =>
    obtain ⟨other, other_feasible, better⟩ := unbounded (cost + 1)
    obtain ⟨other_cost, variable_eq, other_eq⟩ := exact.exists_cost fixed other_feasible.isPoint
    have no_better := best other other_feasible
    rw [variable_eq, prefers_of_maximize sense] at better
    rw [cost_eq, other_eq, prefers_of_maximize sense] at no_better
    linarith

end Program

variable {p : Program ExtRat} {start : Session ExtRat}

/-- A verdict that a call comes to after any calls before it is true of the program at the start. -/
theorem Session.Reaches.verdict_sound (built : p.Built)
    (absolute : Settings.isTolerance settings.absoluteTolerance = true)
    (relative : Settings.isTolerance settings.relativeTolerance = true)
    (begun : Session.begin p settings = .ok start) {s t : Session ExtRat} (reaches : start.Reaches s)
    {call : Call} {cause : NoOptimum ExtRat}
    (stopped : call.perform s = .error (.noOptimum cause) t) : cause.Claims p := by
  have exact := built.exact
  obtain ⟨_, _, tolerates⟩ := Settings.exists_tolerates absolute relative
  obtain ⟨_, settings_eq, _, history⟩ := (reaches.noOptimum stopped).history begun
  have reached := reaches.history begun
  have evident : cause.Evident settings t.program := by
    have halts :=
      (Call.perform_ends (reached.2.2.2.transposed reached.1.transposed.asMinimization)).stopped_of_noOptimum
      stopped
    rw [← settings_eq]
    exact halts.2 cause rfl
  have rewrites := history.rewrites
  have exact_after := rewrites.exact exact.asMinimization
  have exists_after : ∀ x, p.Meets x → ∃ y, t.program.Meets y := fun x meets =>
    rewrites.exists_meets exact.asMinimization (Program.meets_asMinimization.2 meets)
  cases cause with
  | zeroOutOfBounds i bounds =>
    apply exact.infeasible_iff.2
    intro x meets
    obtain ⟨y, after⟩ := exists_after x meets
    exact evident.not_meets_of_zero tolerates after
  | valueOutOfBounds i j value bounds =>
    apply exact.infeasible_iff.2
    intro x meets
    obtain ⟨y, after⟩ := exists_after x meets
    exact evident.not_meets_of_value tolerates exact_after after
  | unboundedColumn j cost =>
    have verdict : p.Infeasible ∨ p.Unbounded := by
      by_cases feasible : ∃ x, p.Meets x
      · obtain ⟨x, meets⟩ := feasible
        have start_meets := Program.meets_asMinimization.2 meets
        obtain ⟨y, after⟩ := exists_after x meets
        obtain ⟨constant, _, same⟩ := rewrites.linearCost_before exact.asMinimization
        refine .inr (exact.unbounded_of_minimization fun limit => ?_)
        obtain ⟨z, cheap, cost_le⟩ := evident.exists_cheaper tolerates exact_after after (limit - constant)
        have back := rewrites.meets_before exact.asMinimization (.inr ⟨x, start_meets⟩) cheap
        exact ⟨_, Program.meets_asMinimization.1 back, by rw [same]; linarith⟩
      · exact .inl (exact.infeasible_iff.2 fun x meets => feasible ⟨x, meets⟩)
    refine ⟨verdict, fun fixed point optimal => ?_⟩
    rcases verdict with infeasible | unbounded
    · exact infeasible point optimal.feasible
    · exact exact.not_optimal_of_unbounded fixed unbounded point optimal

/-- Maximize `y`, which is at least two, where `x` is one but has to be at least some other number. -/
def strainedProgram (least : ExtRat) : Program ExtRat :=
  ((((Program.empty .maximize).pushRow ⟨least, .posInf⟩).pushColumn (.point (.finite 1)) .continuous
    (.finite 0)).pushColumn ⟨.finite 2, .posInf⟩ .continuous (.finite 1)).link 0 0 (.finite 1)

def strainedStart (least : ExtRat) : Session ExtRat where
  program := (strainedProgram least).asMinimization
  settings := ⟨.finite (1 / 2), .finite 0, true, true, true, true⟩
  stack := .empty
  origin := (strainedProgram least).origin

theorem strainedProgram_built {least : ExtRat} (proper : (⟨least, .posInf⟩ : Bounds ExtRat).isProper = true) :
    (strainedProgram least).Built := by
  have with_row := Program.Built.newRow (.empty .maximize)
    (show Build.newRow ⟨least, .posInf⟩ (Program.empty .maximize : Program ExtRat) = .ok 0 _ by
      rw [Build.newRow, proper]
      rfl)
  have one_column := with_row.newColumn
    (show Build.newColumn (.point (.finite 1)) .continuous (.finite 0) _ = .ok 0 _ by rfl)
  have two_columns := one_column.newColumn
    (show Build.newColumn ⟨.finite 2, .posInf⟩ .continuous (.finite 1) _ = .ok 1 _ by rfl)
  exact two_columns.newCoefficient
    (show Build.newCoefficient 0 0 (.finite 1) _ = .ok () (strainedProgram least) by rfl)

/-- The session after the value of the first column was substituted. -/
def strainedRest (least : ExtRat) : Session ExtRat :=
  ((strainedStart least).run [.reduce .substituteFixed 0]).2

/-- The session after the second column was measured from its lower bound. -/
def strainedShift (least : ExtRat) : Session ExtRat :=
  ((strainedStart least).run [.reduce .shiftLower 1]).2

/-- If `x` has to be at least five, the row without its column can't be satisfied. If it may be one, `y` has
    no limit, and neither has what is left of it beyond two. -/
theorem strained_verdicts_sound : (strainedProgram (.finite 5)).Infeasible ∧
    ((strainedProgram (.finite 1)).Infeasible ∨ (strainedProgram (.finite 1)).Unbounded) ∧
      ∀ point, ¬ (strainedProgram (.finite 1)).OptimalPoint point := by
  have tight : Session.begin (strainedProgram (.finite 5)) (strainedStart (.finite 5)).settings =
      .ok (strainedStart (.finite 5)) := by rfl
  have loose : Session.begin (strainedProgram (.finite 1)) (strainedStart (.finite 1)).settings =
      .ok (strainedStart (.finite 1)) := by rfl
  have substituted : (strainedStart (.finite 5)).Reaches (strainedRest (.finite 5)) :=
    .of_run [.reduce .substituteFixed 0] (by decide +kernel)
  have shifted : (strainedStart (.finite 1)).Reaches (strainedShift (.finite 1)) :=
    .of_run [.reduce .shiftLower 1] (by decide +kernel)
  have row_stops : (Call.reduce .dropEmptyRow 0).perform (strainedRest (.finite 5)) =
      .error (.noOptimum (.zeroOutOfBounds 0 ⟨.finite 4, .posInf⟩)) (strainedRest (.finite 5)) :=
    Session.stopped_of_test (by decide +kernel)
  have column_stops : (Call.reduce .settleEmpty 1).perform (strainedShift (.finite 1)) =
      .error (.noOptimum (.unboundedColumn 1 (.finite (-1)))) (strainedShift (.finite 1)) :=
    Session.stopped_of_test (by decide +kernel)
  have infeasible := Session.Reaches.verdict_sound (strainedProgram_built (by decide +kernel))
    (by decide +kernel) (by decide +kernel) tight substituted row_stops
  obtain ⟨verdict, no_optimum⟩ := Session.Reaches.verdict_sound (strainedProgram_built (by decide +kernel))
    (by decide +kernel) (by decide +kernel) loose shifted column_stops
  exact ⟨infeasible, verdict, no_optimum rfl⟩

end LinearReduction
