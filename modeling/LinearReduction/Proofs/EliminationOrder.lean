import LinearReduction.Proofs.Exact.Completion
import LinearReduction.Proofs.Exact.Irreducible
import LinearReduction.Proofs.Session.Worklist

/-!
# The order of eliminations

Without tolerances, rows and columns can be eliminated in any order. A program in which nothing can be
eliminated is determined by what is left out to get to it, and every elimination on another way there is part
of that. Main statement: `Session.Reaches.eliminations_confluent`, for every session that calls lead to.
-/

namespace LinearReduction

open ExtRat
open Fault (Ends)

namespace Session

variable {s t v : Session ExtRat} {u : Program ExtRat} {m : Removal} {r : Reduction} {k n l : Nat}
    {added : Added}

theorem Eliminates.exact (eliminates : s.Eliminates n t) (exact : s.program.Exact) : t.program.Exact :=
  (eliminates.reducesTo.reaches.advances exact.transposed).exact exact

theorem Eliminates.settings_eq (eliminates : s.Eliminates n t) (exact : s.program.Exact) :
    t.settings = s.settings :=
  (eliminates.reducesTo.reaches.advances exact.transposed).settings_eq

/-- Eliminations are justified all at once. -/
theorem Eliminates.settles (eliminates : s.Eliminates n t) (exact : s.program.Exact)
    (tolerates : s.settings.Tolerates 0 0) : ∃ m, s.program.Settles m t.program := by
  induction eliminates with
  | refl => exact ⟨_, .nothing _⟩
  | eliminate before elimination result inductionHypothesis =>
    obtain ⟨m, leaves, justified⟩ := inductionHypothesis
    have between := before.exact exact
    have performs := (Step.reduce_ends between.transposed _ _).done_of_eq_ok result
    obtain ⟨n, removes, later⟩ := performs.removes elimination between
    rw [before.settings_eq exact] at removes
    exact ⟨m.and n, leaves.and_iff.2 later, justified.and exact leaves (removes.justified between tolerates)⟩

/-! ## Another way -/

/-- An elimination is part of what leads to a program in which nothing can be eliminated. -/
theorem Performs.settles_rest (performs : s.Performs r k added t) (elimination : r.isElimination = true)
    (exact : s.program.Exact) (tolerates : s.settings.Tolerates 0 0) (settles : s.program.Settles m u)
    (irreducible : u.Irreducible) : t.program.Settles m u := by
  obtain ⟨n, removes, leaves⟩ := performs.removes elimination exact
  have within := settles.removes_within irreducible exact removes
  have all : s.program.Leaves (n.and m) u := by
    rw [within.and_eq]
    exact settles.leaves
  exact ⟨leaves.and_iff.1 all, settles.justified.rest exact leaves (removes.justified exact tolerates) within⟩

theorem Eliminates.settles_rest (eliminates : s.Eliminates n t) (exact : s.program.Exact)
    (tolerates : s.settings.Tolerates 0 0) (settles : s.program.Settles m u) (irreducible : u.Irreducible) :
    t.program.Settles m u := by
  induction eliminates with
  | refl => exact settles
  | eliminate before elimination result inductionHypothesis =>
    have between := before.exact exact
    have performs := (Step.reduce_ends between.transposed _ _).done_of_eq_ok result
    rw [← before.settings_eq exact] at tolerates
    exact performs.settles_rest elimination between tolerates inductionHypothesis irreducible

/-- Two ways to programs in which nothing can be eliminated lead to the same one. -/
theorem Eliminates.program_eq (first : s.Eliminates n t) (other : s.Eliminates l v) (exact : s.program.Exact)
    (counted : s.program.Counted) (tolerates : s.settings.Tolerates 0 0) (irreducible : t.program.Irreducible)
    (also : v.program.Irreducible) : v.program = t.program := by
  obtain ⟨_, there⟩ := first.settles exact tolerates
  obtain ⟨_, back⟩ := other.settles exact tolerates
  have rest := first.settles_rest exact tolerates back also
  have other_rest := other.settles_rest exact tolerates there irreducible
  exact rest.leaves.eq_of_leaves other_rest.leaves (first.exact exact).transposed
    (first.extent_le exact.transposed counted).1 (other.extent_le exact.transposed counted).1

end Session

namespace Step

variable {s t : Session ExtRat} {u : Program ExtRat} {m : Removal} {r : Reduction} {k : Nat}

theorem reduce_ne_noOptimum (exact : s.program.Exact) (tolerates : s.settings.Tolerates 0 0)
    (settles : s.program.Settles m u) (irreducible : u.Irreducible) (r : Reduction) (k : Nat)
    (cause : NoOptimum ExtRat) : reduce r k s ≠ .error (.noOptimum cause) t := by
  intro run
  have stops := (reduce_ends exact.transposed r k).stopped_of_noOptimum run
  exact settles.not_evident irreducible exact tolerates cause (stops.2 cause rfl)

/-- Eliminations on the way to a program in which nothing can be eliminated are carried out. -/
theorem reduce_eq_ok (exact : s.program.Exact) (tolerates : s.settings.Tolerates 0 0)
    (settles : s.program.Settles m u) (irreducible : u.Irreducible) (eligible : s.program.Eligible r k) :
    ∃ added t, reduce r k s = .ok added t := by
  obtain ⟨t, ⟨added, run, _⟩ | ⟨cause, run⟩⟩ := (reduce_completes exact eligible).ok_or_noOptimum
  · exact ⟨added, t, run⟩
  · exact absurd run (reduce_ne_noOptimum exact tolerates settles irreducible r k cause)

end Step

/-- If nothing was asked for but eliminations and they were made, then a program is left in which nothing can
    be eliminated. Any other way of eliminating is done as well, ends, and leaves the same program. -/
theorem Session.Reaches.eliminations_confluent {p : Program ExtRat} {settings : Settings ExtRat}
    {start s t : Session ExtRat} {summary : Summary} (built : p.Built)
    (begun : Session.begin p settings = .ok start) (reaches : start.Reaches s)
    (absolute : settings.absoluteTolerance = 0) (relative : settings.relativeTolerance = 0)
    (dropEmpty : settings.dropEmpty = true) (dropSingletonRows : settings.dropSingletonRows = true)
    (unformed : settings.standardForm = false) (run : Step.simplify s = .ok summary t) :
    (∃ n, s.Eliminates n t) ∧ t.program.Irreducible ∧ ∀ n u, s.Eliminates n u → n ≤ s.program.extent ∧
      (∀ r k, r.isElimination = true → u.program.Eligible r k → ∃ added v, Step.reduce r k u = .ok added v) ∧
        (∀ r k cause v, Step.reduce r k u ≠ .error (.noOptimum cause) v) ∧
          (u.program.Irreducible → u.program = t.program) := by
  obtain ⟨coherent, rfl, _, history⟩ := reaches.history begun
  have exact := history.rewrites.exact built.exact.asMinimization
  have counted := history.rewrites.counted coherent.counted.asMinimization
  have tolerates := Settings.tolerates_zero absolute relative
  obtain ⟨exhausted, n, eliminates⟩ :=
    (Step.simplify_eliminates exact.transposed counted unformed).done_of_eq_ok run
  have irreducible : t.program.Irreducible := by
    intro r k elimination
    refine exhausted.not_eligible ?_ k
    rw [eliminates.settings_eq exact]
    cases r with
    | dropFreeRow | substituteFixed => rfl
    | dropEmptyRow | settleEmpty => exact dropEmpty
    | settleSingleton => exact dropSingletonRows
    | _ => cases elimination
  obtain ⟨m, settles⟩ := eliminates.settles exact tolerates
  refine ⟨⟨n, eliminates⟩, irreducible, fun l u other => ?_⟩
  have after := other.exact exact
  have rest := other.settles_rest exact tolerates settles irreducible
  have unchanged : u.settings.Tolerates 0 0 := by
    rw [other.settings_eq exact]
    exact tolerates
  exact ⟨Nat.le_of_add_left_le (other.extent_le exact.transposed counted).2,
    fun r k _ eligible => Step.reduce_eq_ok after unchanged rest irreducible eligible,
    fun r k cause v => Step.reduce_ne_noOptimum after unchanged rest irreducible r k cause,
    eliminates.program_eq other exact counted tolerates irreducible⟩

/-! ## A column that is fixed twice -/

/-- Minimize a column that is fixed by its bounds, and by an equality row as well. -/
def pinnedProgram : Program ExtRat :=
  (((Program.empty .minimize).pushColumn (.point (.finite 1)) .continuous (.finite 5)).pushRow
    (.point (.finite 2))).link 0 0 (.finite 2)

def pinnedStart : Session ExtRat where
  program := pinnedProgram
  settings := ⟨0, 0, true, true, false, false⟩
  stack := .empty
  origin := pinnedProgram.origin

def pinnedEnd : Session ExtRat where
  program := ⟨.minimize, .finite 5, ⟨#[none], 0⟩, ⟨#[none], 0⟩⟩
  settings := pinnedStart.settings
  stack := .ofRecords [.substituteFixed 0 (.finite 1) (.finite 5) [],
    .settleSingleton 0 0 (.finite 2) (.finite 1)]
  origin := pinnedStart.origin

theorem pinnedProgram_built : pinnedProgram.Built :=
  .newCoefficient (.newRow (.newColumn (.empty .minimize)
    (show Build.newColumn (.point (.finite 1)) .continuous (.finite 5) _ = .ok 0 _ by rfl))
    (show Build.newRow (.point (.finite 2)) _ = .ok 0 _ by rfl))
    (show Build.newCoefficient 0 0 (.finite 2) _ = .ok () _ by rfl)

theorem pinnedStart_begun : Session.begin pinnedProgram pinnedStart.settings = .ok pinnedStart := by
  rfl

theorem pinnedStart_simplified : Step.simplify pinnedStart = .ok pinnedEnd.summary pinnedEnd :=
  Session.simplified_of_test (by decide +kernel)

/-- Whether the column is substituted first or settled by the row first, the same program is left. -/
theorem pinned_eliminations_confluent : (∃ n, pinnedStart.Eliminates n pinnedEnd) ∧
    pinnedEnd.program.Irreducible ∧ ∀ n u, pinnedStart.Eliminates n u → n ≤ pinnedStart.program.extent ∧
      (∀ r k, r.isElimination = true → u.program.Eligible r k → ∃ added v, Step.reduce r k u = .ok added v) ∧
        (∀ r k cause v, Step.reduce r k u ≠ .error (.noOptimum cause) v) ∧
          (u.program.Irreducible → u.program = pinnedEnd.program) :=
  Session.Reaches.eliminations_confluent pinnedProgram_built pinnedStart_begun .refl rfl rfl rfl rfl rfl
    pinnedStart_simplified

end LinearReduction
