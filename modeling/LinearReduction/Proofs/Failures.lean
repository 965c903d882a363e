import LinearReduction.Proofs.Program.Building
import LinearReduction.Proofs.Session.Runs

/-!
# Failures

An operation that fails changes nothing. Main statement: a reduction that stops leaves the whole session as it
was, whatever row or column it was asked for, and data that is turned away leaves the program as it was. A row
or column that isn't there is only ever noticed when the reduction looks up the one that it was asked to
reduce.
-/

namespace LinearReduction

variable {α : Type} [Scalar α]

/-- A computation that leaves a program as it was whenever data is turned away. -/
def Build.Spares {β : Type} (work : Build α β) : Prop :=
  ∀ p error q, work p = .error error q → q = p

namespace Session

open Fault (Ends)

variable [LawfulScalar α] {s t : Session α} {r : Reduction} {k : Nat}

theorem reduce_eq_noOptimum (same : s.program.Transposed) {cause : NoOptimum α}
    (run : Step.reduce r k s = .error (.noOptimum cause) t) : t = s ∧ cause.Evident s.settings s.program := by
  have declines := (Step.reduce_declines same r k).stopped_of_noOptimum run
  exact ⟨declines.unchanged, declines.evident cause rfl⟩

theorem reduce_eq_refused (same : s.program.Transposed) {cause : Refusal}
    (run : Step.reduce r k s = .error (.refused cause) t) :
    t = s ∧ cause.subject? = some (r.axis, k) ∧ cause.Evident s.program := by
  have declines := (Step.reduce_declines same r k).stopped_of_refused run
  exact ⟨declines.unchanged, declines.refused_evident cause rfl⟩

theorem reduce_eq_inactive_iff (same : s.program.Transposed) {axis : Axis} {l : Nat} :
    Step.reduce r k s = .error (.refused (.inactive axis l)) t ↔
      t = s ∧ axis = r.axis ∧ l = k ∧ s.program.boundsOf? r.axis k = none := by
  constructor
  · intro run
    obtain ⟨unchanged, subject, inactive⟩ := reduce_eq_refused same run
    -- What is missing is what the reduction was asked for, since a refusal names nothing else.
    obtain ⟨rfl, rfl⟩ := Prod.mk.inj (Option.some.inj subject)
    exact ⟨unchanged, rfl, rfl, inactive⟩
  · rintro ⟨rfl, rfl, rfl, inactive⟩
    exact Step.reduce_of_inactive inactive

variable {p : Program α} {settings : Settings α} {start : Session α}

/-- A reduction that stops leaves the session as it was, and data that is turned away leaves the program as it
    was. -/
theorem Reaches.failures_change_nothing (begun : Session.begin p settings = .ok start)
    (reaches : start.Reaches s) (r : Reduction) (k : Nat) :
    (∀ cause t, Step.reduce r k s = .error (.noOptimum cause) t → t = s) ∧
    (∀ cause t, Step.reduce r k s = .error (.refused cause) t →
      t = s ∧ cause.subject? = some (r.axis, k) ∧ cause.Evident s.program) ∧
    (∀ axis l t, Step.reduce r k s = .error (.refused (.inactive axis l)) t ↔
      t = s ∧ axis = r.axis ∧ l = k ∧ s.program.boundsOf? r.axis k = none) ∧
    (∀ bounds : Bounds α, (Build.newRow bounds).Spares) ∧
    (∀ (bounds : Bounds α) (domain : Domain) (cost : α), (Build.newColumn bounds domain cost).Spares) ∧
    ∀ (i j : Nat) (value : α), (Build.newCoefficient i j value).Spares := by
  obtain ⟨coherent, _, _, history⟩ := reaches.history begun
  have same := history.transposed coherent.transposed.asMinimization
  refine ⟨fun cause t run => ?_, fun cause t run => ?_, fun axis l t => ?_,
    fun bounds q error q' rejected => ?_,
    fun bounds domain cost q error q' rejected => ?_, fun i j value q error q' rejected => ?_⟩
  · exact (reduce_eq_noOptimum same run).1
  · exact reduce_eq_refused same run
  · exact reduce_eq_inactive_iff same
  · exact Build.newRow_eq_error rejected
  · exact Build.newColumn_eq_error rejected
  · exact Build.newCoefficient_eq_error rejected

theorem mixed_failures_change_nothing :
    Step.reduce .shiftLower 1 mixedSession = .error (.refused (.inactive .column 1)) mixedSession ∧
    (∀ cause t, Step.reduce .splitUpper 0 mixedSession = .error (.refused cause) t → t = mixedSession) := by
  have added := Reaches.failures_change_nothing mixedStart_begun mixedSession_reached .shiftLower 1
  have split := Reaches.failures_change_nothing mixedStart_begun mixedSession_reached .splitUpper 0
  exact ⟨(added.2.2.1 .column 1 _).2 ⟨rfl, rfl, rfl, rfl⟩, fun cause t run => (split.2.1 cause t run).1⟩

end Session

end LinearReduction
