import LinearReduction.Proofs.Session.Runs

/-!
# Sequences of reductions

Simplification, and a call that stops, do nothing that single reductions couldn't do, all of them successful.
Main statement: every session that calls lead to is one that a sequence of reductions leads to.
-/

namespace LinearReduction

variable {α : Type} [Scalar α]

namespace Session

/-- Sessions that reductions lead to, one after the other and each of them done. -/
inductive ReducesTo (s : Session α) : Session α → Prop where
  | refl : ReducesTo s s
  | reduce {t u : Session α} {r : Reduction} {k : Nat} {added : Added} (before : ReducesTo s t)
      (result : Step.reduce r k t = .ok added u) : ReducesTo s u

variable {s t u : Session α}

theorem ReducesTo.reaches (reduces : s.ReducesTo t) : s.Reaches t := by
  induction reduces with
  | refl => exact .refl
  | @reduce t u r k added before result inductionHypothesis =>
    exact .done inductionHypothesis (show (Call.reduce r k).perform t = .ok () u
      from Fault.discard_of_eq_ok result)

end Session

open Fault (Ends)

variable [LawfulScalar α] {s t : Session α}

namespace Step

theorem reduce_reducesTo (same : s.program.Transposed) (reduces : s.ReducesTo t) (r : Reduction) (k : Nat) :
    Ends (reduce r k) t (fun _ u => s.ReducesTo u) fun _ u => s.ReducesTo u := by
  have transposed := (reduces.reaches.advances same).transposed same
  refine (reduce_ends transposed r k).with_result.mono (fun added u done => .reduce reduces done.1)
    fun fault u stops => ?_
  rw [stops.1]
  exact reduces

theorem simplify_reducesTo (same : s.program.Transposed) (reduces : s.ReducesTo t) :
    Ends simplify t (fun _ u => s.ReducesTo u) fun _ u => s.ReducesTo u :=
  simplify_keeps (fun _ reduces r k => reduce_reducesTo same reduces r k) (fun _ reduces _ => reduces) reduces

end Step

theorem Call.perform_reducesTo (same : s.program.Transposed) (reduces : s.ReducesTo t) (call : Call) :
    Ends call.perform t (fun _ u => s.ReducesTo u) fun _ u => s.ReducesTo u := by
  cases call with
  | reduce r k => exact .discard (Step.reduce_reducesTo same reduces r k)
  | simplify => exact .discard (Step.simplify_reducesTo same reduces)

/-- Calls lead to the same sessions as reductions that are done. -/
theorem Session.Reaches.reducesTo (reaches : s.Reaches t) (same : s.program.Transposed) : s.ReducesTo t := by
  induction reaches with
  | refl => exact .refl
  | done before result inductionHypothesis =>
    exact (Call.perform_reducesTo same inductionHypothesis _).done_of_eq_ok result
  | noOptimum before result inductionHypothesis =>
    exact (Call.perform_reducesTo same inductionHypothesis _).stopped_of_noOptimum result
  | refused before result inductionHypothesis =>
    exact (Call.perform_reducesTo same inductionHypothesis _).stopped_of_refused result

end LinearReduction
