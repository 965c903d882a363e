import LinearReduction.Program.Build
import LinearReduction.Session.Simplify

/-!
# Reachable sessions

The programs that can be built and the sessions that can be reached from them, by any sequence of calls
that doesn't end in a breach. A call that is refused, or that finds out that there is no optimum, is part
of such a sequence.
-/

namespace LinearReduction

variable {α : Type} [Scalar α]

/-- Programs that are built from data, one piece after the other. -/
inductive Program.Built : Program α → Prop where
  | empty (sense : Sense) : Built (.empty sense)
  | newRow {p q : Program α} {bounds : Bounds α} {i : Nat} (built : Built p)
      (added : Build.newRow bounds p = .ok i q) : Built q
  | newColumn {p q : Program α} {bounds : Bounds α} {domain : Domain} {cost : α} {j : Nat} (built : Built p)
      (added : Build.newColumn bounds domain cost p = .ok j q) : Built q
  | newCoefficient {p q : Program α} {i j : Nat} {value : α} (built : Built p)
      (added : Build.newCoefficient i j value p = .ok () q) : Built q
  | fixCost {p q : Program α} {value : α} (built : Built p)
      (fixed : Build.fixCost value p = .ok () q) : Built q

/-- What a user of a session can do with its program. -/
inductive Call where
  | reduce (reduction : Reduction) (ordinal : Nat)
  | simplify
  deriving DecidableEq, Repr

inductive Response where
  | added (added : Added)
  | summary (summary : Summary)
  deriving DecidableEq

/-- Make a call, leaving its answer aside. -/
def Call.perform : Call → Step α Unit
  | .reduce reduction k => discard (Step.reduce reduction k)
  | .simplify => discard Step.simplify

def Call.respond : Call → Step α Response
  | .reduce r k => return .added (← Step.reduce r k)
  | .simplify => return .summary (← Step.simplify)

/-- Make calls one after the other, whatever comes of each of them, and keep their answers. -/
def Session.run (s : Session α) : List Call → List (Except (Fault α) Response) × Session α
  | [] => ([], s)
  | call :: rest =>
      match call.respond s with
      | .ok response t => (.ok response :: (t.run rest).1, (t.run rest).2)
      | .error fault t => (.error fault :: (t.run rest).1, (t.run rest).2)

/-- Sessions that calls lead to. -/
inductive Session.Reaches (s : Session α) : Session α → Prop where
  | refl : Reaches s s
  | done {t u : Session α} {call : Call} (before : Reaches s t)
      (result : call.perform t = .ok () u) : Reaches s u
  | noOptimum {t u : Session α} {call : Call} {cause : NoOptimum α} (before : Reaches s t)
      (result : call.perform t = .error (.noOptimum cause) u) : Reaches s u
  | refused {t u : Session α} {call : Call} {cause : Refusal} (before : Reaches s t)
      (result : call.perform t = .error (.refused cause) u) : Reaches s u

end LinearReduction
