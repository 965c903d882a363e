import LinearReduction.Session.Agenda
import LinearReduction.Session.Reduce

/-!
# Turns

Working through what is to be looked at, one row or column after the other, for as long as something is
waiting. The rows and columns that wait are in queues. Of a queue nothing is known but that it gives out what
came first, and that nothing waits in it twice.
-/

namespace LinearReduction

/-- Queues that give out what came first and hold nothing twice. What was given out can be put in again. -/
class FifoSet (Q : Type) where
  empty : Q
  push : Q → Nat → Q
  pop? : Q → Option (Nat × Q)
  /-- What is waiting, in the order in which it is given out. -/
  waiting : Q → List Nat
  waiting_empty : waiting empty = []
  waiting_push (queue : Q) (k : Nat) :
    waiting (push queue k) = if k ∈ waiting queue then waiting queue else waiting queue ++ [k]
  pop?_of_nil {queue : Q} : waiting queue = [] → pop? queue = none
  pop?_of_cons {queue : Q} {k : Nat} {later : List Nat} :
    waiting queue = k :: later → ∃ rest, pop? queue = some (k, rest) ∧ waiting rest = later

/-- A list is such a queue if only newcomers are put at its end. -/
instance : FifoSet (List Nat) where
  empty := []
  push queue k := if k ∈ queue then queue else queue ++ [k]
  pop?
    | [] => none
    | k :: rest => some (k, rest)
  waiting := id
  waiting_empty := rfl
  waiting_push _ _ := rfl
  pop?_of_nil := by
    rintro _ rfl
    rfl
  pop?_of_cons := by
    rintro _ k later rfl
    exact ⟨later, rfl, rfl⟩

structure Queues (Q : Type) where
  rows : Q
  columns : Q

namespace Queues

variable {Q : Type} [FifoSet Q] {α : Type}

def pushAll (queue : Q) (newcomers : List Nat) : Q :=
  newcomers.foldl FifoSet.push queue

def full (p : Program α) : Queues Q :=
  ⟨pushAll FifoSet.empty p.rows.ordinals, pushAll FifoSet.empty p.columns.ordinals⟩

/-- Rows are given out before columns. -/
def pop? (queues : Queues Q) : Option ((Axis × Nat) × Queues Q) :=
  match FifoSet.pop? queues.rows with
  | some (i, rows) => some ((.row, i), ⟨rows, queues.columns⟩)
  | none => (FifoSet.pop? queues.columns).map fun (j, columns) => ((.column, j), ⟨queues.rows, columns⟩)

/-- Look again at the rows and columns that lose coefficients to an elimination. -/
def wake (queues : Queues Q) (e : Opportunity) : Queues Q :=
  ⟨pushAll queues.rows e.wakesRows, pushAll queues.columns e.wakesColumns⟩

end Queues

variable {Q : Type} [FifoSet Q] {α : Type} [Scalar α]

def Session.opportunity? (s : Session α) : Axis → Nat → Option Opportunity
  | .row, i => s.rowOpportunity? i
  | .column, j => s.columnOpportunity? j

namespace Step

/-- Carry out an elimination, if there is one to carry out. -/
def follow (rest : Queues Q) : Option Opportunity → Step α (Queues Q)
  | none => return rest
  | some e => do
      discard (reduce e.reduction e.ordinal)
      return rest.wake e

/-- Look at the next row or column, if one is waiting. -/
def turn (queues : Queues Q) : Step α (Option (Queues Q)) := do
  match queues.pop? with
  | none => return none
  | some ((axis, k), rest) => some <$> follow rest ((← get).opportunity? axis k)

end Step

/-- A number of turns, one after the other and each of them done. -/
inductive Session.Turns : Queues Q → Session α → Nat → Queues Q → Session α → Prop where
  | refl (queues : Queues Q) (s : Session α) : Turns queues s 0 queues s
  | turn {queues next rest : Queues Q} {s t u : Session α} {n : Nat}
      (first : Step.turn queues s = .ok (some next) t)
      (later : Turns next t n rest u) : Turns queues s (n + 1) rest u

end LinearReduction
