import LinearReduction.Proofs.Session.Restriction
import LinearReduction.Session.Turns

/-!
# Turns end

Every turn takes something out of a queue, and what an elimination puts back is paid for by what it removes
from the program. Main statements: `Session.Turns.potential_le`, from which the number of turns is bounded,
and `workThrough_follows_turns`, that working through an agenda for a number of eliminations is taking turns
until nothing is waiting.
-/

namespace LinearReduction

variable {Q : Type} [FifoSet Q] {α : Type} [Scalar α]

/-! ## Queues -/

namespace Queues

variable {queues rest : Queues Q} {e : Opportunity} {i j k : Nat} {later : List Nat}

def agenda (queues : Queues Q) : Agenda :=
  ⟨FifoSet.waiting queues.rows, FifoSet.waiting queues.columns⟩

theorem waiting_pushAll (queue : Q) (newcomers : List Nat) :
    FifoSet.waiting (pushAll queue newcomers) = Agenda.enqueue (FifoSet.waiting queue) newcomers := by
  induction newcomers generalizing queue with
  | nil => rfl
  | cons first others inductionHypothesis =>
    rw [pushAll, List.foldl_cons, ← pushAll, inductionHypothesis, FifoSet.waiting_push]
    rfl

theorem agenda_wake (queues : Queues Q) (e : Opportunity) :
    (queues.wake e).agenda = queues.agenda.wake e := by
  simp only [agenda, wake, Agenda.wake, waiting_pushAll]

theorem pop?_of_row (waiting : queues.agenda.rows = i :: later) :
    ∃ rest : Queues Q, queues.pop? = some ((.row, i), rest) ∧
    rest.agenda = ⟨later, queues.agenda.columns⟩ := by
  obtain ⟨rows, popped, left⟩ := FifoSet.pop?_of_cons waiting
  exact ⟨⟨rows, queues.columns⟩, by rw [pop?, popped], by rw [agenda, left]; rfl⟩

theorem pop?_of_column (rows : queues.agenda.rows = []) (waiting : queues.agenda.columns = j :: later) :
    ∃ rest : Queues Q, queues.pop? = some ((.column, j), rest) ∧ rest.agenda = ⟨[], later⟩ := by
  obtain ⟨columns, popped, left⟩ := FifoSet.pop?_of_cons waiting
  refine ⟨⟨queues.rows, columns⟩, by rw [pop?, FifoSet.pop?_of_nil rows, popped]; rfl, ?_⟩
  rw [agenda, left]
  exact congrArg (Agenda.mk · later) rows

theorem pop?_of_nil (rows : queues.agenda.rows = []) (columns : queues.agenda.columns = []) :
    queues.pop? = none := by
  rw [pop?, FifoSet.pop?_of_nil rows, FifoSet.pop?_of_nil columns]
  rfl

end Queues

theorem Agenda.enqueue_of_nodup {queue newcomers : List Nat} (distinct : newcomers.Nodup)
    (apart : ∀ k ∈ newcomers, k ∉ queue) : enqueue queue newcomers = queue ++ newcomers := by
  induction newcomers generalizing queue with
  | nil => simp [enqueue]
  | cons first others inductionHypothesis =>
    obtain ⟨absent, distinct⟩ := List.nodup_cons.1 distinct
    rw [enqueue, List.foldl_cons, if_neg (apart first List.mem_cons_self), ← enqueue,
      inductionHypothesis distinct fun k later => ?_, List.append_assoc]
    · rfl
    · rw [List.mem_append, List.mem_singleton]
      rintro (waiting | rfl)
      · exact apart k (List.mem_cons_of_mem _ later) waiting
      · exact absent later

theorem Agenda.nodup_enqueue {queue : List Nat} (distinct : queue.Nodup) (newcomers : List Nat) :
    (enqueue queue newcomers).Nodup := by
  induction newcomers generalizing queue with
  | nil => exact distinct
  | cons first others inductionHypothesis =>
    rw [enqueue, List.foldl_cons, ← enqueue]
    split
    case isTrue => exact inductionHypothesis distinct
    case isFalse absent =>
      refine inductionHypothesis (List.nodup_append.2 ⟨distinct, List.pairwise_singleton _ _, ?_⟩)
      rintro k waiting l listed rfl
      exact absent (List.mem_singleton.1 listed ▸ waiting)

omit [Scalar α] in
theorem Queues.agenda_full (p : Program α) : (full p : Queues Q).agenda = Agenda.full p := by
  simp only [agenda, full, Agenda.full, waiting_pushAll, FifoSet.waiting_empty,
    Agenda.enqueue_of_nodup (Slots.nodup_ordinals _) fun _ _ => List.not_mem_nil, List.nil_append]

/-! ## What is given out next -/

namespace Agenda

variable {s : Session α} {agenda rest : Agenda} {axis : Axis} {k : Nat} {e : Opportunity}

/-- What an agenda gives out first, and what is left of it. -/
inductive Gives : Agenda → Axis → Nat → Agenda → Prop where
  | row (i : Nat) (rows columns : List Nat) : Gives ⟨i :: rows, columns⟩ .row i ⟨rows, columns⟩
  | column (j : Nat) (columns : List Nat) : Gives ⟨[], j :: columns⟩ .column j ⟨[], columns⟩

theorem next?_nothing (s : Session α) : next? ⟨[], []⟩ s = none := rfl

theorem Gives.next?_of_none (gives : agenda.Gives axis k rest) (nothing : s.opportunity? axis k = none) :
    agenda.next? s = rest.next? s := by
  cases gives with
  | row i rows columns =>
    change s.rowOpportunity? k = none at nothing
    simp only [next?, firstOf, nothing]
  | column j columns =>
    change s.columnOpportunity? k = none at nothing
    simp only [next?, firstOf, nothing]

theorem Gives.next?_of_some (gives : agenda.Gives axis k rest) (found : s.opportunity? axis k = some e) :
    agenda.next? s = some (e, rest) := by
  cases gives with
  | row i rows columns =>
    change s.rowOpportunity? k = some e at found
    simp only [next?, firstOf, found]
  | column j columns =>
    change s.columnOpportunity? k = some e at found
    simp only [next?, firstOf, found, Option.map_some]

end Agenda

theorem Queues.pop?_cases (queues : Queues Q) : queues.pop? = none ∧ queues.agenda = ⟨[], []⟩ ∨
    ∃ axis k, ∃ rest : Queues Q, queues.pop? = some ((axis, k), rest) ∧
    queues.agenda.Gives axis k rest.agenda := by
  cases rows : queues.agenda.rows with
  | cons i later =>
    obtain ⟨rest, popped, left⟩ := pop?_of_row rows
    have waiting : queues.agenda = ⟨i :: later, queues.agenda.columns⟩ := congrArg (Agenda.mk · _) rows
    exact .inr ⟨_, _, rest, popped, waiting ▸ left ▸ .row ..⟩
  | nil =>
    have waiting : queues.agenda = ⟨[], queues.agenda.columns⟩ := congrArg (Agenda.mk · _) rows
    cases columns : queues.agenda.columns with
    | cons j later =>
      obtain ⟨rest, popped, left⟩ := pop?_of_column rows columns
      rw [columns] at waiting
      exact .inr ⟨_, _, rest, popped, waiting ▸ left ▸ .column ..⟩
    | nil =>
      rw [columns] at waiting
      exact .inl ⟨pop?_of_nil rows columns, waiting⟩

namespace Session

variable {s : Session α} {axis : Axis} {k : Nat} {e : Opportunity}

theorem opportunity_isElimination (found : s.opportunity? axis k = some e) :
    e.reduction.isElimination = true := by
  cases axis with
  | row => exact (rowOpportunity_of_eq_some found).isElimination
  | column => exact (columnOpportunity_of_eq_some found).isElimination

/-- What is looked at again is there. -/
theorem opportunity_wakes (same : s.program.Transposed) (found : s.opportunity? axis k = some e) :
    (∀ i ∈ e.wakesRows, i < s.program.rows.size) ∧ ∀ j ∈ e.wakesColumns, j < s.program.columns.size := by
  cases axis with
  | row =>
    cases rowOpportunity_of_eq_some found with
    | dropEmptyRow => exact ⟨List.forall_mem_nil _, List.forall_mem_nil _⟩
    | dropFreeRow active free =>
      exact ⟨List.forall_mem_nil _,
        fun j listed => Slots.lt_size_of_isActive (same.column_isActive active listed)⟩
    | @settleSingleton row j coefficient active equality single wanted =>
      refine ⟨fun i listed => ?_, List.forall_mem_nil _⟩
      obtain ⟨column, found⟩ := same.column_active active (j := j) (by simp [single, Entries.ordinals])
      have listed := (List.mem_filter.1 listed).1
      rw [Program.rowsOf, found] at listed
      exact Slots.lt_size_of_isActive (same.row_isActive found listed)
  | column =>
    cases columnOpportunity_of_eq_some found with
    | settleEmpty => exact ⟨List.forall_mem_nil _, List.forall_mem_nil _⟩
    | substituteFixed active fixed =>
      exact ⟨fun i listed => Slots.lt_size_of_isActive (same.row_isActive active listed),
        List.forall_mem_nil _⟩

theorem Exhausted.opportunity_eq_none (exhausted : s.Exhausted) (axis : Axis) (k : Nat) :
    s.opportunity? axis k = none := by
  cases axis with
  | row => exact exhausted.rows k
  | column => exact exhausted.columns k

end Session

/-! ## Turns and what they leave -/

namespace Step

variable {queues next rest : Queues Q} {s t : Session α} {axis : Axis} {k : Nat} {e : Opportunity}

theorem turn_of_nothing (nothing : queues.pop? = none) : turn queues s = .ok none s := by
  simp only [turn, nothing]
  rfl

theorem turn_of_skipped (popped : queues.pop? = some ((axis, k), rest))
    (nothing : s.opportunity? axis k = none) : turn queues s = .ok (some rest) s := by
  simp only [turn, popped]
  change (some <$> follow rest (s.opportunity? axis k)) s = _
  rw [nothing]
  rfl

theorem turn_of_found (popped : queues.pop? = some ((axis, k), rest))
    (found : s.opportunity? axis k = some e) : turn queues s = (do
      discard (reduce e.reduction e.ordinal)
      return some (rest.wake e)) s := by
  simp only [turn, popped]
  change (some <$> follow rest (s.opportunity? axis k)) s = _
  rw [found]
  simp only [follow, map_bind, map_pure]

/-- A turn that is done takes something out, and an elimination puts back what it wakes. -/
theorem turn_eq_some (run : turn queues s = .ok (some next) t) : ∃ axis k, ∃ rest : Queues Q,
    queues.pop? = some ((axis, k), rest) ∧ (s.opportunity? axis k = none ∧ next = rest ∧ t = s ∨
      ∃ e added, s.opportunity? axis k = some e ∧ reduce e.reduction e.ordinal s = .ok added t ∧
        next = rest.wake e) := by
  obtain ⟨nothing, _⟩ | ⟨axis, k, rest, popped, _⟩ := queues.pop?_cases
  · rw [turn_of_nothing nothing] at run
    cases run
  · refine ⟨axis, k, rest, popped, ?_⟩
    cases found : s.opportunity? axis k with
    | none =>
      rw [turn_of_skipped popped found] at run
      cases run
      exact .inl ⟨rfl, rfl, rfl⟩
    | some e =>
      rw [turn_of_found popped found] at run
      cases reduced : reduce e.reduction e.ordinal s with
      | ok added u =>
        rw [Fault.bind_of_eq_ok (Fault.discard_of_eq_ok reduced)] at run
        cases run
        exact .inr ⟨e, added, rfl, reduced, rfl⟩
      | error fault u =>
        rw [Fault.bind_of_eq_error (Fault.discard_of_eq_error reduced)] at run
        cases run

end Step

/-- Nothing is on an agenda twice, and everything on it has a slot in the program. -/
structure Agenda.Within (agenda : Agenda) (p : Program α) : Prop where
  rows_nodup : agenda.rows.Nodup
  columns_nodup : agenda.columns.Nodup
  rows : ∀ i ∈ agenda.rows, i < p.rows.size
  columns : ∀ j ∈ agenda.columns, j < p.columns.size

def Agenda.length (agenda : Agenda) : Nat :=
  agenda.rows.length + agenda.columns.length

def Program.slots (p : Program α) : Nat :=
  p.rows.size + p.columns.size

/-- Bound on the number of turns to come. A row or column that is eliminated pays for everything that can be
    put back. -/
def Agenda.potential (agenda : Agenda) (p : Program α) : Nat :=
  p.extent * (p.slots + 1) + agenda.length

namespace Agenda.Within

variable {p q : Program α} {agenda rest : Agenda} {axis : Axis} {k : Nat} {e : Opportunity}

omit [Scalar α] in
theorem full (p : Program α) : (Agenda.full p).Within p :=
  ⟨p.rows.nodup_ordinals, p.columns.nodup_ordinals,
    fun _ listed => Slots.lt_size_of_isActive (Slots.mem_ordinals.1 listed),
    fun _ listed => Slots.lt_size_of_isActive (Slots.mem_ordinals.1 listed)⟩

omit [Scalar α] in
theorem length_le (within : agenda.Within p) : agenda.length ≤ p.slots := by
  have rows := within.rows_nodup.length_le_of_subset fun i listed => List.mem_range.2 (within.rows i listed)
  have columns := within.columns_nodup.length_le_of_subset fun j listed =>
    List.mem_range.2 (within.columns j listed)
  rw [List.length_range] at rows columns
  exact Nat.add_le_add rows columns

omit [Scalar α] in
theorem gives (within : agenda.Within p) (gives : agenda.Gives axis k rest) : rest.Within p := by
  cases gives with
  | row i rows columns =>
    exact ⟨(List.nodup_cons.1 within.rows_nodup).2, within.columns_nodup,
      fun l later => within.rows l (List.mem_cons_of_mem _ later), within.columns⟩
  | column j columns =>
    exact ⟨within.rows_nodup, (List.nodup_cons.1 within.columns_nodup).2, within.rows,
      fun l later => within.columns l (List.mem_cons_of_mem _ later)⟩

omit [Scalar α] in
theorem wake (within : agenda.Within p) (rows : ∀ i ∈ e.wakesRows, i < p.rows.size)
    (columns : ∀ j ∈ e.wakesColumns, j < p.columns.size) : (agenda.wake e).Within p :=
  ⟨nodup_enqueue within.rows_nodup _, nodup_enqueue within.columns_nodup _,
    fun i listed => (mem_enqueue.1 listed).elim (within.rows i) (rows i),
    fun j listed => (mem_enqueue.1 listed).elim (within.columns j) (columns j)⟩

omit [Scalar α] in
theorem narrows (within : agenda.Within p) (narrows : p.NarrowsTo q) : agenda.Within q :=
  ⟨within.rows_nodup, within.columns_nodup, narrows.rows_size ▸ within.rows,
    narrows.columns_size ▸ within.columns⟩

end Agenda.Within

omit [Scalar α] in
theorem Agenda.Gives.length_eq {agenda rest : Agenda} {axis : Axis} {k : Nat}
    (gives : agenda.Gives axis k rest) : agenda.length = rest.length + 1 := by
  cases gives with
  | row => simp only [Agenda.length, List.length_cons]; omega
  | column => simp only [Agenda.length, List.length_cons]; omega

/-! ## Turns end -/

namespace Session

variable {queues next rest : Queues Q} {s t u : Session α} {n : Nat}

/-- A session together with queues of rows and columns in it. -/
structure Attends (s : Session α) (queues : Queues Q) : Prop where
  transposed : s.program.Transposed
  counted : s.program.Counted
  within : queues.agenda.Within s.program

omit [Scalar α] in
theorem attends_full (same : s.program.Transposed) (counted : s.program.Counted) :
    s.Attends (Queues.full s.program : Queues Q) :=
  ⟨same, counted, Queues.agenda_full (Q := Q) s.program ▸ .full _⟩

variable [LawfulScalar α]

/-- A turn that is done leads to another session with queues in it, and uses up some of what bounds the turns
    to come. -/
theorem Attends.turn (attends : s.Attends queues) (run : Step.turn queues s = .ok (some next) t) :
    t.Attends next ∧ next.agenda.potential t.program < queues.agenda.potential s.program := by
  obtain ⟨same, counted, within⟩ := attends
  obtain ⟨axis, k, rest, popped, done⟩ := Step.turn_eq_some run
  obtain ⟨nothing, _⟩ | ⟨_, _, _, again, gives⟩ := queues.pop?_cases
  · rw [nothing] at popped
    cases popped
  cases popped.symm.trans again
  have length := gives.length_eq
  rcases done with ⟨_, rfl, rfl⟩ | ⟨e, added, found, reduced, rfl⟩
  · refine ⟨⟨same, counted, within.gives gives⟩, ?_⟩
    unfold Agenda.potential
    omega
  · have elimination := opportunity_isElimination found
    have performs := (Step.reduce_ends same _ _).done_of_eq_ok reduced
    have smaller := performs.extent_lt elimination counted
    have narrows := performs.narrows elimination same
    have slots : t.program.slots = s.program.slots := by
      rw [Program.slots, narrows.rows_size, narrows.columns_size, Program.slots]
    obtain ⟨rows, columns⟩ := opportunity_wakes same found
    have after : (rest.wake e).agenda.Within t.program := by
      rw [Queues.agenda_wake]
      exact ((within.gives gives).wake rows columns).narrows narrows
    refine ⟨⟨performs.transposed same, performs.counted counted, after⟩, ?_⟩
    have most := after.length_le
    have fewer := Nat.mul_le_mul_right (s.program.slots + 1) (Nat.succ_le_of_lt smaller)
    rw [Nat.succ_mul] at fewer
    rw [Agenda.potential, Agenda.potential, slots]
    omega

/-- Turns use up what bounds their number. -/
theorem Turns.potential_le (turns : Turns queues s n rest t) (attends : s.Attends queues) :
    t.Attends rest ∧ n + rest.agenda.potential t.program ≤ queues.agenda.potential s.program := by
  induction turns with
  | refl => exact ⟨attends, Nat.le_of_eq (Nat.zero_add _)⟩
  | turn first later inductionHypothesis =>
    obtain ⟨between, less⟩ := attends.turn first
    obtain ⟨after, most⟩ := inductionHypothesis between
    exact ⟨after, by omega⟩

end Session

/-! ## Working through an agenda as taking turns -/

namespace Step

variable {queues : Queues Q} {s : Session α}

theorem workThrough_of_next {agenda rest : Agenda} {e : Opportunity} (found : agenda.next? s = some (e, rest))
    (budget : Nat) : workThrough (budget + 1) agenda s = (do
      discard (reduce e.reduction e.ordinal)
      workThrough budget (rest.wake e)) s := by
  have got : (get : Step α (Session α)) s = .ok s s := rfl
  rw [workThrough, Fault.bind_of_eq_ok got]
  simp only [found]

theorem workThrough_of_nothing {agenda : Agenda} (nothing : agenda.next? s = none) (budget : Nat) :
    workThrough budget agenda s = .ok () s := by
  cases budget with
  | zero => rfl
  | succ budget =>
    have got : (get : Step α (Session α)) s = .ok s s := rfl
    rw [workThrough, Fault.bind_of_eq_ok got]
    simp only [nothing]
    rfl

/-- Only the next elimination matters. -/
theorem workThrough_congr {agenda other : Agenda} (same : agenda.next? s = other.next? s) (budget : Nat) :
    workThrough budget agenda s = workThrough budget other s := by
  cases found : agenda.next? s with
  | none => rw [workThrough_of_nothing found, workThrough_of_nothing (same.symm.trans found)]
  | some next =>
    cases budget with
    | zero => rfl
    | succ budget => rw [workThrough_of_next found, workThrough_of_next (same.symm.trans found)]

variable [LawfulScalar α]

/-- Working through an agenda is taking turns, until nothing is waiting or a turn is stopped. -/
theorem workThrough_follows_turns {budget : Nat} (attends : s.Attends queues)
    (enough : s.program.extent ≤ budget) : ∃ n, ∃ rest : Queues Q, ∃ u, Session.Turns queues s n rest u ∧
      (turn rest u = .ok none u ∧ workThrough budget queues.agenda s = .ok () u ∨
        ∃ fault t, turn rest u = .error fault t ∧ workThrough budget queues.agenda s = .error fault t) := by
  -- By induction on the bound for the turns to come, each of which makes it smaller.
  induction bound : queues.agenda.potential s.program using Nat.strongRecOn generalizing queues s budget with
  | ind potential inductionHypothesis =>
    obtain ⟨nothing, empty⟩ | ⟨axis, k, rest, popped, gives⟩ := queues.pop?_cases
    · refine ⟨0, queues, s, .refl queues s, .inl ⟨turn_of_nothing nothing, ?_⟩⟩
      rw [empty, workThrough_of_nothing (Agenda.next?_nothing s)]
    · cases found : s.opportunity? axis k with
      | none =>
        have first := turn_of_skipped popped found
        obtain ⟨after, less⟩ := attends.turn first
        obtain ⟨n, last, u, turns, ended⟩ := inductionHypothesis _ (bound ▸ less) after enough rfl
        rw [workThrough_congr (gives.next?_of_none found)]
        exact ⟨n + 1, last, u, .turn first turns, ended⟩
      | some e =>
        have elimination := Session.opportunity_isElimination found
        cases budget with
        | zero =>
          have exhausted := Session.Exhausted.of_extent attends.counted (Nat.le_zero.1 enough)
          rw [exhausted.opportunity_eq_none] at found
          cases found
        | succ budget =>
          have taken := turn_of_found popped found
          rw [workThrough_of_next (gives.next?_of_some found), ← Queues.agenda_wake]
          cases reduced : reduce e.reduction e.ordinal s with
          | ok added t =>
            rw [Fault.bind_of_eq_ok (Fault.discard_of_eq_ok reduced)] at taken ⊢
            have performs := (reduce_ends attends.transposed _ _).done_of_eq_ok reduced
            have smaller := performs.extent_lt elimination attends.counted
            obtain ⟨after, less⟩ := attends.turn taken
            obtain ⟨n, last, u, turns, ended⟩ :=
              inductionHypothesis _ (bound ▸ less) after
                (Nat.le_of_lt_succ (Nat.lt_of_lt_of_le smaller enough)) rfl
            exact ⟨n + 1, last, u, .turn taken turns, ended⟩
          | error fault t =>
            rw [Fault.bind_of_eq_error (Fault.discard_of_eq_error reduced)] at taken ⊢
            exact ⟨0, queues, s, .refl queues s, .inr ⟨fault, t, taken, rfl⟩⟩

end Step

end LinearReduction
