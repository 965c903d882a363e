import LinearReduction.Proofs.Recovery.Unwound

/-!
# Replayed records

One pass over the records that deals with all quantities at once does the same as one pass for each quantity.
What a record reads of one quantity is never something that it, or a record before it, wrote of another one.
Main statements: replaying all records recovers each quantity on its own, and a session that descends from a
program recovers a solution in one pass as it does in three, or fails for the same reason.
-/

namespace LinearReduction

variable {α : Type} [Scalar α]

/-- Undo a record in a quantity, if there is such a quantity. -/
def Known.undoIf {quantity : Quantity} {β : Type} (present : Bool)
    (undo : Known quantity β → Record α → Except (Fault α) (Known quantity β)) (known : Known quantity β)
    (r : Record α) : Except (Fault α) (Known quantity β) :=
  if present then undo known r else pure known

namespace Workspace

variable {w u : Workspace α} {records : List (Record α)}

/-! ## One record -/

omit [Scalar α] in
@[simp] theorem expect_true (quantity : Quantity) :
    expect quantity true = (pure () : Except (Fault α) Unit) := rfl

theorem addToRowPrimal_eq (w : Workspace α) (i : Nat) (amount : α) : w.addToRowPrimal i amount = do
    let primal ← w.primal.addToRow i amount
    return { w with primal := primal } := by
  simp only [addToRowPrimal, setRowPrimal, Known.addToRow, bind_assoc]

theorem addToActivities_eq (w : Workspace α) (entries : Entries α) (value : α) :
    w.addToActivities entries value = do
    let primal ← w.primal.addActivities entries value
    return { w with primal := primal } := by
  induction entries generalizing w with
  | nil => rfl
  | cons first rest inductionHypothesis =>
    simp only [addToActivities, Known.addActivities, List.foldlM_cons, bind_assoc] at inductionHypothesis ⊢
    rw [addToRowPrimal_eq]
    simp only [bind_assoc, pure_bind, inductionHypothesis]

/-- A record is undone in each quantity on its own. -/
theorem replay_eq (w : Workspace α) (r : Record α) : w.replay r = do
    let status ← Known.undoIf w.kind.givesStatus Record.undoStatus w.status r
    let primal ← Record.undoPrimal w.primal r
    let dual ← Known.undoIf w.kind.givesDual Record.undoDual w.dual r
    return { w with status := status, primal := primal, dual := dual } := by
  obtain ⟨kind, status, primal, dual⟩ := w
  unfold Known.undoIf
  -- Both sides read and write the same, in the same order, once it is known which quantities there are.
  cases r with
  | dropFreeRow i entries =>
    cases kind <;> simp [replay, Record.undoStatus, Record.undoPrimal, Record.undoDual, Kind.givesStatus,
      Kind.givesDual, setRowStatus, setRowPrimal, setRowDual, columnPrimal]
  | addSurplus i j | addSlack i j =>
    cases kind <;> simp [replay, Record.undoStatus, Record.undoPrimal, Record.undoDual, Kind.givesStatus,
      Kind.givesDual, setRowStatus, addToRowPrimal_eq, setRowDual, columnStatus, columnPrimal, columnDual]
  | splitFree j k =>
    cases kind <;> simp [replay, Record.undoStatus, Record.undoPrimal, Record.undoDual, Kind.givesStatus,
      Kind.givesDual, setColumnStatus, setColumnPrimal, setColumnDual, columnStatus, columnPrimal]
  | shiftLower j bound entries =>
    cases kind <;> simp [replay, Record.undoStatus, Record.undoPrimal, Record.undoDual, Kind.givesStatus,
      Kind.givesDual, setColumnPrimal, addToActivities_eq, columnPrimal]
  | flipUpper j bound entries =>
    cases kind <;> simp [replay, Record.undoStatus, Record.undoPrimal, Record.undoDual, Kind.givesStatus,
      Kind.givesDual, setColumnStatus, setColumnPrimal, addToActivities_eq, setColumnDual,
      columnStatus, columnPrimal, columnDual]
  | splitUpper j k _ _ =>
    cases kind <;> simp [replay, Record.undoStatus, Record.undoPrimal, Record.undoDual, Kind.givesStatus,
      Kind.givesDual, setColumnStatus, setColumnDual, columnStatus, columnDual]
  | substituteFixed j value cost entries =>
    cases kind <;> simp [replay, Record.undoStatus, Record.undoPrimal, Record.undoDual, Kind.givesStatus,
      Kind.givesDual, setColumnStatus, setColumnPrimal, addToActivities_eq, setColumnDual, rowDual]
  | dropEmptyRow i =>
    cases kind <;> simp [replay, Record.undoStatus, Record.undoPrimal, Record.undoDual, Kind.givesStatus,
      Kind.givesDual, setRowStatus, setRowPrimal, setRowDual]
  | settleEmpty j _ status =>
    cases kind <;> simp [replay, Record.undoStatus, Record.undoPrimal, Record.undoDual, Kind.givesStatus,
      Kind.givesDual, setColumnStatus]
  | settleSingleton i j coefficient _ =>
    cases kind with
    | basic =>
      simp only [replay, Record.undoStatus, Record.undoPrimal, Record.undoDual, Kind.givesStatus,
        Kind.givesDual, if_true, columnStatus, expect_true, bind_assoc, pure_bind]
      refine bind_congr fun read => ?_
      -- A status other than the one that the column was left with stops both.
      by_cases fixed : read = .fixed
      · simp [fixed, setColumnStatus, setRowStatus, setRowPrimal, setRowDual, setColumnDual,
          columnPrimal, columnDual, Kind.givesStatus, Kind.givesDual]
      · simp only [if_neg fixed, bind_assoc]
        rfl
    | interiorPoint | integer =>
      simp [replay, Record.undoPrimal, Record.undoDual, Kind.givesStatus, Kind.givesDual,
        setRowPrimal, setRowDual, setColumnDual, columnPrimal, columnDual]

/-! ## All records -/

/-- All records are undone in each quantity on its own. -/
theorem replayAll_eq_ok (run : records.foldlM replay w = .ok u) : u.kind = w.kind ∧
    records.foldlM (Known.undoIf w.kind.givesStatus Record.undoStatus) w.status = .ok u.status ∧
    records.foldlM Record.undoPrimal w.primal = .ok u.primal ∧
    records.foldlM (Known.undoIf w.kind.givesDual Record.undoDual) w.dual = .ok u.dual := by
  induction records generalizing w with
  | nil =>
    cases run
    exact ⟨rfl, rfl, rfl, rfl⟩
  | cons r rest inductionHypothesis =>
    rw [List.foldlM_cons, replay_eq] at run
    obtain ⟨between, first, run⟩ := exists_of_bind_eq_ok run
    obtain ⟨status, status_undone, first⟩ := exists_of_bind_eq_ok first
    obtain ⟨primal, primal_undone, first⟩ := exists_of_bind_eq_ok first
    obtain ⟨dual, dual_undone, first⟩ := exists_of_bind_eq_ok first
    cases first
    obtain ⟨kind_eq, status_rest, primal_rest, dual_rest⟩ := inductionHypothesis run
    refine ⟨kind_eq, ?_, ?_, ?_⟩
    · rw [List.foldlM_cons, status_undone]
      exact status_rest
    · rw [List.foldlM_cons, primal_undone]
      exact primal_rest
    · rw [List.foldlM_cons, dual_undone]
      exact dual_rest

/-- Where primal and dual values are recovered, only statuses can still be a reason to fail. -/
theorem replayAll_of_ok {primal : Known .primal α} {dual : Known .dual α}
    (primal_undone : records.foldlM Record.undoPrimal w.primal = .ok primal)
    (dual_undone : records.foldlM (Known.undoIf w.kind.givesDual Record.undoDual) w.dual = .ok dual) :
    records.foldlM replay w = do
      let status ← records.foldlM (Known.undoIf w.kind.givesStatus Record.undoStatus) w.status
      return ⟨w.kind, status, primal, dual⟩ := by
  induction records generalizing w with
  | nil =>
    cases primal_undone
    cases dual_undone
    rfl
  | cons r rest inductionHypothesis =>
    rw [List.foldlM_cons] at primal_undone dual_undone
    obtain ⟨primal_between, primal_first, primal_undone⟩ := exists_of_bind_eq_ok primal_undone
    obtain ⟨dual_between, dual_first, dual_undone⟩ := exists_of_bind_eq_ok dual_undone
    rw [List.foldlM_cons, List.foldlM_cons, replay_eq, primal_first, dual_first]
    cases Known.undoIf w.kind.givesStatus Record.undoStatus w.status r with
    | error fault => rfl
    | ok status => exact inductionHypothesis primal_undone dual_undone

omit [Scalar α] in
/-- A solution consists of the quantities that its kind has. -/
theorem toSolution_eq_ok {rowCount columnCount : Nat} {solution : Solution α}
    (run : w.toSolution rowCount columnCount = .ok solution) :
    w.primal.values rowCount columnCount = (.ok solution.primal : Except (Fault α) _) ∧
    (w.kind.givesStatus = true → ∃ status, solution.status? = some status ∧
      w.status.values rowCount columnCount = (.ok status : Except (Fault α) _)) ∧
    (w.kind.givesDual = true → ∃ dual, solution.dual? = some dual ∧
      w.dual.values rowCount columnCount = (.ok dual : Except (Fault α) _)) := by
  obtain ⟨kind, status, primal, dual⟩ := w
  obtain ⟨primalSides, primal_known, run⟩ := exists_of_bind_eq_ok run
  cases kind with
  | basic =>
    obtain ⟨statusSides, status_known, run⟩ := exists_of_bind_eq_ok run
    obtain ⟨dualSides, dual_known, run⟩ := exists_of_bind_eq_ok run
    unfold Solution.ofBasic at run
    split at run
    case isTrue fits =>
      cases run
      exact ⟨primal_known, fun _ => ⟨_, rfl, status_known⟩, fun _ => ⟨_, rfl, dual_known⟩⟩
    case isFalse => cases run
  | interiorPoint =>
    obtain ⟨dualSides, dual_known, run⟩ := exists_of_bind_eq_ok run
    unfold Solution.ofInteriorPoint at run
    split at run
    case isTrue fits =>
      cases run
      exact ⟨primal_known, (absurd · Bool.false_ne_true), fun _ => ⟨_, rfl, dual_known⟩⟩
    case isFalse => cases run
  | integer =>
    cases run
    exact ⟨primal_known, (absurd · Bool.false_ne_true), (absurd · Bool.false_ne_true)⟩

end Workspace

namespace Session

variable {s : Session α} {p : Program α} {reduced undone : Solution α} {x : Recovered α}

/-! ## Solutions copied in -/

omit [Scalar α] in
theorem isMatchedBy_eq_false_iff {β : Type} {reduced : Sides β} : s.isMatchedBy reduced = false ↔
    reduced.rows.length ≠ s.program.rows.ordinals.length ∨
      reduced.columns.length ≠ s.program.columns.ordinals.length := by
  rw [← Bool.not_eq_true, isMatchedBy_iff, Slots.length_ordinals, Slots.length_ordinals]
  exact Decidable.not_and_iff_or_not

omit [Scalar α] in
/-- Each quantity that a solution has is copied in on its own. -/
theorem seed_of_matched (matched : s.isMatchedBy reduced.primal = true) : s.seed reduced = do
    let primal ← s.scatter reduced.primal
    let status ← reduced.status?.elim (pure (.unknown s.program.rows.size s.program.columns.size)) s.scatter
    let dual ← reduced.dual?.elim (pure (.unknown s.program.rows.size s.program.columns.size)) s.scatter
    return ⟨reduced.kind, status, primal, dual⟩ := by
  obtain ⟨rows, columns⟩ := isMatchedBy_iff.1 matched
  rw [← Slots.length_ordinals] at rows columns
  cases reduced <;>
    simp [seed, Workspace.seed, Workspace.unknown, Workspace.given, scatter, rows, columns, Solution.kind,
      Solution.status?, Solution.dual?, Kind.givesStatus, Kind.givesDual]

omit [Scalar α] in
theorem seed_of_unmatched (unmatched : s.isMatchedBy reduced.primal = false) :
    s.seed reduced = .error (.refused .sizeMismatch) := by
  rw [seed, Workspace.seed, Workspace.unknown, if_pos rfl]
  rcases isMatchedBy_eq_false_iff.1 unmatched with rows | columns
  · rw [if_neg rows]
    rfl
  · rw [if_neg columns]
    split <;> rfl

/-- What is undone is what the records make of each quantity on its own. -/
theorem replay_eq_ok (run : s.replay reduced = .ok undone) : s.isMatchedBy reduced.primal = true ∧
    s.unwind Record.undoPrimal reduced.primal >>= s.collect = .ok undone.primal ∧
    (∀ sides, reduced.dual? = some sides → ∃ dual, undone.dual? = some dual ∧
      s.unwind Record.undoDual sides >>= s.collect = .ok dual) ∧
    ∀ sides, reduced.status? = some sides → ∃ status, undone.status? = some status ∧
      s.unwind Record.undoStatus sides >>= s.collect = .ok status := by
  obtain ⟨start, seeded, run⟩ := exists_of_bind_eq_ok run
  obtain ⟨w, together, solved⟩ := exists_of_bind_eq_ok run
  cases matched : s.isMatchedBy reduced.primal with
  | false => cases (seed_of_unmatched matched).symm.trans seeded
  | true =>
    rw [seed_of_matched matched] at seeded
    obtain ⟨primal, primal_placed, seeded⟩ := exists_of_bind_eq_ok seeded
    obtain ⟨status, status_placed, seeded⟩ := exists_of_bind_eq_ok seeded
    obtain ⟨dual, dual_placed, seeded⟩ := exists_of_bind_eq_ok seeded
    cases seeded
    obtain ⟨kind_eq, status_undone, primal_undone, dual_undone⟩ := Workspace.replayAll_eq_ok together
    obtain ⟨primal_known, status_known, dual_known⟩ := Workspace.toSolution_eq_ok solved
    rw [kind_eq] at status_known dual_known
    refine ⟨rfl, bind_eq_ok (bind_eq_ok primal_placed primal_undone) primal_known, fun sides given => ?_,
      fun sides given => ?_⟩
    · have gives := Solution.givesDual_of_dual given
      rw [given] at dual_placed
      simp only [gives] at dual_undone
      obtain ⟨recovered, has_dual, collected⟩ := dual_known gives
      exact ⟨recovered, has_dual, bind_eq_ok (bind_eq_ok dual_placed dual_undone) collected⟩
    · have gives := Solution.givesStatus_of_status given
      rw [given] at status_placed
      simp only [gives] at status_undone
      obtain ⟨recovered, has_status, collected⟩ := status_known gives
      exact ⟨recovered, has_status, bind_eq_ok (bind_eq_ok status_placed status_undone) collected⟩

/-! ## One pass and three passes -/

omit [Scalar α] in
theorem foldlM_undoIf_false {quantity : Quantity} {β : Type} (records : List (Record α))
    (undo : Known quantity β → Record α → Except (Fault α) (Known quantity β)) (known : Known quantity β) :
    records.foldlM (Known.undoIf false undo) known = .ok known := by
  induction records with
  | nil => rfl
  | cons r rest inductionHypothesis => exact inductionHypothesis

omit [Scalar α] in
theorem scatter_optional (quantity : Quantity) {β : Type} {sides? : Option (Sides β)} (otherwise : β)
    (matched : ∀ sides, sides? = some sides → s.isMatchedBy sides = true) : ∃ known : Known quantity β,
      sides?.elim (pure (.unknown s.program.rows.size s.program.columns.size)) s.scatter = .ok known := by
  cases sides? with
  | none => exact ⟨_, rfl⟩
  | some sides =>
    obtain ⟨known, placed, _⟩ := agrees_scatter (matched sides rfl) otherwise
    exact ⟨known, placed⟩

/-- Primal and dual values are always undone, so that only statuses can be a reason to fail. -/
theorem replayAll_seed (descends : s.DescendsFrom p) (matched : s.isMatchedBy reduced.primal = true) :
    ∃ w primal dual, s.seed reduced = .ok w ∧ s.unwind Record.undoPrimal reduced.primal = .ok primal ∧
      (∀ sides, reduced.dual? = some sides → s.unwind Record.undoDual sides = .ok dual) ∧
      (∀ sides, reduced.status? = some sides →
        s.unwind Record.undoStatus sides = s.records.foldlM Record.undoStatus w.status) ∧
      s.records.foldlM Workspace.replay w = do
        let status ← s.records.foldlM (Known.undoIf reduced.kind.givesStatus Record.undoStatus) w.status
        return ⟨reduced.kind, status, primal, dual⟩ := by
  obtain ⟨primal, primal_unwound, _⟩ := unwind_primal descends matched
  obtain ⟨primal_start, primal_placed, primal_undone⟩ := exists_of_bind_eq_ok primal_unwound
  obtain ⟨status_start, status_placed⟩ := scatter_optional (s := s) .status .basic
    fun _ given => isMatchedBy_of_fits (Solution.fits_of_status given) matched
  obtain ⟨dual_start, dual_placed⟩ := scatter_optional (s := s) .dual 0
    fun _ given => isMatchedBy_of_fits (Solution.fits_of_dual given) matched
  have seeded : s.seed reduced = .ok ⟨reduced.kind, status_start, primal_start, dual_start⟩ := by
    rw [seed_of_matched matched, primal_placed, status_placed, dual_placed]
    rfl
  have dual_unwound : ∃ dual, (∀ sides, reduced.dual? = some sides →
      s.unwind Record.undoDual sides = .ok dual) ∧
      s.records.foldlM (Known.undoIf reduced.kind.givesDual Record.undoDual) dual_start = .ok dual := by
    cases reduced with
    | basic _ _ sides _ dual_fits | interiorPoint _ sides dual_fits =>
      obtain ⟨dual, unwound, _⟩ := unwind_dual descends (isMatchedBy_of_fits dual_fits matched)
      refine ⟨dual, fun _ same => Option.some.inj same ▸ unwound, ?_⟩
      rw [unwind, show s.scatter sides = .ok dual_start from dual_placed] at unwound
      exact unwound
    | integer => exact ⟨dual_start, nofun, foldlM_undoIf_false ..⟩
  obtain ⟨dual, dual_unwound, dual_undone⟩ := dual_unwound
  refine ⟨_, primal, dual, seeded, primal_unwound, dual_unwound, fun sides given => ?_,
    Workspace.replayAll_of_ok primal_undone dual_undone⟩
  rw [given] at status_placed
  rw [unwind, show s.scatter sides = .ok status_start from status_placed]
  rfl

/-- One pass over the records does the same as one pass for each quantity. -/
theorem replay_eq_undoAll (descends : s.DescendsFrom p) (matched : s.isMatchedBy reduced.primal = true) :
    s.replay reduced = s.undoAll reduced := by
  obtain ⟨w, primal, dual, seeded, primal_unwound, dual_unwound, status_unwound, together⟩ :=
    replayAll_seed descends matched
  have replayed : s.replay reduced = s.records.foldlM Workspace.replay w >>= fun u =>
      u.toSolution s.origin.rowCount s.origin.columnCount := by
    rw [replay, seeded]
    rfl
  rw [replayed, together]
  cases reduced with
  | basic status primalSides dualSides status_fits dual_fits =>
    change s.unwind Record.undoPrimal primalSides = .ok primal at primal_unwound
    simp only [undoAll, status_unwound status rfl, primal_unwound, dual_unwound dualSides rfl,
      bind_assoc, pure_bind]
    rfl
  | interiorPoint primalSides dualSides dual_fits =>
    change s.unwind Record.undoPrimal primalSides = .ok primal at primal_unwound
    simp only [undoAll, primal_unwound, dual_unwound dualSides rfl, Solution.kind, Kind.givesStatus,
      foldlM_undoIf_false]
    rfl
  | integer primalSides =>
    change s.unwind Record.undoPrimal primalSides = .ok primal at primal_unwound
    simp only [undoAll, primal_unwound, Solution.kind, Kind.givesStatus, foldlM_undoIf_false]
    rfl

/-! ## Recovered solutions -/

theorem recover_eq_map (s : Session α) (reduced : Solution α) :
    s.recover reduced = (s.replay reduced).map fun undone =>
    ⟨s.inSense undone, s.origin.objective (s.inSense undone).primal.columns⟩ := by
  rw [recover]
  cases s.replay reduced <;> rfl

/-- A solution is recovered in one pass over the records as it is in one pass for each quantity. -/
theorem recover_eq_recoverApart (descends : s.DescendsFrom p) (reduced : Solution α) :
    s.recover reduced = s.recoverApart reduced := by
  rw [recover_eq_map, recoverApart]
  cases matched : s.isMatchedBy reduced.primal with
  | false =>
    rw [replay, seed_of_unmatched matched]
    rfl
  | true =>
    rw [replay_eq_undoAll descends matched]
    cases s.undoAll reduced <;> rfl

theorem recover_eq_ok_iff : s.recover reduced = .ok x ↔ ∃ undone, s.replay reduced = .ok undone ∧
    x = ⟨s.inSense undone, s.origin.objective (s.inSense undone).primal.columns⟩ := by
  rw [recover_eq_map]
  cases s.replay reduced with
  | error fault => simp [Except.map]
  | ok undone => simp [Except.map, eq_comm]

theorem recover_eq_ok (descends : s.DescendsFrom p) (full : p.Full)
    (matched : s.isMatchedBy reduced.primal = true) (possible : ∀ status, reduced.status? = some status →
      ∃ w, s.records.foldlM Record.statusBefore (s.spread .basic status) = .ok w) :
    ∃ recovered, s.recover reduced = .ok recovered := by
  obtain ⟨undone, run⟩ := undoAll_eq_ok descends full matched possible
  exact ⟨_, recover_eq_ok_iff.2 ⟨undone, (replay_eq_undoAll descends matched).trans run, rfl⟩⟩

/-- A solution that is recovered consists of the values before all reductions. -/
theorem recover_eq_ok_sides (descends : s.DescendsFrom p) (run : s.recover reduced = .ok x) :
    s.isMatchedBy reduced.primal = true ∧ p.Full ∧
      x.solution.primal = (s.primalBefore reduced.primal).sides p.rows.size p.columns.size ∧
      ∀ dual, reduced.dual? = some dual →
        x.solution.dual? = some (s.signed ((s.dualBefore dual).sides p.rows.size p.columns.size)) := by
  obtain ⟨undone, undone_run, rfl⟩ := recover_eq_ok_iff.1 run
  obtain ⟨matched, primal_carried, dual_carried, _⟩ := replay_eq_ok undone_run
  obtain ⟨full, primal_eq⟩ := sides_of_collected descends (unwind_primal descends matched) primal_carried
  refine ⟨matched, full, (primal_inSense s undone).trans primal_eq, fun dual given => ?_⟩
  obtain ⟨recovered, has_dual, dual_carried⟩ := dual_carried dual given
  have dual_matched := isMatchedBy_of_fits (Solution.fits_of_dual given) matched
  obtain ⟨_, rfl⟩ := sides_of_collected descends (unwind_dual descends dual_matched) dual_carried
  rw [dual?_inSense, has_dual, Option.map_some]

theorem recover_eq_ok_status (descends : s.DescendsFrom p) {status : Sides Status} {w : Valuation Status}
    (given : reduced.status? = some status)
    (possible : s.records.foldlM Record.statusBefore (s.spread .basic status) = .ok w)
    (run : s.recover reduced = .ok x) : x.solution.status? = some (w.sides p.rows.size p.columns.size) := by
  obtain ⟨undone, undone_run, rfl⟩ := recover_eq_ok_iff.1 run
  obtain ⟨matched, _, _, status_carried⟩ := replay_eq_ok undone_run
  obtain ⟨recovered, has_status, status_carried⟩ := status_carried status given
  have status_matched := isMatchedBy_of_fits (Solution.fits_of_status given) matched
  obtain ⟨_, rfl⟩ :=
    sides_of_collected descends (unwind_status descends status_matched possible) status_carried
  rw [status?_inSense, has_status]

/-- The reported cost is that of the values that are recovered, at the costs from the start. -/
theorem recover_eq_ok_objective (run : s.recover reduced = .ok x) :
    x.objective = s.origin.objective x.solution.primal.columns := by
  obtain ⟨undone, _, rfl⟩ := recover_eq_ok_iff.1 run
  rfl

end Session

end LinearReduction
