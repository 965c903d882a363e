import LinearReduction.Proofs.Program.Building
import LinearReduction.Proofs.Recovery.Undone
import LinearReduction.Proofs.Session.Runs

/-!
# Solutions carried back

Undoing all records of a session. Main statements: primal and dual values are always recovered for every row
and column that was active at the start, statuses are recovered where they are possible, and a recovered
solution is complete exactly if every slot was occupied at the start.
-/

namespace LinearReduction

variable {α : Type} [Scalar α]

/-! ## Undoing all records -/

section

variable {settings : Settings α} {p q : Program α} {records : List (Record α)}
    {quantity : Quantity} {β : Type}

theorem Rewrites.foldlM_undo {undo : Known quantity β → Record α → Except (Fault α) (Known quantity β)}
    (back : Valuation β → Record α → Except (Fault α) (Valuation β))
    (step : ∀ {p q : Program α} {r : Record α}, Rewrite settings p r q → p.Transposed →
      ∀ {k : Known quantity β} {v w : Valuation β}, k.Agrees q v → back v r = .ok w →
        ∃ before, undo k r = .ok before ∧ before.Agrees p w)
    (rewrites : Rewrites settings p records q) (same : p.Transposed) {k : Known quantity β}
    {v w : Valuation β} (agrees : k.Agrees q v) (possible : records.foldlM back v = .ok w) :
    ∃ before, records.foldlM undo k = .ok before ∧ before.Agrees p w := by
  -- The latest record is the first one to be undone, and leaves what is known of the program before it.
  induction rewrites generalizing k v with
  | refl =>
    cases possible
    exact ⟨k, rfl, agrees⟩
  | @rewrite q u records r before rewrite inductionHypothesis =>
    rw [List.foldlM_cons] at possible
    cases undone : back v r with
    | error fault =>
      rw [undone] at possible
      cases possible
    | ok between =>
      rw [undone] at possible
      have transposed := before.preserves Rewrite.transposed same
      obtain ⟨known, first, agrees⟩ := step rewrite transposed agrees undone
      obtain ⟨last, rest, agrees⟩ := inductionHypothesis agrees possible
      refine ⟨last, ?_, agrees⟩
      rw [List.foldlM_cons, first]
      exact rest

theorem Rewrites.undoPrimal (rewrites : Rewrites settings p records q) (same : p.Transposed)
    {k : Known .primal α} {v : Valuation α} (agrees : k.Agrees q v) :
    ∃ before, records.foldlM Record.undoPrimal k = .ok before ∧
      before.Agrees p (records.foldl Record.primalBefore v) := by
  refine rewrites.foldlM_undo (fun v r => .ok (r.primalBefore v)) ?_ same agrees List.foldlM_pure
  intro p q r rewrite same k v w agrees possible
  cases possible
  exact rewrite.undoPrimal same agrees

theorem Rewrites.undoDual (rewrites : Rewrites settings p records q) (same : p.Transposed)
    {k : Known .dual α} {v : Valuation α} (agrees : k.Agrees q v) :
    ∃ before, records.foldlM Record.undoDual k = .ok before ∧
      before.Agrees p (records.foldl Record.dualBefore v) := by
  refine rewrites.foldlM_undo (fun v r => .ok (r.dualBefore v)) ?_ same agrees List.foldlM_pure
  intro p q r rewrite same k v w agrees possible
  cases possible
  exact rewrite.undoDual same agrees

theorem Rewrites.undoStatus (rewrites : Rewrites settings p records q) (same : p.Transposed)
    {k : Known .status Status} {v w : Valuation Status} (agrees : k.Agrees q v)
    (possible : records.foldlM Record.statusBefore v = .ok w) :
    ∃ before, records.foldlM Record.undoStatus k = .ok before ∧ before.Agrees p w :=
  rewrites.foldlM_undo Record.statusBefore Rewrite.undoStatus same agrees possible

end

/-! ## Complete quantities -/

namespace Known

variable {quantity : Quantity} {β : Type} {k : Known quantity β} {p : Program α} {v : Valuation β}

theorem exists_of_mapM_eq_ok {ε γ δ : Type} {f : γ → Except ε δ} {list : List γ} {results : List δ}
    (run : list.mapM f = .ok results) {x : γ} (listed : x ∈ list) : ∃ y, f x = .ok y := by
  induction list generalizing results with
  | nil => cases listed
  | cons first rest inductionHypothesis =>
    rw [List.mapM_cons] at run
    obtain ⟨value, head, run⟩ := exists_of_bind_eq_ok run
    obtain ⟨values, tail, _⟩ := exists_of_bind_eq_ok run
    rcases List.mem_cons.1 listed with rfl | later
    · exact ⟨value, head⟩
    · exact inductionHypothesis tail later

omit [Scalar α] in
theorem values_eq_ok (agrees : k.Agrees p v) (full : p.Full) :
    (k.values p.rows.size p.columns.size : Except (Fault α) (Sides β)) =
      .ok (v.sides p.rows.size p.columns.size) := by
  have rows : (List.range p.rows.size).mapM k.row =
      (.ok ((List.range p.rows.size).map v.rows) : Except (Fault α) _) :=
    mapM_eq_ok fun i inside => agrees.row (full.rows i (List.mem_range.1 inside))
  have columns : (List.range p.columns.size).mapM k.column =
      (.ok ((List.range p.columns.size).map v.columns) : Except (Fault α) _) :=
    mapM_eq_ok fun j inside => agrees.column (full.columns j (List.mem_range.1 inside))
  rw [values, rows, columns]
  rfl

omit [Scalar α] in
theorem row_eq_ok (agrees : k.Agrees p v) {i : Nat} (inside : i < p.rows.size) {value : β}
    (read : (k.row i : Except (Fault α) β) = .ok value) : p.rows.isActive i = true := by
  rw [row, agrees.rows.read i inside] at read
  split at read
  case isTrue active => exact active
  case isFalse => cases read

omit [Scalar α] in
theorem column_eq_ok (agrees : k.Agrees p v) {j : Nat} (inside : j < p.columns.size) {value : β}
    (read : (k.column j : Except (Fault α) β) = .ok value) : p.columns.isActive j = true := by
  rw [column, agrees.columns.read j inside] at read
  split at read
  case isTrue active => exact active
  case isFalse => cases read

omit [Scalar α] in
/-- Values are complete only where no slot is empty. -/
theorem full_of_values_eq_ok (agrees : k.Agrees p v) {sides : Sides β}
    (complete : (k.values p.rows.size p.columns.size : Except (Fault α) (Sides β)) = .ok sides) : p.Full := by
  obtain ⟨rows, rows_read, complete⟩ := exists_of_bind_eq_ok complete
  obtain ⟨columns, columns_read, _⟩ := exists_of_bind_eq_ok complete
  -- Every value was read, and of an empty slot there is none to read.
  refine ⟨fun i inside => ?_, fun j inside => ?_⟩
  · obtain ⟨value, read⟩ := exists_of_mapM_eq_ok rows_read (List.mem_range.2 inside)
    exact row_eq_ok agrees inside read
  · obtain ⟨value, read⟩ := exists_of_mapM_eq_ok columns_read (List.mem_range.2 inside)
    exact column_eq_ok agrees inside read

end Known

/-! ## Solutions of a session -/

omit [Scalar α] in
theorem Solution.fits_of_status {solution : Solution α} {status : Sides Status}
    (given : solution.status? = some status) : status.Fits solution.primal := by
  cases solution with
  | basic _ _ _ status_fits =>
    cases given
    exact status_fits
  | interiorPoint => cases given
  | integer => cases given

omit [Scalar α] in
theorem Solution.fits_of_dual {solution : Solution α} {dual : Sides α} (given : solution.dual? = some dual) :
    dual.Fits solution.primal := by
  cases solution with
  | basic _ _ _ _ dual_fits =>
    cases given
    exact dual_fits
  | interiorPoint _ _ dual_fits =>
    cases given
    exact dual_fits
  | integer => cases given

omit [Scalar α] in
theorem Solution.givesStatus_of_status {solution : Solution α} {status : Sides Status}
    (given : solution.status? = some status) : solution.kind.givesStatus = true := by
  cases solution with
  | basic => rfl
  | interiorPoint | integer => cases given

omit [Scalar α] in
theorem Solution.givesDual_of_dual {solution : Solution α} {dual : Sides α}
    (given : solution.dual? = some dual) : solution.kind.givesDual = true := by
  cases solution with
  | basic | interiorPoint => rfl
  | integer => cases given

namespace Session

/-- A session that led from a program to the one it has. -/
structure DescendsFrom (s : Session α) (p : Program α) : Prop where
  transposed : p.Transposed
  rowCount_eq : s.origin.rowCount = p.rows.size
  columnCount_eq : s.origin.columnCount = p.columns.size
  history : History s.settings p s.records s.program

/-- Sessions that are reached descend from the program at the start, in the form that minimizes. -/
theorem Reaches.descendsFrom [LawfulScalar α] {s start : Session α} {p : Program α} {settings : Settings α}
    (reaches : start.Reaches s) (begun : Session.begin p settings = .ok start) :
    s.DescendsFrom p.asMinimization := by
  obtain ⟨coherent, settings_eq, origin_eq, history⟩ := reaches.history begun
  refine ⟨coherent.transposed.asMinimization, ?_, ?_, settings_eq ▸ history⟩
  · rw [origin_eq, Program.rows_asMinimization, Program.origin]
  · rw [origin_eq, Program.size_columns_asMinimization, Program.origin]

/-- One quantity of the reduced program, by ordinals. -/
def spread {β : Type} (s : Session α) (otherwise : β) (reduced : Sides β) : Valuation β :=
  ⟨s.program.rows.spread otherwise reduced.rows, s.program.columns.spread otherwise reduced.columns⟩

/-- Primal values before all reductions. -/
def primalBefore (s : Session α) (reduced : Sides α) : Valuation α :=
  s.records.foldl Record.primalBefore (s.spread 0 reduced)

/-- Dual values before all reductions. -/
def dualBefore (s : Session α) (reduced : Sides α) : Valuation α :=
  s.records.foldl Record.dualBefore (s.spread 0 reduced)

variable {s : Session α} {p : Program α} {quantity : Quantity} {β γ : Type}

omit [Scalar α] in
theorem isMatchedBy_iff {reduced : Sides β} : s.isMatchedBy reduced = true ↔
    reduced.rows.length = s.program.rows.active.length ∧
    reduced.columns.length = s.program.columns.active.length := by
  simp [isMatchedBy]

omit [Scalar α] in
theorem isMatchedBy_of_fits {a : Sides β} {b : Sides γ} (fits : a.Fits b) (matched : s.isMatchedBy b = true) :
    s.isMatchedBy a = true := by
  obtain ⟨rows, columns⟩ := isMatchedBy_iff.1 matched
  exact isMatchedBy_iff.2 ⟨fits.1.trans rows, fits.2.trans columns⟩

omit [Scalar α] in
theorem isMatchedBy_primal_of_status {reduced : Solution α} {status : Sides Status}
    (given : reduced.status? = some status) (matched : s.isMatchedBy status = true) :
    s.isMatchedBy reduced.primal = true := by
  obtain ⟨rows, columns⟩ := Solution.fits_of_status given
  exact isMatchedBy_of_fits ⟨rows.symm, columns.symm⟩ matched

omit [Scalar α] in
theorem agrees_scatter {reduced : Sides β} (matched : s.isMatchedBy reduced = true) (otherwise : β) :
    ∃ known : Known quantity β, s.scatter reduced = .ok known ∧
    known.Agrees s.program (s.spread otherwise reduced) := by
  obtain ⟨rows, columns⟩ := isMatchedBy_iff.1 matched
  exact Known.agrees_seed rows columns otherwise

theorem unwind_primal (descends : s.DescendsFrom p) {reduced : Sides α}
    (matched : s.isMatchedBy reduced = true) : ∃ known, s.unwind Record.undoPrimal reduced = .ok known ∧
    known.Agrees p (s.primalBefore reduced) := by
  obtain ⟨seeded, spread, agrees⟩ := agrees_scatter matched 0
  obtain ⟨known, undone, agrees⟩ := descends.history.rewrites.undoPrimal descends.transposed agrees
  exact ⟨known, bind_eq_ok spread undone, agrees⟩

theorem unwind_dual (descends : s.DescendsFrom p) {reduced : Sides α}
    (matched : s.isMatchedBy reduced = true) : ∃ known, s.unwind Record.undoDual reduced = .ok known ∧
    known.Agrees p (s.dualBefore reduced) := by
  obtain ⟨seeded, spread, agrees⟩ := agrees_scatter matched 0
  obtain ⟨known, undone, agrees⟩ := descends.history.rewrites.undoDual descends.transposed agrees
  exact ⟨known, bind_eq_ok spread undone, agrees⟩

theorem unwind_status (descends : s.DescendsFrom p) {reduced : Sides Status} {w : Valuation Status}
    (matched : s.isMatchedBy reduced = true)
    (possible : s.records.foldlM Record.statusBefore (s.spread .basic reduced) = .ok w) :
    ∃ known, s.unwind Record.undoStatus reduced = .ok known ∧ known.Agrees p w := by
  obtain ⟨seeded, spread, agrees⟩ := agrees_scatter matched .basic
  obtain ⟨known, undone, agrees⟩ := descends.history.rewrites.undoStatus descends.transposed agrees possible
  exact ⟨known, bind_eq_ok spread undone, agrees⟩

theorem collect_eq_ok (descends : s.DescendsFrom p) (full : p.Full) {known : Known quantity β}
    {v : Valuation β} (agrees : known.Agrees p v) :
    s.collect known = .ok (v.sides p.rows.size p.columns.size) := by
  rw [collect, descends.rowCount_eq, descends.columnCount_eq]
  exact Known.values_eq_ok agrees full

theorem full_of_collect_eq_ok (descends : s.DescendsFrom p) {known : Known quantity β} {v : Valuation β}
    (agrees : known.Agrees p v) {sides : Sides β} (collected : s.collect known = .ok sides) : p.Full := by
  rw [collect, descends.rowCount_eq, descends.columnCount_eq] at collected
  exact Known.full_of_values_eq_ok agrees collected

/-- A solution is recovered if every slot was occupied at the start and its statuses are possible. -/
theorem undoAll_eq_ok (descends : s.DescendsFrom p) (full : p.Full) {reduced : Solution α}
    (matched : s.isMatchedBy reduced.primal = true)
    (possible : ∀ status, reduced.status? = some status →
      ∃ w, s.records.foldlM Record.statusBefore (s.spread .basic status) = .ok w) :
    ∃ undone, s.undoAll reduced = .ok undone := by
  obtain ⟨primalKnown, primal_undone, primal_agrees⟩ := unwind_primal descends matched
  -- Primal values are recovered for any kind of solution, dual values and statuses only where there are any.
  cases reduced with
  | basic status primal dual status_fits dual_fits =>
    obtain ⟨w, possible⟩ := possible status rfl
    obtain ⟨statusKnown, status_undone, status_agrees⟩ :=
      unwind_status descends (isMatchedBy_of_fits status_fits matched) possible
    obtain ⟨dualKnown, dual_undone, dual_agrees⟩ :=
      unwind_dual descends (isMatchedBy_of_fits dual_fits matched)
    change s.unwind Record.undoPrimal primal = .ok primalKnown at primal_undone
    simp only [undoAll, status_undone, primal_undone, dual_undone, collect_eq_ok descends full status_agrees,
      collect_eq_ok descends full primal_agrees, collect_eq_ok descends full dual_agrees, bind, Except.bind,
      Solution.ofBasic]
    rw [dif_pos ⟨Valuation.sides_fits .., Valuation.sides_fits ..⟩]
    exact ⟨_, rfl⟩
  | interiorPoint primal dual dual_fits =>
    obtain ⟨dualKnown, dual_undone, dual_agrees⟩ :=
      unwind_dual descends (isMatchedBy_of_fits dual_fits matched)
    change s.unwind Record.undoPrimal primal = .ok primalKnown at primal_undone
    simp only [undoAll, primal_undone, dual_undone, collect_eq_ok descends full primal_agrees,
      collect_eq_ok descends full dual_agrees, bind, Except.bind, Solution.ofInteriorPoint]
    rw [dif_pos (Valuation.sides_fits ..)]
    exact ⟨_, rfl⟩
  | integer primal =>
    change s.unwind Record.undoPrimal primal = .ok primalKnown at primal_undone
    simp only [undoAll, primal_undone, collect_eq_ok descends full primal_agrees, bind, Except.bind]
    exact ⟨_, rfl⟩

/-- What the records make of a quantity is complete only where no slot was empty at the start. -/
theorem sides_of_collected (descends : s.DescendsFrom p) {v : Valuation β}
    {unwound : Except (Fault α) (Known quantity β)} {sides : Sides β}
    (undone : ∃ known, unwound = .ok known ∧ known.Agrees p v)
    (carried : unwound >>= s.collect = .ok sides) : p.Full ∧ sides = v.sides p.rows.size p.columns.size := by
  obtain ⟨known, rfl, agrees⟩ := undone
  have full := full_of_collect_eq_ok descends agrees carried
  exact ⟨full, Except.ok.inj (carried.symm.trans (collect_eq_ok descends full agrees))⟩

/-- The dual values of a recovered solution, in the sense of the program at the start. -/
def signed (s : Session α) (dual : Sides α) : Sides α :=
  match s.origin.sense with
  | .minimize => dual
  | .maximize => dual.map (-·)

/-- The solution in the sense of the program at the start. -/
def inSense (s : Session α) (undone : Solution α) : Solution α :=
  match s.origin.sense with
  | .minimize => undone
  | .maximize => undone.withOppositeDual

@[simp] theorem primal_inSense (s : Session α) (undone : Solution α) :
    (s.inSense undone).primal = undone.primal := by
  unfold inSense
  split
  · rfl
  · cases undone <;> rfl

theorem dual?_inSense (s : Session α) (undone : Solution α) :
    (s.inSense undone).dual? = undone.dual?.map s.signed := by
  unfold inSense signed
  cases s.origin.sense <;> cases undone <;> rfl

theorem status?_inSense (s : Session α) (undone : Solution α) :
    (s.inSense undone).status? = undone.status? := by
  unfold inSense
  split
  · rfl
  · cases undone <;> rfl

end Session

end LinearReduction
