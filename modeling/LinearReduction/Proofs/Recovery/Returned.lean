import LinearReduction.Proofs.Recovery.Possible
import LinearReduction.Proofs.Session.Restriction

/-!
# What recovery returns as it was given

Undoing an elimination gives values to the row and column that were eliminated. So whatever is left of a
program in the end is returned as it was given, apart from the activities of rows, to which eliminated columns
contribute. Main statement: `Session.Eliminates.returns`.
-/

namespace LinearReduction

variable {α : Type} [Scalar α]

/-! ## Solutions with given values -/

namespace Session

/-- Values for the program at the start that are the given ones wherever something is left of it. -/
structure Extends {β : Type} (s : Session α) (given whole : Sides β) : Prop where
  rows : ∀ {k i : Nat}, s.program.rows.ordinals[k]? = some i → whole.rows[i]? = given.rows[k]?
  columns : ∀ {k j : Nat}, s.program.columns.ordinals[k]? = some j → whole.columns[j]? = given.columns[k]?

/-- A solution for the program at the start that has what is given wherever something is left of it.
    Activities of rows may differ, and dual values are in the sense of that program. -/
structure Returns (s : Session α) (given whole : Solution α) : Prop where
  primal : ∀ {k j : Nat}, s.program.columns.ordinals[k]? = some j →
    whole.primal.columns[j]? = given.primal.columns[k]?
  dual : ∀ dual, given.dual? = some dual → ∃ dual', whole.dual? = some dual' ∧ s.Extends (s.signed dual) dual'
  status : ∀ status, given.status? = some status → ∃ status', whole.status? = some status' ∧
    s.Extends status status'

theorem Extends.signed {s : Session α} {given whole : Sides α} (extends_given : s.Extends given whole) :
    s.Extends (s.signed given) (s.signed whole) := by
  unfold Session.signed
  cases s.origin.sense with
  | minimize => exact extends_given
  | maximize =>
    refine ⟨fun ordinal => ?_, fun ordinal => ?_⟩
    · simp only [Sides.map, List.getElem?_map, extends_given.rows ordinal]
    · simp only [Sides.map, List.getElem?_map, extends_given.columns ordinal]

end Session

omit [Scalar α] in
/-- Values that agree with those that were spread over the occupied slots are found at the ordinals. -/
theorem Slots.getElem?_of_ordinal {β γ : Type} {s : Slots γ} {values : List β} {otherwise : β} {f : Nat → β}
    {n k i : Nat} (fits : values.length = s.active.length) (inside : s.size ≤ n)
    (agrees : s.isActive i = true → f i = s.spread otherwise values i) (ordinal : s.ordinals[k]? = some i) :
    ((List.range n).map f)[i]? = values[k]? := by
  have active : s.isActive i = true := mem_ordinals.1 (List.mem_of_getElem? ordinal)
  obtain ⟨entry, found⟩ := exists_of_getElem?_ordinals ordinal
  have listed : k < values.length := fits ▸ (List.getElem?_eq_some_iff.1 found).1
  have given : values[k]? = some values[k] := List.getElem?_eq_getElem listed
  have room := Nat.lt_of_lt_of_le (lt_size_of_isActive active) inside
  rw [given, List.getElem?_map, List.getElem?_range room, Option.map_some, agrees active,
    spread_eq fits found given]

omit [Scalar α] in
/-- Values for the program at the start extend the given ones if they agree with them wherever something is
    left. -/
theorem Session.extends_sides {β : Type} {s : Session α} {p : Program α} {given : Sides β} {otherwise : β}
    {v : Valuation β} (narrows : p.NarrowsTo s.program) (matched : s.isMatchedBy given = true)
    (rows : ∀ i, s.program.rows.isActive i = true → v.rows i = (s.spread otherwise given).rows i)
    (columns : ∀ j, s.program.columns.isActive j = true →
      v.columns j = (s.spread otherwise given).columns j) :
    s.Extends given (v.sides p.rows.size p.columns.size) := by
  obtain ⟨row_count, column_count⟩ := isMatchedBy_iff.1 matched
  refine ⟨fun ordinal => ?_, fun ordinal => ?_⟩
  · exact Slots.getElem?_of_ordinal row_count (Nat.le_of_eq narrows.rows_size) (rows _) ordinal
  · exact Slots.getElem?_of_ordinal column_count (Nat.le_of_eq narrows.columns_size) (columns _) ordinal

/-! ## Records of what is gone -/

/-- A record of a row or column that a program doesn't have. -/
structure Record.GoneFrom (r : Record α) (p : Program α) : Prop where
  row : ∀ {i}, r.ownRow? = some i → p.rows.isActive i = false
  column : ∀ {j}, r.ownColumn? = some j → p.columns.isActive j = false

section

variable {settings : Settings α} {p q u : Program α} {r : Record α} {records : List (Record α)}
    {v : Valuation α}
  {i j : Nat}

namespace Record.GoneFrom

omit [Scalar α] in
theorem of_narrows (gone : r.GoneFrom p) (narrows : p.NarrowsTo q) : r.GoneFrom q where
  row own := by
    rw [Bool.eq_false_iff]
    exact fun active => Bool.eq_false_iff.1 (gone.row own) (narrows.rows_isActive _ active)
  column own := by
    rw [Bool.eq_false_iff]
    exact fun active => Bool.eq_false_iff.1 (gone.column own) (narrows.columns_isActive _ active)

omit [Scalar α] in
theorem ownRow_ne (gone : r.GoneFrom p) (active : p.rows.isActive i = true) : r.ownRow? ≠ some i :=
  fun own => Bool.eq_false_iff.1 (gone.row own) active

omit [Scalar α] in
theorem ownColumn_ne (gone : r.GoneFrom p) (active : p.columns.isActive j = true) : r.ownColumn? ≠ some j :=
  fun own => Bool.eq_false_iff.1 (gone.column own) active

end Record.GoneFrom

section

variable (gone : ∀ r ∈ records, r.GoneFrom p)
include gone

theorem Record.columns_foldl_primalBefore (active : p.columns.isActive j = true) :
    (records.foldl primalBefore v).columns j = v.columns j := by
  refine List.foldlRecOn records primalBefore (motive := fun w => w.columns j = v.columns j) rfl ?_
  exact fun w kept r listed => (columns_primalBefore ((gone r listed).ownColumn_ne active)).trans kept

theorem Record.rows_foldl_dualBefore (active : p.rows.isActive i = true) :
    (records.foldl dualBefore v).rows i = v.rows i := by
  refine List.foldlRecOn records dualBefore (motive := fun w => w.rows i = v.rows i) rfl ?_
  exact fun w kept r listed => (rows_dualBefore ((gone r listed).ownRow_ne active)).trans kept

theorem Record.columns_foldl_dualBefore (active : p.columns.isActive j = true) :
    (records.foldl dualBefore v).columns j = v.columns j := by
  refine List.foldlRecOn records dualBefore (motive := fun w => w.columns j = v.columns j) rfl ?_
  exact fun w kept r listed => (columns_dualBefore ((gone r listed).ownColumn_ne active)).trans kept

omit [Scalar α] in
theorem Record.foldlM_statusBefore {v w : Valuation Status}
    (possible : records.foldlM statusBefore v = .ok w) :
    (∀ i, p.rows.isActive i = true → w.rows i = v.rows i) ∧
      ∀ j, p.columns.isActive j = true → w.columns j = v.columns j := by
  induction records generalizing v with
  | nil =>
    cases possible
    exact ⟨fun _ _ => rfl, fun _ _ => rfl⟩
  | cons r rest inductionHypothesis =>
    rw [List.foldlM_cons] at possible
    obtain ⟨between, undone, possible⟩ := exists_of_bind_eq_ok possible
    obtain ⟨rows, columns⟩ :=
      inductionHypothesis (fun r later => gone r (List.mem_cons_of_mem _ later)) possible
    have own := gone r List.mem_cons_self
    refine ⟨fun i active => (rows i active).trans ?_, fun j active => (columns j active).trans ?_⟩
    · exact statusBefore_rows undone (own.ownRow_ne active)
    · exact statusBefore_columns undone (restated?_ne (own.ownColumn_ne active))

end

/-! ## Eliminations -/

theorem Program.isActive_columns_substituted {column : Column α} :
    (p.substituted j column).columns.isActive j = false := by
  rw [Slots.isActive, columns_substituted, if_pos rfl]
  rfl

omit [Scalar α] in
theorem Program.isActive_rows_withoutRow : (p.withoutRow i).rows.isActive i = false := by
  rw [Slots.isActive, rows_withoutRow, if_pos rfl]
  rfl

/-- What is eliminated by a single record is gone. -/
theorem Rewrite.goneFrom (rewrite : Rewrite settings p r q) (elimination : r.reduction.isElimination = true)
    (unsettled : r.settled? = none) : r.GoneFrom q := by
  cases rewrite with
  | dropFreeRow | dropEmptyRow =>
    refine ⟨fun own => ?_, nofun⟩
    cases own
    exact Program.isActive_rows_withoutRow
  | substituteFixed =>
    refine ⟨nofun, fun own => ?_⟩
    cases own
    exact Program.isActive_columns_substituted
  | settleEmpty | settleSingleton => cases unsettled
  | _ => cases elimination

/-- A row that settled a column is gone at once, and the column is gone after the next record. -/
theorem Rewrite.goneFrom_of_settled (rewrite : Rewrite settings p r q) (settles : r.settled? = some j)
    (narrows : q.NarrowsTo u) (removed : u.columns.isActive j = false) : r.GoneFrom u := by
  cases rewrite with
  | settleEmpty =>
    refine ⟨nofun, fun own => ?_⟩
    cases settles
    cases own
    exact removed
  | @settleSingleton i =>
    refine ⟨fun own => ?_, fun own => ?_⟩
    · cases own
      rw [Bool.eq_false_iff]
      intro active
      have before := narrows.rows_isActive i active
      rw [Slots.isActive, Program.rows_settledBy, if_pos rfl] at before
      cases before
    · cases settles
      cases own
      exact removed
  | _ => cases settles

section

variable {news : List (Record α)} {first : Record α}

theorem Move.goneFrom (move : Move settings p news q) (last : news.getLast? = some first)
    (elimination : first.reduction.isElimination = true) (same : p.Transposed) :
    ∀ r ∈ news, r.GoneFrom q := by
  cases move with
  | @single _ record rewrite unsettled =>
    obtain rfl : record = first := Option.some.inj last
    intro r listed
    obtain rfl := List.mem_singleton.1 listed
    exact rewrite.goneFrom elimination unsettled
  | @settled between r j column rewrite settles active fixed finite =>
    have after := rewrite.transposed same
    have substituted : Rewrite settings between _ _ := .substituteFixed active fixed finite
    have narrows := after.narrowsTo_substituted (after.columns_nodup j column active) j
    intro s listed
    rcases List.mem_cons.1 listed with rfl | listed
    · exact substituted.goneFrom rfl rfl
    · obtain rfl := List.mem_singleton.1 listed
      exact rewrite.goneFrom_of_settled settles narrows Program.isActive_columns_substituted

omit [Scalar α] in
theorem Record.statusBefore_possible (elimination : r.reduction.isElimination = true)
    (unsettled : r.settled? = none) (v : Valuation Status) : ∃ w, r.statusBefore v = .ok w := by
  cases r with
  | dropFreeRow | dropEmptyRow | substituteFixed => exact ⟨_, rfl⟩
  | settleEmpty | settleSingleton => cases unsettled
  | _ => cases elimination

/-- Statuses before an elimination have an answer, whatever those after it are. -/
theorem Move.statuses_possible_of_elimination (move : Move settings p news q)
    (last : news.getLast? = some first) (elimination : first.reduction.isElimination = true)
    (v : Valuation Status) : ∃ w, news.foldlM Record.statusBefore v = .ok w := by
  cases move with
  | @single _ record rewrite unsettled =>
    obtain rfl : record = first := Option.some.inj last
    obtain ⟨w, undone⟩ := Record.statusBefore_possible elimination unsettled v
    exact ⟨w, by rw [List.foldlM_cons, undone]; rfl⟩
  | @settled _ _ j _ rewrite settles active fixed finite =>
    obtain ⟨value, status, rfl⟩ | ⟨i, coefficient, value, rfl⟩ := Record.of_settled?_eq_some settles
    · exact ⟨_, rfl⟩
    · refine ⟨((v.setColumn j .fixed).setColumn j .basic).setRow i .fixed, ?_⟩
      change Record.statusBefore (v.setColumn j .fixed) (.settleSingleton i j coefficient value) >>= _ = _
      rw [Record.statusBefore_setColumn_fixed]
      rfl

end

end

/-! ## Sessions -/

namespace Session

variable [LawfulScalar α] {s t : Session α} {n : Nat}

/-- Whatever was eliminated is gone for good. -/
theorem Eliminates.goneFrom (eliminates : s.Eliminates n t) (same : s.program.Transposed)
    (fresh : s.records = []) : ∀ r ∈ t.records, r.GoneFrom t.program := by
  induction eliminates with
  | refl =>
    rw [fresh]
    exact nofun
  | eliminate before elimination result inductionHypothesis =>
    have between := before.transposed same
    have performs := (Step.reduce_ends between _ _).done_of_eq_ok result
    obtain ⟨news, move, records, _, first, last, rfl, _⟩ := performs.move
    intro r listed
    rw [records] at listed
    -- What was gone before stays so, as eliminations never bring anything back.
    rcases List.mem_append.1 listed with new | old
    · exact move.goneFrom last elimination between r new
    · exact (inductionHypothesis r old).of_narrows (performs.narrows elimination between)

theorem Eliminates.statuses_possible (eliminates : s.Eliminates n t) (same : s.program.Transposed)
    (fresh : s.records = []) (v : Valuation Status) :
    ∃ w, t.records.foldlM Record.statusBefore v = .ok w := by
  induction eliminates generalizing v with
  | refl => exact ⟨v, by rw [fresh]; rfl⟩
  | eliminate before elimination result inductionHypothesis =>
    have performs := (Step.reduce_ends (before.transposed same) _ _).done_of_eq_ok result
    obtain ⟨news, move, records, _, first, last, rfl, _⟩ := performs.move
    obtain ⟨between, undone⟩ := move.statuses_possible_of_elimination last elimination v
    obtain ⟨w, rest⟩ := inductionHypothesis between
    refine ⟨w, ?_⟩
    rw [records, List.foldlM_append, undone]
    exact rest

/-- After eliminations a solution is always recovered, with what is given wherever something is left. -/
theorem Eliminates.returns {start : Session α} {p : Program α} {settings : Settings α}
    (eliminates : start.Eliminates n t) (full : p.Full) (begun : Session.begin p settings = .ok start)
    {reduced : Solution α} (matched : t.isMatchedBy reduced.primal = true) :
    ∃ recovered, t.recover reduced = .ok recovered ∧ t.Returns reduced recovered.solution := by
  have descends := eliminates.reducesTo.reaches.descendsFrom begun
  obtain ⟨_, rfl⟩ := begin_eq_ok begun
  have same := descends.transposed
  have gone := eliminates.goneFrom same rfl
  have narrows := eliminates.narrows same
  have possible := eliminates.statuses_possible same rfl
  obtain ⟨recovered, run⟩ := recover_eq_ok descends (Program.full_asMinimization.2 full) matched
    fun status _ => possible (t.spread .basic status)
  obtain ⟨_, _, primal_eq, dual_eq⟩ := recover_eq_ok_sides descends run
  obtain ⟨primal_rows, primal_columns⟩ := isMatchedBy_iff.1 matched
  refine ⟨recovered, run, fun ordinal => ?_, fun dual given => ⟨_, dual_eq dual given, ?_⟩,
    fun status given => ?_⟩
  · rw [primal_eq]
    exact Slots.getElem?_of_ordinal primal_columns (Nat.le_of_eq narrows.columns_size)
      (Record.columns_foldl_primalBefore gone) ordinal
  · exact (extends_sides narrows (isMatchedBy_of_fits (Solution.fits_of_dual given) matched)
      (fun _ => Record.rows_foldl_dualBefore gone) fun _ => Record.columns_foldl_dualBefore gone).signed
  · obtain ⟨w, possible⟩ := possible (t.spread .basic status)
    obtain ⟨rows, columns⟩ := Record.foldlM_statusBefore gone possible
    exact ⟨_, recover_eq_ok_status descends given possible run,
      extends_sides narrows (isMatchedBy_of_fits (Solution.fits_of_status given) matched) rows columns⟩

end Session

end LinearReduction
