import LinearReduction.Proofs.Exact.Carried

/-!
# Rows that stay until they settle a column

A row without coefficients is removed as a row of the basis. A row that was made an equality by a new column,
or that keeps the upper bound of a column, can't end like this: the new column stays in the row until the row
itself settles the column. The column may be split in turn, but then the row that keeps its upper bound has a
column of its own, which keeps it from settling the column before. Main statement: a row that is held stays
held under each reduction, unless it settles a column.
-/

namespace LinearReduction

open ExtRat

/-- Bounds from zero to some greater value, or without an upper bound. -/
inductive Bounds.Roomy : Bounds ExtRat → Prop where
  | above : Roomy ⟨.finite 0, .posInf⟩
  | between {u : ℚ} (order : 0 < u) : Roomy ⟨.finite 0, .finite u⟩

namespace Bounds.Roomy

variable {b : Bounds ExtRat}

theorem nonnegative : (Bounds.nonnegative : Bounds ExtRat).Roomy := .above

theorem not_isFree (roomy : b.Roomy) : b.isFree ≠ true := by
  cases roomy <;> exact Bool.false_ne_true

theorem not_isPoint (roomy : b.Roomy) : b.isPoint ≠ true := by
  cases roomy with
  | above => exact Bool.false_ne_true
  | between order =>
    intro same
    have equal := ExtRat.finite.inj (ExtRat.eq_of_beq (x := .finite 0) same)
    exact order.ne equal

theorem range_eq (roomy : b.Roomy) : b.range = b := by
  cases roomy with
  | above => rfl
  | between order => rw [Bounds.range, finite_sub, sub_zero, zero_eq]

/-- What a row ranges over is the room of the column that takes up the range. -/
theorem of_range (proper : b.Proper) (finite : Scalar.isFinite b.lower = true ∨
      Scalar.isFinite b.upper = true) (order : b.lower < b.upper) : b.range.Roomy := by
  cases proper with
  | free => rcases finite with finite | finite <;> cases finite
  | above l => exact .above
  | below u => exact .above
  | between _ =>
    rw [Bounds.range, finite_sub]
    exact .between (sub_pos.2 (finite_lt_finite.1 order))

end Bounds.Roomy

section

variable {settings : Settings ExtRat} {p q : Program ExtRat} {r : Record ExtRat} {i j k l : Nat}
  {column : Column ExtRat}

/-! ## Columns with room -/

/-- Only a row that has no other column settles a column that is in a row. -/
theorem Rewrite.single_of_settled (rewrite : Rewrite settings p r q) (active : p.columns.get? j = some column)
    (listed : i ∈ column.entries.ordinals) (settles : r.settled? = some j) :
    ∃ l row c value, r = .settleSingleton l j c value ∧ p.rows.get? l = some row ∧
    row.entries = [(j, c)] := by
  cases rewrite with
  | settleEmpty active' empty bounded =>
    cases settles
    obtain rfl := Option.some.inj (active.symm.trans active')
    rw [empty] at listed
    cases listed
  | settleSingleton row_active equality single column_active admitted =>
    cases settles
    exact ⟨_, _, _, _, rfl, row_active, single⟩
  | _ => cases settles

/-- A column is there with the same bounds, and in the same rows as far as they are left. -/
def Program.KeepsColumn (q : Program ExtRat) (j : Nat) (column : Column ExtRat) : Prop :=
  ∃ column', q.columns.get? j = some column' ∧ column'.bounds = column.bounds ∧
    ∀ l, q.rows.isActive l = true → (l ∈ column'.entries.ordinals ↔ l ∈ column.entries.ordinals)

theorem Program.KeepsColumn.of_eq_some (found : q.columns.get? j = some column) : q.KeepsColumn j column :=
  ⟨column, found, rfl, fun _ _ => .rfl⟩

/-- A column with room stays, with the bounds and the rows that it has, unless it is settled or split. -/
theorem Rewrite.roomy_kept (rewrite : Rewrite settings p r q) (same : p.Transposed)
    (active : p.columns.get? j = some column) (roomy : column.bounds.Roomy)
    (unsettled : r.settled? ≠ some j) : q.KeepsColumn j column ∨
      Scalar.isFinite column.bounds.upper = true ∧ q = p.cappedColumn j column.bounds.upper := by
  have distinct := same.columns_nodup j column active
  have without : ∀ i l, (p.withoutRow i).rows.isActive l = true →
      (l ∈ (column.entries.erase i).ordinals ↔ l ∈ column.entries.ordinals) := by
    intro i l remains
    rw [Slots.isActive, Program.rows_withoutRow] at remains
    split at remains
    case isTrue => cases remains
    case isFalse apart => rw [Entries.mem_ordinals_erase distinct, and_iff_right (Ne.symm apart)]
  cases rewrite with
  | @dropFreeRow i row row_active free =>
    exact .inl ⟨{ column with entries := column.entries.erase i },
      by rw [Program.columns_withoutRow, active, Option.map_some], rfl, without i⟩
  | addSurplus row_active finite inequality =>
    exact .inl (.of_eq_some (by rw [Program.columns_withRange, if_neg (Slots.ne_size active), active]))
  | addSlack row_active finite inequality =>
    exact .inl (.of_eq_some (by rw [Program.columns_withRange, if_neg (Slots.ne_size active), active]))
  | @splitFree k other other_active free =>
    have apart : k ≠ j := by
      rintro rfl
      obtain rfl := Option.some.inj (active.symm.trans other_active)
      exact roomy.not_isFree free
    exact .inl
      (.of_eq_some (by rw [Program.columns_splitColumn, if_neg (Slots.ne_size active), if_neg apart, active]))
  | @shiftLower k other other_active finite =>
    by_cases self : k = j
    · subst self
      obtain rfl := Option.some.inj (active.symm.trans other_active)
      exact .inl ⟨{ column with bounds := column.bounds.range },
        by rw [Program.columns_shiftedColumn, if_pos rfl, active, Option.map_some], roomy.range_eq,
        fun _ _ => .rfl⟩
    · exact .inl (.of_eq_some (by rw [Program.columns_shiftedColumn, if_neg self, active]))
  | @flipUpper k other other_active finite =>
    by_cases self : k = j
    · subst self
      obtain rfl := Option.some.inj (active.symm.trans other_active)
      refine .inl ⟨⟨column.bounds.range, column.domain, -column.cost, column.entries.negate⟩,
        by rw [Program.columns_flippedColumn, if_pos rfl, active, Option.map_some], roomy.range_eq,
        fun _ _ => ?_⟩
      rw [Entries.ordinals_negate]
    · exact .inl (.of_eq_some (by rw [Program.columns_flippedColumn, if_neg self, active]))
  | @splitUpper k other other_active grounded finite =>
    by_cases self : k = j
    · subst self
      obtain rfl := Option.some.inj (active.symm.trans other_active)
      exact .inr ⟨finite, rfl⟩
    · exact .inl (.of_eq_some (by rw [Program.columns_cappedColumn _ (Slots.lt_size other_active),
        if_neg (Slots.ne_size active), if_neg self, active]))
  | @substituteFixed k other other_active fixed finite =>
    have apart : k ≠ j := by
      rintro rfl
      obtain rfl := Option.some.inj (active.symm.trans other_active)
      exact roomy.not_isPoint fixed
    exact .inl (.of_eq_some (by rw [Program.columns_substituted, if_neg apart, active]))
  | @dropEmptyRow i row row_active empty within =>
    exact .inl ⟨{ column with entries := column.entries.erase i },
      by rw [Program.columns_withoutRow, active, Option.map_some], rfl, without i⟩
  | @settleEmpty k other other_active empty bounded =>
    have apart : k ≠ j := fun same => unsettled (congrArg some same)
    exact .inl (.of_eq_some (by rw [Program.columns_boundedColumn, if_neg apart, active]))
  | @settleSingleton i k row other coefficient row_active equality single other_active admitted =>
    have apart : k ≠ j := fun same => unsettled (congrArg some same)
    exact .inl ⟨{ column with entries := column.entries.erase i },
      by rw [Program.columns_settledBy, active, Option.map_some, if_neg apart], rfl, without i⟩

/-! ## Rows that are held -/

/-- A nonnegative column that is in one row only. -/
structure Program.Companion (p : Program ExtRat) (k l : Nat) (column : Column ExtRat) : Prop where
  active : p.columns.get? k = some column
  nonnegative : column.bounds = .nonnegative
  only : ∀ m, m ∈ column.entries.ordinals ↔ m = l

/-- An equality row with a column that has room. In every other row of that column there is a companion. -/
structure Program.HeldBy (p : Program ExtRat) (i j : Nat) (row : Row ExtRat) (column : Column ExtRat) :
    Prop where
  row_active : p.rows.get? i = some row
  equality : ∃ value, row.bounds = .point (.finite value)
  column_active : p.columns.get? j = some column
  listed : i ∈ column.entries.ordinals
  roomy : column.bounds.Roomy
  companions : ∀ l ∈ column.entries.ordinals, l ≠ i → ∃ k other, k ≠ j ∧ p.Companion k l other

/-- A row that some column holds. -/
def Program.Held (p : Program ExtRat) (i : Nat) : Prop :=
  ∃ j row column, p.HeldBy i j row column

theorem Program.Held.isActive (held : p.Held i) : p.rows.isActive i = true := by
  obtain ⟨_, _, _, by_column⟩ := held
  exact Slots.isActive_of_eq_some by_column.row_active

theorem Program.Held.isPoint (held : p.Held i) {row : Row ExtRat} (active : p.rows.get? i = some row) :
    row.bounds.isPoint = true := by
  obtain ⟨j, row', column, by_column⟩ := held
  obtain rfl := Option.some.inj (active.symm.trans by_column.row_active)
  obtain ⟨value, bounds⟩ := by_column.equality
  rw [bounds]
  exact LawfulScalar.beq_self_of_le (finite_le_finite.2 (le_refl value))

/-- The new column holds its row. -/
theorem Program.held_withRange {row : Row ExtRat} (active : p.rows.get? i = some row) {range : Bounds ExtRat}
    (roomy : range.Roomy) (c : ExtRat) (b : ℚ) : (p.withRange i range c (.finite b)).Held i := by
  have found : (p.withRange i range c (.finite b)).columns.get? p.columns.size =
      some ⟨range, .continuous, 0, [(i, c)]⟩ := by
    rw [columns_withRange, if_pos rfl]
  refine ⟨p.columns.size, _, _, by rw [rows_withRange, if_pos rfl, active, Option.map_some], ⟨b, rfl⟩, found,
    List.mem_singleton_self i, roomy, fun l listed apart => ?_⟩
  exact absurd (List.mem_singleton.1 listed) apart

theorem Program.companion_cappedColumn (active : p.columns.get? j = some column) (bound : ExtRat) :
    (p.cappedColumn j bound).Companion p.columns.size p.rows.size
      ⟨.nonnegative, .continuous, 0, [(p.rows.size, 1)]⟩ :=
  ⟨by rw [columns_cappedColumn _ (Slots.lt_size active), if_pos rfl], rfl, fun _ => List.mem_singleton⟩

/-- The companion of a column holds the row that keeps the upper bound. -/
theorem Program.held_cappedColumn (active : p.columns.get? j = some column) (bound : ℚ) :
    (p.cappedColumn j (.finite bound)).Held p.rows.size := by
  have companion := companion_cappedColumn active (.finite bound)
  refine ⟨p.columns.size, _, _, by rw [rows_cappedColumn, if_pos rfl], ⟨bound, rfl⟩, companion.active,
    List.mem_singleton_self _, .nonnegative, fun l listed apart => ?_⟩
  exact absurd (List.mem_singleton.1 listed) apart

namespace Program.HeldBy

variable {row : Row ExtRat}

/-- A column that holds a row is only settled by that row. -/
theorem settled_by_own (by_column : p.HeldBy i j row column) (same : p.Transposed)
    (rewrite : Rewrite settings p r q) (settles : r.settled? = some j) : r.ownRow? = some i := by
  obtain ⟨l, single_row, c, value, rfl, row_active, single⟩ :=
    rewrite.single_of_settled by_column.column_active by_column.listed settles
  have only : ∀ k ∈ single_row.entries.ordinals, k = j := fun k listed => by
    rw [single] at listed
    exact List.mem_singleton.1 listed
  have listed := (same.mem_ordinals_iff row_active by_column.column_active).1 (by
    rw [single]
    exact List.mem_singleton_self j)
  by_contra other
  obtain ⟨k, companion, apart, also⟩ := by_column.companions l listed fun same => other (congrArg some same)
  exact apart (only k ((same.mem_ordinals_iff row_active also.active).2 ((also.only l).2 rfl)))

/-- The companions of the column are there as long as their rows are. -/
theorem companion_kept (by_column : p.HeldBy i j row column) (same : p.Transposed)
    (rewrite : Rewrite settings p r q) (listed : l ∈ column.entries.ordinals) (apart : l ≠ i)
    (remains : q.rows.isActive l = true) : ∃ k other, k ≠ j ∧ q.Companion k l other := by
  obtain ⟨k, other, distinct, companion⟩ := by_column.companions l listed apart
  have unsettled : r.settled? ≠ some k := by
    intro settles
    obtain ⟨m, single_row, c, value, rfl, row_active, single⟩ :=
      rewrite.single_of_settled companion.active ((companion.only l).2 rfl) settles
    have in_row := (same.mem_ordinals_iff row_active companion.active).1 (by
      rw [single]
      exact List.mem_singleton_self k)
    obtain rfl := (companion.only m).1 in_row
    have also := (same.mem_ordinals_iff row_active by_column.column_active).2 listed
    rw [single] at also
    exact distinct (List.mem_singleton.1 also).symm
  have roomy : other.bounds.Roomy := companion.nonnegative ▸ .nonnegative
  rcases rewrite.roomy_kept same companion.active roomy unsettled with ⟨other', found, bounds,
    rows⟩ | ⟨finite, _⟩
  · refine ⟨k, other', distinct, found, bounds.trans companion.nonnegative, fun m => ?_⟩
    constructor
    · intro in_row
      exact (companion.only m).1 ((rows m ((rewrite.transposed same).row_isActive found in_row)).1 in_row)
    · rintro rfl
      exact (rows m remains).2 ((companion.only m).2 rfl)
  · rw [companion.nonnegative] at finite
    cases finite

end Program.HeldBy

/-- A reduction leaves a row an equality if it is about another row. -/
theorem Rewrite.equality_kept (rewrite : Rewrite settings p r q) (exact : p.Exact) {row : Row ExtRat}
    (active : p.rows.get? i = some row) (equality : ∃ value, row.bounds = .point (.finite value))
    (other : r.ownRow? ≠ some i) :
    ∃ row', q.rows.get? i = some row' ∧ ∃ value, row'.bounds = .point (.finite value) := by
  obtain ⟨value, bounds⟩ := equality
  obtain ⟨row', found, carried⟩ := rewrite.carries_row exact 0 active other
  exact ⟨row', found, value - r.share i,
    by rw [carried.bounds, bounds, Bounds.shift, Bounds.point, finite_sub]; rfl⟩

/-- A reduction about a row that is held settles a column by it. -/
theorem Rewrite.settles_of_held (rewrite : Rewrite settings p r q) (exact : p.Exact) (held : p.Held i)
    (own : r.ownRow? = some i) : ∃ j c value, r = .settleSingleton i j c value := by
  obtain ⟨j, row, column, by_column⟩ := held
  obtain ⟨value, bounds⟩ := by_column.equality
  have inequality : ∀ {row' : Row ExtRat}, p.rows.get? i = some row' → ¬ row'.bounds.lower <
      row'.bounds.upper := by
    intro row' active
    obtain rfl := Option.some.inj (active.symm.trans by_column.row_active)
    rw [bounds]
    exact fun less => (finite_lt_finite.1 less).false
  cases rewrite with
  | @dropFreeRow _ row' active free =>
    cases own
    obtain rfl := Option.some.inj (active.symm.trans by_column.row_active)
    rw [bounds] at free
    cases free
  | addSurplus active finite order =>
    cases own
    exact absurd order (inequality active)
  | addSlack active finite order =>
    cases own
    exact absurd order (inequality active)
  | dropEmptyRow active empty within =>
    cases own
    have listed := (exact.transposed.mem_ordinals_iff active by_column.column_active).2 by_column.listed
    rw [empty] at listed
    cases listed
  | settleSingleton row_active equality single column_active admitted =>
    cases own
    exact ⟨_, _, _, rfl⟩
  | _ => cases own

theorem Rewrite.held (rewrite : Rewrite settings p r q) (exact : p.Exact) (held : p.Held i)
    (other : r.ownRow? ≠ some i) : q.Held i := by
  obtain ⟨j, row, column, by_column⟩ := held
  have same := exact.transposed
  obtain ⟨row', row_found, equality⟩ :=
    rewrite.equality_kept exact by_column.row_active by_column.equality other
  have remains := Slots.isActive_of_eq_some row_found
  have unsettled : r.settled? ≠ some j := fun settles => other (by_column.settled_by_own same rewrite settles)
  rcases rewrite.roomy_kept same by_column.column_active by_column.roomy unsettled with
    ⟨column', found, bounds, rows⟩ | ⟨finite, rfl⟩
  · refine ⟨j, row', column', row_found, equality, found, (rows i remains).2 by_column.listed,
      bounds ▸ by_column.roomy, fun l listed apart => ?_⟩
    have row_remains := (rewrite.transposed same).row_isActive found listed
    exact by_column.companion_kept same rewrite ((rows l row_remains).1 listed) apart row_remains
  · -- The column is split, and its companion takes care of the new row.
    have found : (p.cappedColumn j column.bounds.upper).columns.get? j = some { column with
        bounds := .nonnegative
        entries := column.entries ++ [(p.rows.size, 1)] } := by
      rw [Program.columns_cappedColumn _ (Slots.lt_size by_column.column_active),
        if_neg (Slots.ne_size by_column.column_active), if_pos rfl, by_column.column_active, Option.map_some]
    refine ⟨j, row', _, row_found, equality, found, ?_, .nonnegative, fun l listed apart => ?_⟩
    · rw [Entries.ordinals_append]
      exact List.mem_append_left _ by_column.listed
    · have row_remains := (rewrite.transposed same).row_isActive found listed
      rw [Entries.ordinals_append] at listed
      rcases List.mem_append.1 listed with listed | last
      · exact by_column.companion_kept same rewrite listed apart row_remains
      · obtain rfl := List.mem_singleton.1 last
        exact ⟨p.columns.size, _, (Slots.ne_size by_column.column_active).symm,
          Program.companion_cappedColumn by_column.column_active _⟩

end

end LinearReduction
