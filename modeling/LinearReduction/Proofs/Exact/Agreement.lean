import LinearReduction.Proofs.Exact.Statuses

/-!
# Statuses that tell the truth

A status says which bound a value is at. Undoing a record shifts values and bounds, and mirrors, merges or
overwrites statuses apart from that. Feasibility is lost on the way, as reductions may have been within a
tolerance, but rows that are held keep their activity within bounds. That is all that the columns need that
were added to such rows. Main statement: statuses that tell the truth about a point after a history of moves
are undone to statuses that tell the truth about the point before it.
-/

namespace LinearReduction

open ExtRat

/-! ## One value and its bounds -/

namespace Status

variable {s : Status} {b : Bounds ExtRat} {a t : ℚ}

theorem atLower_agreesWith_iff : Status.atLower.AgreesWith b (.finite a) ↔ b.lower = .finite a := by
  constructor
  · exact fun agrees => agrees.2.symm
  · intro same
    rw [AgreesWith, same]
    exact ⟨rfl, rfl⟩

theorem atUpper_agreesWith_iff : Status.atUpper.AgreesWith b (.finite a) ↔ b.upper = .finite a := by
  constructor
  · exact fun agrees => agrees.2.symm
  · intro same
    rw [AgreesWith, same]
    exact ⟨rfl, rfl⟩

/-- A value is fixed if it is at both bounds. -/
theorem fixed_agreesWith_iff : Status.fixed.AgreesWith b (.finite a) ↔
    Status.atLower.AgreesWith b (.finite a) ∧ Status.atUpper.AgreesWith b (.finite a) := by
  rw [atLower_agreesWith_iff, atUpper_agreesWith_iff]
  exact Iff.rfl

namespace AgreesWith

/-- A value keeps its status when it is shifted together with its bounds. -/
theorem of_shift (proper : b.Proper) (agrees : s.AgreesWith (b.shift (.finite t)) (.finite a)) :
    s.AgreesWith b (.finite (a + t)) := by
  have at_lower : Status.atLower.AgreesWith (b.shift (.finite t)) (.finite a) →
      Status.atLower.AgreesWith b (.finite (a + t)) := by
    rw [atLower_agreesWith_iff, atLower_agreesWith_iff]
    cases proper <;> simp [Bounds.shift, sub_eq_iff_eq_add]
  have at_upper : Status.atUpper.AgreesWith (b.shift (.finite t)) (.finite a) →
      Status.atUpper.AgreesWith b (.finite (a + t)) := by
    rw [atUpper_agreesWith_iff, atUpper_agreesWith_iff]
    cases proper <;> simp [Bounds.shift, sub_eq_iff_eq_add]
  cases s with
  | basic => trivial
  | atLower => exact at_lower agrees
  | atUpper => exact at_upper agrees
  | free =>
    cases proper with
    | free => rfl
    | above | below | between => cases agrees
  | fixed => exact fixed_agreesWith_iff.2 ((fixed_agreesWith_iff.1 agrees).imp at_lower at_upper)

/-- A value has the status of its distance from the lower bound. -/
theorem of_range_above (proper : b.Proper) (finite : Scalar.isFinite b.lower = true)
    (agrees : s.AgreesWith b.range (.finite t)) : s.AgreesWith b (.finite (b.lower.toRat + t)) := by
  have at_lower : Status.atLower.AgreesWith b.range (.finite t) →
      Status.atLower.AgreesWith b (.finite (b.lower.toRat + t)) := by
    rw [atLower_agreesWith_iff, atLower_agreesWith_iff]
    intro zero
    obtain rfl : 0 = t := ExtRat.finite.inj zero
    rw [add_zero]
    exact eq_finite_of_isFinite finite
  have at_upper : Status.atUpper.AgreesWith b.range (.finite t) →
      Status.atUpper.AgreesWith b (.finite (b.lower.toRat + t)) := by
    rw [atUpper_agreesWith_iff, atUpper_agreesWith_iff]
    cases proper with
    | free | below => cases finite
    | above => exact nofun
    | between => simp [Bounds.range, sub_eq_iff_eq_add']
  cases s with
  | basic => trivial
  | atLower => exact at_lower agrees
  | atUpper => exact at_upper agrees
  | free => cases proper <;> cases agrees
  | fixed => exact fixed_agreesWith_iff.2 ((fixed_agreesWith_iff.1 agrees).imp at_lower at_upper)

/-- A value has the opposite status of its distance from the upper bound. -/
theorem of_range_below (proper : b.Proper) (finite : Scalar.isFinite b.upper = true)
    (agrees : s.AgreesWith b.range (.finite t)) : s.opposite.AgreesWith b (.finite (b.upper.toRat - t)) := by
  have at_upper : Status.atLower.AgreesWith b.range (.finite t) →
      Status.atUpper.AgreesWith b (.finite (b.upper.toRat - t)) := by
    rw [atLower_agreesWith_iff, atUpper_agreesWith_iff]
    intro zero
    obtain rfl : 0 = t := ExtRat.finite.inj zero
    rw [sub_zero]
    exact eq_finite_of_isFinite finite
  have at_lower : Status.atUpper.AgreesWith b.range (.finite t) →
      Status.atLower.AgreesWith b (.finite (b.upper.toRat - t)) := by
    rw [atUpper_agreesWith_iff, atLower_agreesWith_iff]
    cases proper with
    | free | above => cases finite
    | below => exact nofun
    | between =>
      simp only [Bounds.range, finite_sub, toRat_finite, ExtRat.finite.injEq]
      exact fun distance => by rw [← distance, sub_sub_cancel]
  cases s with
  | basic => trivial
  | atLower => exact at_upper agrees
  | atUpper => exact at_lower agrees
  | free => cases proper <;> cases agrees
  | fixed =>
    obtain ⟨lower, upper⟩ := fixed_agreesWith_iff.1 agrees
    exact fixed_agreesWith_iff.2 ⟨at_lower upper, at_upper lower⟩

/-- A nonnegative value is in the basis or at zero. -/
theorem of_nonnegative (agrees : s.AgreesWith Bounds.nonnegative (ExtRat.finite a)) :
    s = .basic ∨ s = .atLower ∧ a = 0 := by
  cases s with
  | basic => exact .inl rfl
  | atLower => exact .inr ⟨rfl, ExtRat.finite.inj agrees.2⟩
  | atUpper => cases agrees.1
  | free => cases agrees
  | fixed => cases agrees.2

/-- Only a value without bounds can be free. -/
theorem not_free (agrees : s.AgreesWith b (.finite a)) (proper : b.Proper)
    (finite : Scalar.isFinite b.lower = true ∨ Scalar.isFinite b.upper = true) : s ≠ .free := by
  rintro rfl
  cases proper with
  | free => rcases finite with finite | finite <;> cases finite
  | above | below | between => cases agrees

end AgreesWith

end Status

/-- The best value is at the bound that its status says, or zero for a column without bounds. -/
theorem Step.bestValue_agrees {b : Bounds ExtRat} (proper : b.Proper) (cost : ExtRat) :
    (bestValue b cost).2.AgreesWith b (bestValue b cost).1 ∧
    ((bestValue b cost).2 = .free → (bestValue b cost).1 = 0) := by
  cases proper with
  | free => exact ⟨rfl, fun _ => rfl⟩
  | above l => exact ⟨⟨rfl, rfl⟩, Status.noConfusion⟩
  | below u => exact ⟨⟨rfl, rfl⟩, Status.noConfusion⟩
  | between order =>
    simp only [bestValue, isFinite_finite]
    split
    case isTrue same =>
      obtain ⟨a, point⟩ := (Bounds.Proper.between order).eq_point same
      cases point
      exact ⟨⟨rfl, rfl⟩, Status.noConfusion⟩
    case isFalse =>
      split
      · exact ⟨⟨rfl, rfl⟩, Status.noConfusion⟩
      · split
        · exact ⟨⟨rfl, rfl⟩, Status.noConfusion⟩
        · split
          · exact ⟨⟨rfl, rfl⟩, Status.noConfusion⟩
          · exact ⟨⟨rfl, rfl⟩, Status.noConfusion⟩

/-! ## All statuses of a program -/

/-- Statuses tell the truth about a point, and rows that are held keep their activity within bounds. -/
structure Program.Agrees (p : Program ExtRat) (v : Valuation Status) (x : Nat → ℚ) : Prop where
  rows : ∀ i row, p.rows.get? i = some row → (v.rows i).AgreesWith row.bounds (.finite (row.entries.value x))
  columns : ∀ j column, p.columns.get? j = some column →
    (v.columns j).AgreesWith column.bounds (.finite (x j))
  zeros : ∀ j, p.columns.isActive j = true → v.columns j = .free → x j = 0
  held : ∀ i row, p.Held i → p.rows.get? i = some row → row.bounds.Contains (.finite (row.entries.value x))

section

variable {settings : Settings ExtRat} {p q : Program ExtRat} {r : Record ExtRat} {v w : Valuation Status}
  {x : Nat → ℚ} {i j k l n : Nat} {row : Row ExtRat} {column : Column ExtRat}

/-- A column that is fixed has the value of its bounds. -/
theorem Program.Agrees.eq_of_fixed (agrees : p.Agrees v x) (found : p.columns.get? j = some column)
    (fixed : v.columns j = .fixed) : column.bounds.lower = .finite (x j) := by
  have truth := agrees.columns j column found
  rw [fixed] at truth
  exact truth.1

/-- The new column takes up the distance of a held row from one of its bounds. -/
theorem Program.Agrees.withRange {c b : ℚ}
    (agrees : (p.withRange i row.bounds.range (.finite c) (.finite b)).Agrees v x)
    (active : p.rows.get? i = some row) (roomy : row.bounds.range.Roomy) :
    row.entries.value x + c * x p.columns.size = b ∧
      (v.columns p.columns.size).AgreesWith row.bounds.range (.finite (x p.columns.size)) := by
  constructor
  · have found : (p.withRange i row.bounds.range (.finite c) (.finite b)).rows.get? i =
        some ⟨.point (.finite b), row.entries ++ [(p.columns.size, .finite c)]⟩ := by
      rw [Program.rows_withRange, if_pos rfl, active, Option.map_some]
    have within := agrees.held i _ (Program.held_withRange active roomy _ b) found
    simpa [Bounds.contains_point, Entries.value_append] using within
  · exact agrees.columns p.columns.size _ (by rw [Program.columns_withRange, if_pos rfl])

/-- The row that a reduction is about gets a status that tells the truth. -/
theorem Rewrite.own_row_agrees (rewrite : Rewrite settings p r q) (exact : p.Exact)
    (possible : r.statusBefore v = .ok w) (agrees : q.Agrees v x) (active : p.rows.get? i = some row)
    (own : r.ownRow? = some i) :
    (w.rows i).AgreesWith row.bounds (.finite (row.entries.value (r.pointBefore x))) := by
  have proper := (exact.rows i row active).proper
  cases rewrite with
  | dropFreeRow active' free =>
    cases own
    cases possible
    rw [Valuation.rows_setRow, if_pos rfl]
    trivial
  | dropEmptyRow active' empty within =>
    cases own
    cases possible
    rw [Valuation.rows_setRow, if_pos rfl]
    trivial
  | addSurplus active' finite inequality =>
    cases own
    cases possible
    obtain rfl := Option.some.inj (active.symm.trans active')
    rw [eq_finite_of_isFinite finite] at agrees
    obtain ⟨balance, status⟩ := agrees.withRange active (.of_range proper (.inl finite) inequality)
    rw [Valuation.rows_setRow, if_pos rfl]
    have activity : row.entries.value x = row.bounds.lower.toRat + x p.columns.size := by linarith
    exact activity ▸ status.of_range_above proper finite
  | addSlack active' finite inequality =>
    cases own
    cases possible
    obtain rfl := Option.some.inj (active.symm.trans active')
    rw [eq_finite_of_isFinite finite] at agrees
    obtain ⟨balance, status⟩ := agrees.withRange active (.of_range proper (.inr finite) inequality)
    rw [Valuation.rows_setRow, if_pos rfl]
    have activity : row.entries.value x = row.bounds.upper.toRat - x p.columns.size := by linarith
    exact activity ▸ status.of_range_below proper finite
  | @settleSingleton _ k _ other coefficient row_active equality single column_active admitted =>
    cases own
    obtain ⟨fixed, rfl⟩ := Record.statusBefore_settleSingleton possible
    obtain rfl := Option.some.inj (active.symm.trans row_active)
    obtain ⟨b, t, bounds, coefficient_eq, nonzero, value⟩ := exact.single_value active equality single
    have settled :=
      agrees.eq_of_fixed (by rw [Program.columns_settledBy, column_active, Option.map_some]) fixed
    rw [if_pos rfl, value] at settled
    have activity : row.entries.value x = b := by
      rw [single, Entries.value_cons, Entries.value_nil, add_zero, coefficient_eq, toRat_finite,
        ← ExtRat.finite.inj settled, mul_div_cancel₀ _ nonzero]
    have same : ExtRat.finite b = .finite (row.entries.value x) := congrArg ExtRat.finite activity.symm
    rw [Valuation.rows_setRow, if_pos rfl, bounds]
    exact ⟨same, same⟩
  | _ => cases own

theorem Record.exists_of_statusBefore_splitUpper {m : Nat} {bound : ExtRat}
    (possible : (Record.splitUpper j n m bound).statusBefore v = .ok w) :
    ∃ status, (boundedStatus (v.columns j) (v.columns n) : Except (Fault ExtRat) Status) = .ok status ∧
      w = v.setColumn j status := by
  rw [statusBefore] at possible
  cases bounded : (boundedStatus (v.columns j) (v.columns n) : Except (Fault ExtRat) Status) with
  | error fault =>
    rw [bounded] at possible
    cases possible
  | ok status =>
    rw [bounded] at possible
    cases possible
    exact ⟨status, rfl, rfl⟩

/-- The column is at its upper bound where its companion is at zero. -/
theorem Program.Agrees.bounded_agrees {u : ℚ} {status : Status}
    (agrees : (p.cappedColumn j (.finite u)).Agrees v x) (active : p.columns.get? j = some column)
    (grounded : column.bounds.lower = .finite 0) (capped : column.bounds.upper = .finite u)
    (bounded : (Record.boundedStatus (v.columns j) (v.columns p.columns.size) : Except (Fault ExtRat)
      Status) = .ok status) : status.AgreesWith column.bounds (.finite (x j)) := by
  have inside := Slots.lt_size active
  have own := agrees.columns j _ (by
    rw [Program.columns_cappedColumn _ inside, if_neg (Slots.ne_size active), if_pos rfl, active,
      Option.map_some])
  have companion :=
    agrees.columns p.columns.size _ (by rw [Program.columns_cappedColumn _ inside, if_pos rfl])
  have balance : x j + x p.columns.size = u := by
    have within := agrees.held p.rows.size _ (Program.held_cappedColumn active u) (by
      rw [Program.rows_cappedColumn, if_pos rfl])
    simpa [Bounds.contains_point, one_eq] using within
  rcases own.of_nonnegative with basic | ⟨at_zero, zero⟩
  · rcases companion.of_nonnegative with also | ⟨companion_at_zero, companion_zero⟩
    · rw [basic, also] at bounded
      cases bounded
      trivial
    · rw [basic, companion_at_zero] at bounded
      cases bounded
      rw [companion_zero, add_zero] at balance
      rw [Status.atUpper_agreesWith_iff, capped, balance]
  · have lower : status = .atLower := by
      rcases companion.of_nonnegative with also | ⟨also, _⟩
      · rw [at_zero, also] at bounded
        cases bounded
        rfl
      · rw [at_zero, also] at bounded
        cases bounded
        rfl
    rw [lower, Status.atLower_agreesWith_iff, grounded, zero]

/-- The column that a reduction is about gets a status that tells the truth. -/
theorem Rewrite.own_column_agrees (rewrite : Rewrite settings p r q) (exact : p.Exact)
    (possible : r.statusBefore v = .ok w) (agrees : q.Agrees v x)
    (settled : ∀ l, r.settled? = some l → v.columns l = .fixed) (active : p.columns.get? j = some column)
    (own : r.ownColumn? = some j) : (w.columns j).AgreesWith column.bounds (.finite (r.pointBefore x j)) ∧
      (w.columns j = .free → r.pointBefore x j = 0) := by
  have proper := (exact.columns j column active).proper
  cases rewrite.atColumn active own with
  | splitFree free =>
    cases possible
    have positive := agrees.columns j _ (by
      rw [Program.columns_splitColumn, if_neg (Slots.ne_size active), if_pos rfl, active, Option.map_some])
    have negative := agrees.columns p.columns.size _ (by rw [Program.columns_splitColumn, if_pos rfl])
    rw [Valuation.columns_setColumn, if_pos rfl, Record.differenceStatus, Record.pointBefore,
      Function.update_self]
    split
    case isTrue nonbasic =>
      obtain ⟨first, second⟩ := Bool.and_eq_true_iff.1 nonbasic
      refine ⟨free, fun _ => ?_⟩
      rcases positive.of_nonnegative with basic | ⟨_, zero⟩
      · rw [basic] at first
        cases first
      · rcases negative.of_nonnegative with basic | ⟨_, also⟩
        · rw [basic] at second
          cases second
        · rw [zero, also, sub_zero]
    case isFalse => exact ⟨trivial, Status.noConfusion⟩
  | shiftLower finite =>
    cases possible
    have status := (agrees.columns j _ (by
      rw [Program.columns_shiftedColumn, if_pos rfl, active, Option.map_some])).of_range_above proper finite
    rw [Record.pointBefore, Function.update_self]
    exact ⟨status, fun free => absurd free (status.not_free proper (.inl finite))⟩
  | flipUpper finite =>
    cases possible
    have status := (agrees.columns j _ (by
      rw [Program.columns_flippedColumn, if_pos rfl, active, Option.map_some])).of_range_below proper finite
    rw [Record.pointBefore, Function.update_self, Valuation.columns_setColumn, if_pos rfl]
    exact ⟨status, fun free => absurd free (status.not_free proper (.inr finite))⟩
  | splitUpper grounded finite =>
    obtain ⟨status, bounded, rfl⟩ := Record.exists_of_statusBefore_splitUpper possible
    rw [eq_finite_of_isFinite finite] at agrees
    have truth := agrees.bounded_agrees active (eq_of_beq grounded) (eq_finite_of_isFinite finite) bounded
    rw [Valuation.columns_setColumn, if_pos rfl]
    exact ⟨truth, fun free => absurd free (truth.not_free proper (.inr finite))⟩
  | substituteFixed fixed finite =>
    cases possible
    obtain ⟨a, point⟩ := proper.eq_point fixed
    rw [Record.pointBefore, Function.update_self, Valuation.columns_setColumn, if_pos rfl, point]
    exact ⟨⟨rfl, rfl⟩, Status.noConfusion⟩
  | settleEmpty empty bounded =>
    cases possible
    have value : (Step.bestValue column.bounds column.cost).1 = .finite (x j) := agrees.eq_of_fixed
      (by rw [Program.columns_boundedColumn, if_pos rfl, active, Option.map_some]) (settled j rfl)
    obtain ⟨status, zero⟩ := Step.bestValue_agrees proper column.cost
    rw [value] at status zero
    rw [Valuation.columns_setColumn, if_pos rfl]
    exact ⟨status, fun free => ExtRat.finite.inj (zero free)⟩
  | settleSingleton row_active equality single =>
    obtain ⟨_, rfl⟩ := Record.statusBefore_settleSingleton possible
    rw [Valuation.columns_setRow, Valuation.columns_setColumn, if_pos rfl]
    exact ⟨trivial, Status.noConfusion⟩

/-- Undoing a record, the statuses tell the truth about the values. -/
theorem Rewrite.agrees_before (rewrite : Rewrite settings p r q) (exact : p.Exact)
    (possible : r.statusBefore v = .ok w) (settled : ∀ l, r.settled? = some l → v.columns l = .fixed)
    (agrees : q.Agrees v x) : p.Agrees w (r.pointBefore x) := by
  constructor
  · intro i row active
    by_cases own : r.ownRow? = some i
    · exact rewrite.own_row_agrees exact possible agrees active own
    · obtain ⟨row', found, carried⟩ := rewrite.carries_row exact x active own
      have truth := agrees.rows i row' found
      rw [carried.bounds] at truth
      rw [Record.statusBefore_rows possible own, carried.value]
      exact truth.of_shift (exact.rows i row active).proper
  · intro j column active
    by_cases own : r.ownColumn? = some j
    · exact (rewrite.own_column_agrees exact possible agrees settled active own).1
    · obtain ⟨column', found, carried⟩ := rewrite.carries_column exact x 0 active own
      rw [Record.statusBefore_columns possible (Record.restated?_ne own), r.pointBefore_of_ne own,
        ← carried.bounds]
      exact agrees.columns j column' found
  · intro j occupied free
    obtain ⟨column, active⟩ := Slots.isActive_iff.1 occupied
    by_cases own : r.ownColumn? = some j
    · exact (rewrite.own_column_agrees exact possible agrees settled active own).2 free
    · obtain ⟨column', found, _⟩ := rewrite.carries_column exact x 0 active own
      rw [r.pointBefore_of_ne own]
      rw [Record.statusBefore_columns possible (Record.restated?_ne own)] at free
      exact agrees.zeros j (Slots.isActive_of_eq_some found) free
  · intro i row held active
    by_cases own : r.ownRow? = some i
    -- A held row only goes when it settles its column, and then at the value that it asks for.
    · obtain ⟨j, c, value, rfl⟩ := rewrite.settles_of_held exact held own
      have truth := rewrite.own_row_agrees exact possible agrees active own
      obtain ⟨_, rfl⟩ := Record.statusBefore_settleSingleton possible
      rw [Valuation.rows_setRow, if_pos rfl] at truth
      rw [Bounds.contains_finite, truth.1, truth.2]
      exact ⟨finite_le_finite.2 le_rfl, finite_le_finite.2 le_rfl⟩
    · obtain ⟨row', found, carried⟩ := rewrite.carries_row exact x active own
      rw [← carried.contains_iff (exact.rows i row active).proper]
      exact agrees.held i row' (rewrite.held exact held own) found

end

/-! ## All records -/

section

variable {settings : Settings ExtRat} {p q : Program ExtRat} {records news : List (Record ExtRat)}
  {v w : Valuation Status} {x : Nat → ℚ}

theorem Move.agrees_before (move : Move settings p news q) (exact : p.Exact)
    (possible : news.foldlM Record.statusBefore v = .ok w) (agrees : q.Agrees v x) :
    p.Agrees w (news.foldl Record.pointBefore x) := by
  cases move with
  | single rewrite unsettled =>
    rw [List.foldlM_cons] at possible
    obtain ⟨between, first, rest⟩ := exists_of_bind_eq_ok possible
    cases rest
    exact rewrite.agrees_before exact first (fun l settles => by rw [unsettled] at settles; cases settles)
      agrees
  | @settled m r j column rewrite settles active fixed finite =>
    rw [List.foldlM_cons] at possible
    obtain ⟨between, first, rest⟩ := exists_of_bind_eq_ok possible
    rw [List.foldlM_cons] at rest
    obtain ⟨w, second, rest⟩ := exists_of_bind_eq_ok rest
    cases rest
    cases first
    -- The column is fixed by the time the record that tells why is undone.
    have removal : Rewrite settings m _ (m.substituted j column) := .substituteFixed active fixed finite
    have removed := removal.agrees_before (rewrite.exact exact) rfl nofun agrees
    refine rewrite.agrees_before exact second (fun l also => ?_) removed
    obtain rfl := Option.some.inj (settles.symm.trans also)
    rw [Valuation.columns_setColumn, if_pos rfl]

/-- Undoing all records, the statuses tell the truth about the values. -/
theorem History.agrees_before (history : History settings p records q) (exact : p.Exact)
    (possible : records.foldlM Record.statusBefore v = .ok w) (agrees : q.Agrees v x) :
    p.Agrees w (records.foldl Record.pointBefore x) := by
  induction history generalizing v x with
  | refl =>
    cases possible
    exact agrees
  | move before move inductionHypothesis =>
    rw [List.foldlM_append] at possible
    obtain ⟨between, first, rest⟩ := exists_of_bind_eq_ok possible
    rw [List.foldl_append]
    exact inductionHypothesis rest (move.agrees_before (before.rewrites.exact exact) first agrees)

end

end LinearReduction
