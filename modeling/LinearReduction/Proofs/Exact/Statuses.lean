import LinearReduction.Proofs.Exact.Directions
import LinearReduction.Proofs.Exact.Held
import Mathlib.Tactic.LinearCombination

/-!
# Bases before a reduction

A reduction changes the number of rows and columns, and undoing its record changes the number of statuses that
are basic. Points are followed in both directions: what vanishes outside of the basis before a reduction gives
what vanishes outside of it after the reduction, and a point with the right activities after it gives one
before it. A surplus takes the place of its row, a column and its companion take the place of the row that
they share, and a row that settled a column leaves the basis in exchange for that column. Main statement: a
basis in which all rows are nonbasic that are held is carried back by every reduction.
-/

namespace LinearReduction

open ExtRat

section

variable {settings : Settings ExtRat} {p q : Program ExtRat} {r : Record ExtRat} {v w : Valuation Status}
  {x x' y y' : Nat → ℚ} {i j k l : Nat} {row : Row ExtRat} {column : Column ExtRat}

/-! ## Points that vanish outside of the basis -/

/-- A difference before a reduction comes from one that vanishes outside of the basis after it. -/
def Record.Traces (r : Record ExtRat) (p q : Program ExtRat) (v : Valuation Status) (x : Nat → ℚ) : Prop :=
  ∃ x', q.Answers v 0 x' ∧ ∀ k, p.columns.isActive k = true → r.directionBefore x' k = x k

/-- Only the rows and columns that a reduction is about or adds have to be looked at. -/
theorem Rewrite.traces_of (rewrite : Rewrite settings p r q) (exact : p.Exact)
    (possible : r.statusBefore v = .ok w) (answers : p.Answers w 0 x) (x' : Nat → ℚ)
    (same : ∀ k, p.columns.isActive k = true → r.directionBefore x' k = x k)
    (own_columns : ∀ k, r.ownColumn? = some k → (v.columns k).isNonbasic = true → x' k = 0)
    (new_columns : ∀ k, r.newColumn? = some k → (v.columns k).isNonbasic = true → x' k = 0)
    (own_rows : ∀ l row', r.ownRow? = some l → q.rows.get? l = some row' → row'.entries.value x' = 0)
    (new_rows : ∀ l row', r.newRow? = some l → q.rows.get? l = some row' → row'.entries.value x' = 0) :
    r.Traces p q v x := by
  refine ⟨x', ⟨fun k active nonbasic => ?_, fun l row' found nonbasic => ?_⟩, same⟩
  · obtain ⟨column', found⟩ := Slots.isActive_iff.1 active
    by_cases own : r.ownColumn? = some k
    · exact own_columns k own nonbasic
    · cases before : p.columns.get? k with
      | none => exact new_columns k (rewrite.newColumn_of_none found before) nonbasic
      | some column =>
        have active_before := Slots.isActive_of_eq_some before
        rw [← Record.directionBefore_of_ne own x', same k active_before]
        exact answers.columns k active_before (by
          rwa [Record.statusBefore_columns possible (Record.restated?_ne own)])
  · by_cases own : r.ownRow? = some l
    · exact own_rows l row' own found
    · cases before : p.rows.get? l with
      | none => exact new_rows l row' (rewrite.newRow_of_none exact found before) found
      | some row =>
        obtain ⟨row'', found', value⟩ := rewrite.value_directionBefore exact x' before own
        obtain rfl := Option.some.inj (found.symm.trans found')
        rw [← value, exact.value_congr (fun k _ active => same k (Slots.isActive_of_eq_some active)) before]
        exact answers.rows l row before (by rwa [Record.statusBefore_rows possible own])

/-- A reduction that changes a single column leaves all rows as they are, apart from their bounds. -/
theorem Rewrite.traces_of_column (rewrite : Rewrite settings p r q) (exact : p.Exact)
    (possible : r.statusBefore v = .ok w) (answers : p.Answers w 0 x)
    (alone : r.newColumn? = none ∧ r.ownRow? = none ∧ r.newRow? = none) (x' : Nat → ℚ)
    (same : ∀ k, p.columns.isActive k = true → r.directionBefore x' k = x k)
    (own : ∀ k, r.ownColumn? = some k → (v.columns k).isNonbasic = true → x' k = 0) : r.Traces p q v x :=
  rewrite.traces_of exact possible answers x' same own (by simp [alone]) (by simp [alone]) (by simp [alone])

/-- A row that is left out was not needed. -/
theorem Rewrite.traces_of_row (rewrite : Rewrite settings p r (p.withoutRow i)) (exact : p.Exact)
    (possible : r.statusBefore v = .ok w) (answers : p.Answers w 0 x) (emptied : r.ownRow? = some i)
    (alone : r.ownColumn? = none ∧ r.newColumn? = none ∧ r.newRow? = none) :
    r.Traces p (p.withoutRow i) v x := by
  have kept : ∀ k, r.directionBefore x k = x k := fun k => r.directionBefore_of_ne (by simp [alone]) x
  refine rewrite.traces_of exact possible answers x (fun k _ => kept k) (by simp [alone]) (by simp [alone])
    (fun l row' own found => ?_) (by simp [alone])
  obtain rfl := Option.some.inj (emptied.symm.trans own)
  rw [Program.rows_withoutRow, if_pos rfl] at found
  cases found

theorem Rewrite.answers_before (rewrite : Rewrite settings p r q) (exact : p.Exact)
    (possible : r.statusBefore v = .ok w) (answers : q.Answers v y' x')
    (same : ∀ l, p.rows.isActive l = true → y' l = y l)
    (columns : ∀ k, r.ownColumn? = some k → (w.columns k).isNonbasic = true → r.directionBefore x' k = 0)
    (rows : ∀ l row, r.ownRow? = some l → p.rows.get? l = some row → (w.rows l).isNonbasic = true →
      row.entries.value (r.directionBefore x') = y l) : p.Answers w y (r.directionBefore x') := by
  constructor
  · intro k active nonbasic
    by_cases own : r.ownColumn? = some k
    · exact columns k own nonbasic
    · obtain ⟨column, before⟩ := Slots.isActive_iff.1 active
      obtain ⟨column', found, _⟩ := rewrite.carries_column exact 0 0 before own
      rw [r.directionBefore_of_ne own]
      exact answers.columns k (Slots.isActive_of_eq_some found) (by
        rwa [← Record.statusBefore_columns possible (Record.restated?_ne own)])
  · intro l row before nonbasic
    by_cases own : r.ownRow? = some l
    · exact rows l row own before nonbasic
    · obtain ⟨row', found, value⟩ := rewrite.value_directionBefore exact x' before own
      rw [value, ← same l (Slots.isActive_of_eq_some before)]
      exact answers.rows l row' found (by rwa [← Record.statusBefore_rows possible own])

theorem Rewrite.answers_before_of_column (rewrite : Rewrite settings p r q) (exact : p.Exact)
    (possible : r.statusBefore v = .ok w) (answers : q.Answers v y' x') (alone : r.ownRow? = none)
    (same : ∀ l, p.rows.isActive l = true → y' l = y l)
    (own : ∀ k, r.ownColumn? = some k → (w.columns k).isNonbasic = true → r.directionBefore x' k = 0) :
    p.Answers w y (r.directionBefore x') :=
  rewrite.answers_before exact possible answers same own (by simp [alone])

/-- A row that is left out is basic, and may have any activity. -/
theorem Rewrite.answers_before_of_row (rewrite : Rewrite settings p r q) (exact : p.Exact)
    (possible : r.statusBefore v = .ok w) (answers : q.Answers v y x') (alone : r.ownColumn? = none)
    (basic : ∀ l, r.ownRow? = some l → (w.rows l).isNonbasic = false) :
    p.Answers w y (r.directionBefore x') := by
  refine rewrite.answers_before exact possible answers (fun _ _ => rfl) (by simp [alone])
    fun l row own _ nonbasic => ?_
  rw [basic l own] at nonbasic
  cases nonbasic

/-! ## What vanishes after a reduction -/

theorem Record.isNonbasic_of_ranged {n : Nat} (ranged : r = .addSurplus i n ∨ r = .addSlack i n)
    (possible : r.statusBefore v = .ok w) : (w.rows i).isNonbasic = (v.columns n).isNonbasic := by
  rcases ranged with rfl | rfl
  · cases possible
    simp
  · cases possible
    simp

/-- The new column makes up for the activity of its row. -/
theorem Rewrite.traces_withRange {range : Bounds ExtRat} {c : ℚ} {b : ExtRat}
    (rewrite : Rewrite settings p r (p.withRange i range (.finite c) b))
    (ranged : r = .addSurplus i p.columns.size ∨ r = .addSlack i p.columns.size) (unit : c * c = 1)
    (exact : p.Exact) (active : p.rows.get? i = some row) (possible : r.statusBefore v = .ok w)
    (answers : p.Answers w 0 x) : r.Traces p (p.withRange i range (.finite c) b) v x := by
  have status := Record.isNonbasic_of_ranged ranged possible
  refine rewrite.traces_of exact possible answers
    (Function.update x p.columns.size (-c * row.entries.value x))
    (fun k inside => ?_) ?_ (fun k new nonbasic => ?_) (fun l row' own found => ?_) ?_
  · have apart : k ≠ p.columns.size := (Slots.lt_size_of_isActive inside).ne
    rcases ranged with rfl | rfl <;> exact Function.update_of_ne apart ..
  · rcases ranged with rfl | rfl <;> rintro _ ⟨⟩
  · obtain rfl : p.columns.size = k := by rcases ranged with rfl | rfl <;> exact Option.some.inj new
    rw [← status] at nonbasic
    rw [Function.update_self, answers.rows i row active nonbasic, Pi.zero_apply, mul_zero]
  · obtain rfl : i = l := by rcases ranged with rfl | rfl <;> exact Option.some.inj own
    rw [Program.rows_withRange, if_pos rfl, active] at found
    cases found
    have absent := exact.transposed.columns_size_not_mem active
    rw [Entries.value_append, Entries.value_update_of_not_mem absent, Entries.value_cons, Entries.value_nil,
      Function.update_self, toRat_finite]
    linear_combination -row.entries.value x * unit
  · rcases ranged with rfl | rfl <;> rintro _ _ ⟨⟩

/-- A column that is split takes the whole value if it is basic, and its opposite does otherwise. -/
theorem Rewrite.traces_splitFree (active : p.columns.get? j = some column)
    (rewrite : Rewrite settings p (.splitFree j p.columns.size) (p.splitColumn j column)) (exact : p.Exact)
    (answers : p.Answers (v.setColumn j (Record.differenceStatus
      ((v.columns j).isNonbasic && (v.columns p.columns.size).isNonbasic))) 0 x) :
    (Record.splitFree j p.columns.size).Traces p (p.splitColumn j column) v x := by
  have inside := Slots.ne_size active
  have zero := answers.columns j (Slots.isActive_of_eq_some active)
  rw [Valuation.columns_setColumn, if_pos rfl, Record.isNonbasic_difference] at zero
  obtain ⟨a, b, difference, own, new⟩ : ∃ a b : ℚ, a - b = x j ∧ ((v.columns j).isNonbasic = true → a = 0) ∧
      ((v.columns p.columns.size).isNonbasic = true → b = 0) := by
    cases nonbasic : (v.columns j).isNonbasic with
    | false => exact ⟨x j, 0, sub_zero _, nofun, fun _ => rfl⟩
    | true =>
      exact ⟨0, -x j, by ring, fun _ => rfl, fun also => by rw [zero (by rw [nonbasic, also]; rfl), neg_zero]⟩
  refine rewrite.traces_of exact rfl answers (Function.update (Function.update x p.columns.size b) j a)
    (fun k occupied => ?_) (fun k self nonbasic => ?_) (fun k last nonbasic => ?_)
    (by rintro _ _ ⟨⟩) (by rintro _ _ ⟨⟩)
  · have apart : k ≠ p.columns.size := (Slots.lt_size_of_isActive occupied).ne
    by_cases self : k = j
    · subst self
      simp [Record.directionBefore, apart.symm, difference]
    · simp [Record.directionBefore, self, apart]
  · cases self
    rw [Function.update_self, own nonbasic]
  · cases last
    rw [Function.update_of_ne inside.symm, Function.update_self, new nonbasic]

/-- The companion takes the opposite value, so that the two keep their sum. -/
theorem Rewrite.traces_splitUpper {u : ExtRat} (active : p.columns.get? j = some column)
    (rewrite : Rewrite settings p (.splitUpper j p.columns.size p.rows.size u) (p.cappedColumn j u))
    (exact : p.Exact) (possible : (Record.splitUpper j p.columns.size p.rows.size u).statusBefore v = .ok w)
    (answers : p.Answers w 0 x) :
    (Record.splitUpper j p.columns.size p.rows.size u).Traces p (p.cappedColumn j u) v x := by
  have inside := Slots.ne_size active
  obtain ⟨_, status⟩ := Record.statusBefore_splitUpper possible
  have zero := answers.columns j (Slots.isActive_of_eq_some active)
  rw [status, Bool.or_eq_true] at zero
  refine rewrite.traces_of exact possible answers (Function.update x p.columns.size (-x j))
    (fun k occupied => Function.update_of_ne (Slots.lt_size_of_isActive occupied).ne ..)
      (fun k self nonbasic => ?_)
    (fun k last nonbasic => ?_) (by rintro _ _ ⟨⟩) (fun l row' last found => ?_)
  · cases self
    rw [Function.update_of_ne inside, zero (.inl nonbasic)]
  · cases last
    rw [Function.update_self, zero (.inr nonbasic), neg_zero]
  · cases last
    rw [Program.rows_cappedColumn, if_pos rfl] at found
    cases found
    simp [Function.update_of_ne inside, one_eq]

/-- What vanishes outside of the basis before a reduction comes from something that does so after it. -/
theorem Rewrite.traces (rewrite : Rewrite settings p r q) (exact : p.Exact)
    (possible : r.statusBefore v = .ok w) (answers : p.Answers w 0 x) : r.Traces p q v x := by
  have whole := rewrite
  cases rewrite with
  | dropFreeRow active free => exact whole.traces_of_row exact possible answers rfl ⟨rfl, rfl, rfl⟩
  | addSurplus active finite inequality =>
    exact whole.traces_withRange (.inl rfl) (by norm_num) exact active possible answers
  | addSlack active finite inequality =>
    exact whole.traces_withRange (.inr rfl) (by norm_num) exact active possible answers
  | splitFree active free =>
    cases possible
    exact whole.traces_splitFree active exact answers
  | @shiftLower j column active finite =>
    cases possible
    refine whole.traces_of_column exact rfl answers ⟨rfl, rfl, rfl⟩ x (fun _ _ => rfl)
      fun k own nonbasic => ?_
    cases own
    exact answers.columns j (Slots.isActive_of_eq_some active) nonbasic
  | @flipUpper j column active finite =>
    cases possible
    refine whole.traces_of_column exact rfl answers ⟨rfl, rfl, rfl⟩ (Function.update x j (-x j))
      (fun k _ => ?_)
      fun k own nonbasic => ?_
    · by_cases self : k = j
      · subst self
        simp [Record.directionBefore]
      · simp [Record.directionBefore, self]
    · cases own
      have zero := answers.columns j (Slots.isActive_of_eq_some active) (by simpa using nonbasic)
      rw [Function.update_self, zero, neg_zero]
  | splitUpper active grounded finite => exact whole.traces_splitUpper active exact possible answers
  | @substituteFixed j column active fixed finite =>
    cases possible
    have zero : x j = 0 := answers.columns j (Slots.isActive_of_eq_some active) (by simp [Status.isNonbasic])
    refine whole.traces_of_column exact rfl answers ⟨rfl, rfl, rfl⟩ x (fun k _ => ?_) fun k own _ => ?_
    · rw [Record.directionBefore, ← zero, Function.update_eq_self]
    · cases own
      exact zero
  | dropEmptyRow active empty within => exact whole.traces_of_row exact possible answers rfl ⟨rfl, rfl, rfl⟩
  | @settleEmpty j column active empty bounded =>
    cases possible
    refine whole.traces_of_column exact rfl answers ⟨rfl, rfl, rfl⟩ x (fun _ _ => rfl) fun k own _ => ?_
    cases own
    exact answers.columns j (Slots.isActive_of_eq_some active) (by simp [Step.isNonbasic_bestValue])
  | @settleSingleton i j row column coefficient row_active equality single column_active admitted =>
    obtain ⟨_, rfl⟩ := Record.statusBefore_settleSingleton possible
    refine whole.traces_of exact possible answers x (fun _ _ => rfl) (fun k own _ => ?_) (by rintro _ ⟨⟩)
      (fun l row' own found => ?_) (by rintro _ _ ⟨⟩)
    · cases own
      -- The row is outside of the basis, and leaves nothing but zero to its only column.
      obtain ⟨_, nonzero⟩ := (exact.rows i row row_active).rational (j, coefficient) (by simp [single])
      have zero := answers.rows i row row_active (by simp [Status.isNonbasic])
      rw [single, Entries.value_cons, Entries.value_nil, add_zero] at zero
      exact (mul_eq_zero.1 zero).resolve_left nonzero
    · cases own
      rw [Program.rows_settledBy, if_pos rfl] at found
      cases found

/-- Nothing comes from nothing. -/
theorem Rewrite.directionBefore_eq_zero (rewrite : Rewrite settings p r q)
    (zero : ∀ k, q.columns.isActive k = true → x k = 0) (active : p.columns.isActive k = true) :
    r.directionBefore x k = 0 := by
  have restored := rewrite.columns_restored
  have updated : ∀ {j : Nat} {a : ℚ}, a = 0 → (k ≠ j → x k = 0) → Function.update x j a k = 0 := by
    rintro j a rfl other
    by_cases self : k = j
    · subst self
      exact Function.update_self ..
    · rw [Function.update_of_ne self, other self]
  cases rewrite with
  | @splitFree j column found free =>
    have own := zero j (restored.isActive (Slots.isActive_of_eq_some found))
    have new := zero _ (Program.isActive_splitColumn j column)
    exact updated (by rw [own, new, sub_zero]) fun _ => zero k (restored.isActive active)
  | @flipUpper j column found finite =>
    have own := zero j (restored.isActive (Slots.isActive_of_eq_some found))
    exact updated (by rw [own, neg_zero]) fun _ => zero k (restored.isActive active)
  | @substituteFixed j column found fixed finite =>
    refine updated rfl fun other => zero k ?_
    rw [Slots.isActive, Program.columns_substituted, if_neg other.symm]
    exact active
  | _ => exact zero k (restored.isActive active)

theorem Rewrite.unique_before (rewrite : Rewrite settings p r q) (exact : p.Exact)
    (possible : r.statusBefore v = .ok w) (based : q.Based v) (answers : p.Answers w 0 x)
    (active : p.columns.isActive k = true) : x k = 0 := by
  obtain ⟨x', answers', same⟩ := rewrite.traces exact possible answers
  rw [← same k active]
  exact rewrite.directionBefore_eq_zero (based.unique x' answers') active

/-! ## Activities before a reduction -/

/-- A basis outside of which all rows are that are held. -/
structure Program.Stands (p : Program ExtRat) (v : Valuation Status) : Prop where
  based : p.Based v
  held : ∀ i, p.Held i → (v.rows i).isNonbasic = true

/-- The row is outside of the basis after the reduction, whether or not it was before. -/
theorem Rewrite.solvable_withRange {range : Bounds ExtRat} {c b : ℚ}
    (rewrite : Rewrite settings p r (p.withRange i range (.finite c) (.finite b)))
    (ranged : r = .addSurplus i p.columns.size ∨ r = .addSlack i p.columns.size) (exact : p.Exact)
    (active : p.rows.get? i = some row) (roomy : range.Roomy) (possible : r.statusBefore v = .ok w)
    (stands : (p.withRange i range (.finite c) (.finite b)).Stands v) (y : Nat → ℚ) :
    ∃ x, p.Answers w y x := by
  obtain ⟨x', answers⟩ := stands.based.solvable y
  have status := Record.isNonbasic_of_ranged ranged possible
  have whole : r.directionBefore x' = x' := by rcases ranged with rfl | rfl <;> rfl
  refine ⟨_, rewrite.answers_before exact possible answers (fun _ _ => rfl) ?_
    fun l other own found nonbasic => ?_⟩
  · rcases ranged with rfl | rfl <;> rintro _ ⟨⟩
  · obtain rfl : i = l := by rcases ranged with rfl | rfl <;> exact Option.some.inj own
    obtain rfl := Option.some.inj (active.symm.trans found)
    have held := stands.held i (Program.held_withRange active roomy (.finite c) b)
    have activity :=
      answers.rows i _ (by rw [Program.rows_withRange, if_pos rfl, active, Option.map_some]) held
    have zero := answers.columns p.columns.size (Program.isActive_withRange ..) (status ▸ nonbasic)
    rw [Entries.value_append, Entries.value_cons, Entries.value_nil, zero, mul_zero, add_zero,
      add_zero] at activity
    rw [whole, activity]

/-- The column and its companion add up to zero in the row that they share. -/
theorem Rewrite.solvable_splitUpper {u : ℚ} (active : p.columns.get? j = some column)
    (rewrite : Rewrite settings p (.splitUpper j p.columns.size p.rows.size (.finite u))
      (p.cappedColumn j (.finite u))) (exact : p.Exact)
    (possible : (Record.splitUpper j p.columns.size p.rows.size (ExtRat.finite u)).statusBefore v = .ok w)
    (stands : (p.cappedColumn j (.finite u)).Stands v) (y : Nat → ℚ) : ∃ x, p.Answers w y x := by
  obtain ⟨x', answers⟩ := stands.based.solvable (Function.update y p.rows.size 0)
  obtain ⟨_, status⟩ := Record.statusBefore_splitUpper possible
  have inside := Slots.lt_size active
  have held := stands.held _ (Program.held_cappedColumn active u)
  have sum := answers.rows p.rows.size _ (by rw [Program.rows_cappedColumn, if_pos rfl]) held
  rw [Function.update_self] at sum
  have own := answers.columns j (by
    rw [Slots.isActive, Program.columns_cappedColumn _ inside, if_neg inside.ne, if_pos rfl, active]
    rfl)
  have new := answers.columns p.columns.size (Program.isActive_cappedColumn inside)
  refine ⟨_, rewrite.answers_before_of_column exact possible answers rfl (fun l occupied => ?_)
    fun k self nonbasic => ?_⟩
  · exact Function.update_of_ne (Slots.lt_size_of_isActive occupied).ne ..
  · cases self
    rw [status, Bool.or_eq_true] at nonbasic
    change x' j = 0
    rcases nonbasic with nonbasic | nonbasic
    · exact own nonbasic
    · simpa [one_eq, new nonbasic] using sum

/-- The row that settled a column asks for a value of the column, which the other rows have to allow for. -/
theorem Rewrite.solvable_settleSingleton {value c : ExtRat} (exact : p.Exact)
    (row_active : p.rows.get? i = some row) (single : row.entries = [(j, c)])
    (column_active : p.columns.get? j = some column) (fixed : v.columns j = .fixed)
    (based : (p.settledBy i j value).Based v) (y : Nat → ℚ) :
    ∃ x, p.Answers ((v.setColumn j .basic).setRow i .fixed) y x := by
  obtain ⟨_, nonzero⟩ := (exact.rows i row row_active).rational (j, c) (by simp [single])
  change c.toRat ≠ 0 at nonzero
  have active_after : ∀ k, p.columns.isActive k = true →
      (p.settledBy i j value).columns.isActive k = true := by
    intro k active
    rwa [Slots.isActive, Program.columns_settledBy, Option.isSome_map]
  obtain ⟨x', answers⟩ := based.solvable fun l => y l - column.entries.coefficient l * (y i / c.toRat)
  have zero := answers.columns j (active_after j (Slots.isActive_of_eq_some column_active))
    (by rw [fixed]; rfl)
  refine ⟨Function.update x' j (y i / c.toRat), fun k active nonbasic => ?_,
    fun l other active nonbasic => ?_⟩
  · by_cases self : k = j
    · subst self
      simp [Status.isNonbasic] at nonbasic
    · rw [Function.update_of_ne self]
      refine answers.columns k (active_after k active) ?_
      simpa [self] using nonbasic
  · by_cases own : l = i
    · subst own
      obtain rfl := Option.some.inj (row_active.symm.trans active)
      rw [single, Entries.value_cons, Entries.value_nil, Function.update_self, add_zero,
        mul_div_cancel₀ _ nonzero]
    · have found : (p.settledBy i j value).rows.get? l = some other := by
        rw [Program.rows_settledBy, if_neg (Ne.symm own), active]
      have activity := answers.rows l other found (by simpa [own] using nonbasic)
      rw [Entries.value_update (exact.transposed.rows_nodup l other active), activity, zero,
        exact.transposed.coefficient_eq active column_active]
      ring

/-- A column without coefficients can't be basic, as any value of it would vanish outside of the basis. -/
theorem Program.Based.isNonbasic_of_empty (based : p.Based v) (exact : p.Exact)
    (active : p.columns.get? j = some column) (empty : column.entries = []) :
    (v.columns j).isNonbasic = true := by
  by_contra basic
  have answers : p.Answers v 0 (Function.update 0 j 1) := by
    refine ⟨fun k _ nonbasic => ?_, fun i row row_active _ => ?_⟩
    · refine Function.update_of_ne ?_ ..
      rintro rfl
      exact basic nonbasic
    · rw [Entries.value_update_of_not_mem (exact.empty_not_mem active empty row_active), Entries.value_zero]
      rfl
  have zero := based.unique _ answers j (Slots.isActive_of_eq_some active)
  rw [Function.update_self] at zero
  exact one_ne_zero zero

theorem Rewrite.solvable_before (rewrite : Rewrite settings p r q) (exact : p.Exact)
    (possible : r.statusBefore v = .ok w) (stands : q.Stands v) (y : Nat → ℚ) : ∃ x, p.Answers w y x := by
  have whole := rewrite
  have restored := rewrite.columns_restored
  obtain ⟨x', answers⟩ := stands.based.solvable y
  cases rewrite with
  | @dropFreeRow i row active free =>
    cases possible
    refine ⟨_, whole.answers_before_of_row exact rfl answers rfl fun l own => ?_⟩
    cases own
    simp [Status.isNonbasic]
  | @addSurplus i row active finite inequality =>
    have roomy := Bounds.Roomy.of_range (exact.rows i row active).proper (.inl finite) inequality
    rw [eq_finite_of_isFinite finite] at whole stands
    exact whole.solvable_withRange (.inl rfl) exact active roomy possible stands y
  | @addSlack i row active finite inequality =>
    have roomy := Bounds.Roomy.of_range (exact.rows i row active).proper (.inr finite) inequality
    rw [eq_finite_of_isFinite finite] at whole stands
    exact whole.solvable_withRange (.inr rfl) exact active roomy possible stands y
  | @splitFree j column active free =>
    cases possible
    refine ⟨_, whole.answers_before_of_column exact rfl answers rfl (fun _ _ => rfl) fun k own nonbasic => ?_⟩
    cases own
    rw [Valuation.columns_setColumn, if_pos rfl, Record.isNonbasic_difference, Bool.and_eq_true] at nonbasic
    have zero := answers.columns j (restored.isActive (Slots.isActive_of_eq_some active)) nonbasic.1
    have opposite := answers.columns _ (Program.isActive_splitColumn j column) nonbasic.2
    rw [Record.directionBefore, Function.update_self, zero, opposite, sub_zero]
  | @shiftLower j column active finite =>
    cases possible
    refine ⟨_, whole.answers_before_of_column exact rfl answers rfl (fun _ _ => rfl) fun k own nonbasic => ?_⟩
    cases own
    exact answers.columns j (restored.isActive (Slots.isActive_of_eq_some active)) nonbasic
  | @flipUpper j column active finite =>
    cases possible
    refine ⟨_, whole.answers_before_of_column exact rfl answers rfl (fun _ _ => rfl) fun k own nonbasic => ?_⟩
    cases own
    have zero := answers.columns j (restored.isActive (Slots.isActive_of_eq_some active))
      (by simpa using nonbasic)
    rw [Record.directionBefore, Function.update_self, zero, neg_zero]
  | splitUpper active grounded finite =>
    rw [eq_finite_of_isFinite finite] at whole stands possible
    exact whole.solvable_splitUpper active exact possible stands y
  | @substituteFixed j column active fixed finite =>
    refine ⟨_, whole.answers_before_of_column exact possible answers rfl (fun _ _ => rfl) fun k own _ => ?_⟩
    cases own
    exact Function.update_self ..
  | @dropEmptyRow i row active empty within =>
    cases possible
    refine ⟨_, whole.answers_before_of_row exact rfl answers rfl fun l own => ?_⟩
    cases own
    simp [Status.isNonbasic]
  | @settleEmpty j column active empty bounded =>
    refine ⟨_, whole.answers_before_of_column exact possible answers rfl (fun _ _ => rfl) fun k own _ => ?_⟩
    cases own
    have found : (p.boundedColumn j (.point (Step.bestValue column.bounds column.cost).1)).columns.get? j =
        some { column with bounds := .point (Step.bestValue column.bounds column.cost).1 } := by
      rw [Program.columns_boundedColumn, if_pos rfl, active, Option.map_some]
    have nonbasic := stands.based.isNonbasic_of_empty (whole.exact exact) found empty
    exact answers.columns j (Slots.isActive_of_eq_some found) nonbasic
  | settleSingleton row_active equality single column_active admitted =>
    obtain ⟨fixed, rfl⟩ := Record.statusBefore_settleSingleton possible
    exact Rewrite.solvable_settleSingleton exact row_active single column_active fixed stands.based y

/-! ## Bases -/

/-- Undoing a record carries a basis back. -/
theorem Rewrite.stands_before (rewrite : Rewrite settings p r q) (exact : p.Exact)
    (possible : r.statusBefore v = .ok w) (stands : q.Stands v) : p.Stands w := by
  refine ⟨⟨fun x answers k active => rewrite.unique_before exact possible stands.based answers active,
    rewrite.solvable_before exact possible stands⟩, fun i held => ?_⟩
  by_cases own : r.ownRow? = some i
  · obtain ⟨j, c, value, rfl⟩ := rewrite.settles_of_held exact held own
    obtain ⟨_, rfl⟩ := Record.statusBefore_settleSingleton possible
    rw [Valuation.rows_setRow, if_pos rfl]
    rfl
  · rw [Record.statusBefore_rows possible own]
    exact stands.held i (rewrite.held exact held own)

theorem Rewrites.stands_before {records : List (Record ExtRat)} (rewrites : Rewrites settings p records q)
    (exact : p.Exact) (possible : records.foldlM Record.statusBefore v = .ok w) (stands : q.Stands v) :
    p.Stands w := by
  induction rewrites generalizing v with
  | refl =>
    cases possible
    exact stands
  | rewrite before rewrite inductionHypothesis =>
    rw [List.foldlM_cons] at possible
    obtain ⟨between, first, rest⟩ := exists_of_bind_eq_ok possible
    exact inductionHypothesis rest (rewrite.stands_before (before.exact exact) first stands)

end

end LinearReduction
