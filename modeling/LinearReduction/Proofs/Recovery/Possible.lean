import LinearReduction.Proofs.Recovery.Replayed

/-!
# Possible statuses

When the upper bound of a column is moved into a row, the column and its companion are the nonnegative columns
of an equality row. As long as both are there, that row keeps them from getting any other bounds, and it only
goes when it settles one of them, which makes that one basic. So the statuses of the two always have an
answer. Main statement: `recover_succeeds_iff`, which tells when a solution is recovered.
-/

namespace LinearReduction

variable {α : Type} [Scalar α]

theorem Row.equality_absorbing {row : Row α} (equality : ∃ value, row.bounds = .point value)
    (share : Option α) (amount : α) : ∃ value, (row.absorbing share amount).bounds = .point value := by
  obtain ⟨value, bounds⟩ := equality
  cases share with
  | none => exact ⟨value, bounds⟩
  | some coefficient =>
    refine ⟨value - coefficient * amount, ?_⟩
    rw [Row.absorbing, bounds]
    rfl

/-! ## Nonnegative columns -/

namespace Bounds

variable [LawfulScalar α] {b : Bounds α}

theorem ne_nonnegative_of_isFree (free : b.isFree = true) : b ≠ .nonnegative := by
  rintro rfl
  simp only [isFree, nonnegative, Bool.and_eq_true] at free
  exact LawfulScalar.zero_ne_negInf (LawfulScalar.eq_negInf free.1)

theorem ne_nonnegative_of_isPoint (fixed : b.isPoint = true) : b ≠ .nonnegative := by
  rintro rfl
  exact LawfulScalar.zero_ne_posInf (LawfulScalar.eq_posInf fixed)

theorem ne_nonnegative_of_isFinite (finite : Scalar.isFinite b.upper = true) : b ≠ .nonnegative := by
  rintro rfl
  exact Bool.false_ne_true (LawfulScalar.isFinite_posInf.symm.trans finite)

/-- Measured from zero, a nonnegative column stays as it is. -/
theorem range_nonnegative : (Bounds.nonnegative : Bounds α).range = .nonnegative := by
  rw [range, nonnegative, LawfulScalar.posInf_sub_zero]

end Bounds

/-! ## Equality rows of nonnegative columns -/

namespace Program

/-- An equality row in which all columns are nonnegative and have no upper bound. -/
structure BalancesAt (p : Program α) (i : Nat) (row : Row α) : Prop where
  active : p.rows.get? i = some row
  equality : ∃ value, row.bounds = .point value
  nonnegative : ∀ k ∈ row.entries.ordinals, ∃ column, p.columns.get? k = some column ∧
    column.bounds = .nonnegative

/-- A column in an equality row of nonnegative columns. -/
def Halved (p : Program α) (j : Nat) : Prop :=
  ∃ i row, p.BalancesAt i row ∧ j ∈ row.entries.ordinals

namespace BalancesAt

variable {p q : Program α} {i l : Nat} {row row' : Row α} {column : Column α}

theorem nonnegative_of_mem (balanced : p.BalancesAt i row) (active : p.columns.get? l = some column)
    (listed : l ∈ row.entries.ordinals) : column.bounds = .nonnegative := by
  obtain ⟨other, found, nonnegative⟩ := balanced.nonnegative l listed
  rw [active] at found
  cases found
  exact nonnegative

/-- A row stays an equality of nonnegative columns if it loses columns and those that it keeps stay the
    same. -/
theorem keep (balanced : p.BalancesAt i row) (active : q.rows.get? i = some row')
    (equality : ∃ value, row'.bounds = .point value)
    (fewer : ∀ k ∈ row'.entries.ordinals, k ∈ row.entries.ordinals)
    (columns : ∀ k ∈ row'.entries.ordinals, ∀ column, p.columns.get? k = some column →
      column.bounds = .nonnegative →
      ∃ column', q.columns.get? k = some column' ∧ column'.bounds = .nonnegative) : q.BalancesAt i row' := by
  refine ⟨active, equality, fun k listed => ?_⟩
  obtain ⟨column, found, nonnegative⟩ := balanced.nonnegative k (fewer k listed)
  exact columns k listed column found nonnegative

theorem withoutRow (balanced : p.BalancesAt i row) (apart : l ≠ i) : (p.withoutRow l).BalancesAt i row := by
  refine balanced.keep ?_ balanced.equality (fun _ listed => listed) fun k _ column found nonnegative => ?_
  · rw [rows_withoutRow, if_neg apart, balanced.active]
  · refine ⟨{ column with entries := column.entries.erase l }, ?_, nonnegative⟩
    rw [columns_withoutRow, found, Option.map_some]

theorem withRange (balanced : p.BalancesAt i row) (apart : l ≠ i) {range : Bounds α} {coefficient bound : α} :
    (p.withRange l range coefficient bound).BalancesAt i row := by
  refine balanced.keep ?_ balanced.equality (fun _ listed => listed) fun k _ column found nonnegative => ?_
  · rw [rows_withRange, if_neg apart, balanced.active]
  · refine ⟨column, ?_, nonnegative⟩
    rw [columns_withRange, if_neg (Slots.ne_size found), found]

theorem splitColumn (balanced : p.BalancesAt i row) (same : p.Transposed)
    (active : p.columns.get? l = some column) (absent : l ∉ row.entries.ordinals) :
    (p.splitColumn l column).BalancesAt i row := by
  refine balanced.keep ?_ balanced.equality (fun _ listed => listed)
    fun k listed other found nonnegative => ?_
  · rw [rows_splitColumn _ (same.columns_nodup l column active), balanced.active, Option.map_some,
      Entries.lookup_eq_none_iff.2]
    · rfl
    · rwa [Entries.ordinals_negate, ← same.mem_ordinals_iff balanced.active active]
  · have apart : l ≠ k := fun same => absent (same ▸ listed)
    refine ⟨other, ?_, nonnegative⟩
    rw [columns_splitColumn, if_neg (Slots.ne_size found), if_neg apart, found]

theorem flippedColumn (balanced : p.BalancesAt i row) (same : p.Transposed)
    (active : p.columns.get? l = some column) (absent : l ∉ row.entries.ordinals) :
    ∃ row', (p.flippedColumn l column).BalancesAt i row' ∧
      row'.entries.ordinals = row.entries.ordinals := by
  refine ⟨{ row.absorbing (column.entries.lookup i) column.bounds.upper with
    entries := row.entries.negateAt l }, ?_, Entries.ordinals_negateAt _ _⟩
  refine balanced.keep ?_ (Row.equality_absorbing balanced.equality _ _) (fun k listed => ?_)
    fun k listed other found nonnegative => ?_
  · rw [rows_flippedColumn _ (same.columns_nodup l column active), balanced.active, Option.map_some]
  · rwa [Entries.ordinals_negateAt] at listed
  · rw [Entries.ordinals_negateAt] at listed
    have apart : l ≠ k := fun same => absent (same ▸ listed)
    exact ⟨other, by rw [columns_flippedColumn, if_neg apart, found], nonnegative⟩

theorem cappedColumn (balanced : p.BalancesAt i row) (active : p.columns.get? l = some column)
    (absent : l ∉ row.entries.ordinals) {bound : α} : (p.cappedColumn l bound).BalancesAt i row := by
  refine balanced.keep ?_ balanced.equality (fun _ listed => listed)
    fun k listed other found nonnegative => ?_
  · rw [rows_cappedColumn, if_neg (Slots.ne_size balanced.active), balanced.active]
  · have apart : l ≠ k := fun same => absent (same ▸ listed)
    refine ⟨other, ?_, nonnegative⟩
    rw [columns_cappedColumn _ (Slots.lt_size active), if_neg (Slots.ne_size found), if_neg apart, found]

theorem shiftedColumn [LawfulScalar α] (balanced : p.BalancesAt i row) (same : p.Transposed)
    (active : p.columns.get? l = some column) : ∃ row', (p.shiftedColumn l column).BalancesAt i row' ∧
      row'.entries = row.entries := by
  refine ⟨row.absorbing (column.entries.lookup i) column.bounds.lower, ?_, Row.entries_absorbing ..⟩
  refine balanced.keep ?_ (Row.equality_absorbing balanced.equality _ _) (fun k listed => ?_)
    fun k listed other found nonnegative => ?_
  · rw [rows_shiftedColumn _ (same.columns_nodup l column active), balanced.active, Option.map_some]
  · rwa [Row.entries_absorbing] at listed
  · by_cases shifted : l = k
    · subst shifted
      obtain rfl := Option.some.inj (active.symm.trans found)
      refine ⟨{ column with bounds := column.bounds.range }, ?_, ?_⟩
      · rw [columns_shiftedColumn, if_pos rfl, found, Option.map_some]
      · rw [nonnegative, Bounds.range_nonnegative]
    · exact ⟨other, by rw [columns_shiftedColumn, if_neg shifted, found], nonnegative⟩

/-- A column that is taken out of all rows leaves the others in the row. What bounds it had doesn't matter. -/
theorem of_substituted (same : p.Transposed) (row_active : p.rows.get? i = some row)
    (equality : ∃ value, row.bounds = .point value)
    (nonnegative : ∀ k ∈ row.entries.ordinals, k ≠ l →
      ∃ column, p.columns.get? k = some column ∧ column.bounds = .nonnegative)
    (active : p.columns.get? l = some column) :
    ∃ row', (p.substituted l column).BalancesAt i row' ∧ ∀ k ∈ row.entries.ordinals, k ≠ l →
      k ∈ row'.entries.ordinals := by
  have distinct := same.rows_nodup i row row_active
  refine ⟨{ row.absorbing (column.entries.lookup i) column.bounds.lower with entries := row.entries.erase l },
    ?_, ?_⟩
  · refine ⟨?_, Row.equality_absorbing equality _ _, fun k listed => ?_⟩
    · rw [rows_substituted _ (same.columns_nodup l column active), row_active, Option.map_some]
    · obtain ⟨apart, listed⟩ := (Entries.mem_ordinals_erase distinct).1 listed
      obtain ⟨other, found, bounds⟩ := nonnegative k listed apart
      exact ⟨other, by rw [columns_substituted, if_neg (Ne.symm apart), found], bounds⟩
  · exact fun k listed apart => (Entries.mem_ordinals_erase distinct).2 ⟨apart, listed⟩

variable [LawfulScalar α]

theorem not_isFree (balanced : p.BalancesAt i row) : row.bounds.isFree = false := by
  obtain ⟨value, bounds⟩ := balanced.equality
  rw [bounds, Bool.eq_false_iff]
  intro free
  simp only [Bounds.isFree, Bounds.point, Bool.and_eq_true] at free
  exact LawfulScalar.posInf_ne_negInf
    ((LawfulScalar.eq_posInf free.2).symm.trans (LawfulScalar.eq_negInf free.1))

theorem not_lt (balanced : p.BalancesAt i row) : ¬ row.bounds.lower < row.bounds.upper := by
  obtain ⟨value, bounds⟩ := balanced.equality
  rw [bounds]
  exact LawfulScalar.lt_irrefl value

theorem not_mem_of_isFree (balanced : p.BalancesAt i row) (active : p.columns.get? l = some column)
    (free : column.bounds.isFree = true) : l ∉ row.entries.ordinals := by
  intro listed
  exact Bounds.ne_nonnegative_of_isFree free (balanced.nonnegative_of_mem active listed)

theorem not_mem_of_isPoint (balanced : p.BalancesAt i row) (active : p.columns.get? l = some column)
    (fixed : column.bounds.isPoint = true) : l ∉ row.entries.ordinals := by
  intro listed
  exact Bounds.ne_nonnegative_of_isPoint fixed (balanced.nonnegative_of_mem active listed)

theorem not_mem_of_isFinite (balanced : p.BalancesAt i row) (active : p.columns.get? l = some column)
    (finite : Scalar.isFinite column.bounds.upper = true) : l ∉ row.entries.ordinals := by
  intro listed
  exact Bounds.ne_nonnegative_of_isFinite finite (balanced.nonnegative_of_mem active listed)

end BalancesAt

end Program

/-! ## Statuses that a record changes -/

omit [Scalar α] in
theorem Record.of_settled?_eq_some {r : Record α} {l : Nat} (settles : r.settled? = some l) :
    (∃ value status, r = .settleEmpty l value status) ∨
      ∃ i coefficient value, r = .settleSingleton i l coefficient value := by
  cases r with
  | settleEmpty j value status =>
    cases settles
    exact .inl ⟨value, status, rfl⟩
  | settleSingleton i j coefficient value =>
    cases settles
    exact .inr ⟨i, coefficient, value, rfl⟩
  | _ => cases settles

/-- The column whose status a record changes. -/
def Record.restated? : Record α → Option Nat
  | .splitFree j _ | .flipUpper j _ _ | .splitUpper j _ _ _ | .substituteFixed j _ _ _ | .settleEmpty j _ _
  | .settleSingleton _ j _ _ => some j
  | _ => none

omit [Scalar α] in
theorem Record.statusBefore_columns {r : Record α} {v w : Valuation Status} {j : Nat}
    (possible : r.statusBefore v = .ok w) (other : r.restated? ≠ some j) : w.columns j = v.columns j := by
  have apart : ∀ k, some k ≠ some j → ∀ value, (v.setColumn k value).columns j = v.columns j := by
    intro k distinct value
    rw [Valuation.columns_setColumn, if_neg fun same => distinct (congrArg some same.symm)]
  cases r with
  | dropFreeRow | dropEmptyRow | addSurplus | addSlack | shiftLower =>
    cases possible
    rfl
  | splitFree k | flipUpper k | substituteFixed k | settleEmpty k =>
    cases possible
    exact apart k other _
  | splitUpper k companion =>
    rw [statusBefore] at possible
    cases status : (boundedStatus (v.columns k) (v.columns companion) : Except (Fault α) Status) with
    | error fault =>
      rw [status] at possible
      cases possible
    | ok status' =>
      rw [status] at possible
      cases possible
      exact apart k other status'
  | settleSingleton i k =>
    rw [statusBefore] at possible
    split at possible
    · cases possible
      exact apart k other .basic
    · cases possible

omit [Scalar α] in
/-- A column that a row settled is a fixed one by the time when the row gets its status. -/
theorem Record.statusBefore_setColumn_fixed (v : Valuation Status) (i j : Nat) (coefficient value : α) :
    (settleSingleton i j coefficient value).statusBefore (v.setColumn j .fixed) =
      .ok (((v.setColumn j .fixed).setColumn j .basic).setRow i .fixed) := by
  have fixed : (v.setColumn j .fixed).columns j = .fixed := if_pos rfl
  rw [statusBefore, if_pos fixed]

omit [Scalar α] in
theorem Record.restated?_ne {r : Record α} {k : Nat} (other : r.ownColumn? ≠ some k) :
    r.restated? ≠ some k := by
  cases r with
  | splitFree | flipUpper | splitUpper | substituteFixed | settleEmpty | settleSingleton => exact other
  | _ => exact nofun

omit [Scalar α] in
theorem Record.statusBefore_rows {r : Record α} {v w : Valuation Status} {l : Nat}
    (possible : r.statusBefore v = .ok w) (other : r.ownRow? ≠ some l) : w.rows l = v.rows l := by
  have apart : ∀ i, some i ≠ some l → ∀ value, (v.setRow i value).rows l = v.rows l := by
    intro i distinct value
    rw [Valuation.rows_setRow, if_neg fun same => distinct (congrArg some same.symm)]
  cases r with
  | dropFreeRow i | dropEmptyRow i | addSurplus i | addSlack i =>
    cases possible
    exact apart i other _
  | splitFree | shiftLower | flipUpper | substituteFixed | settleEmpty =>
    cases possible
    rfl
  | splitUpper k companion =>
    rw [statusBefore] at possible
    cases status : (boundedStatus (v.columns k) (v.columns companion) : Except (Fault α) Status) with
    | error fault =>
      rw [status] at possible
      cases possible
    | ok status' =>
      rw [status] at possible
      cases possible
      rfl
  | settleSingleton i k =>
    rw [statusBefore] at possible
    split at possible
    · cases possible
      exact apart i other .fixed
    · cases possible

section

variable [LawfulScalar α] {settings : Settings α} {p q : Program α} {r : Record α} {j : Nat}

/-- A reduction that settles no column leaves a halved column halved, and its status unchanged. -/
theorem Rewrite.halved (rewrite : Rewrite settings p r q) (same : p.Transposed)
    (unsettled : r.settled? = none) (halved : p.Halved j) : q.Halved j ∧ r.restated? ≠ some j := by
  obtain ⟨i, row, balanced, listed⟩ := halved
  cases rewrite with
  | @dropFreeRow l other active free =>
    have apart : l ≠ i := by
      rintro rfl
      obtain rfl := Option.some.inj (active.symm.trans balanced.active)
      rw [balanced.not_isFree] at free
      cases free
    exact ⟨⟨i, row, balanced.withoutRow apart, listed⟩, nofun⟩
  | @addSurplus l other active finite inequality =>
    have apart : l ≠ i := by
      rintro rfl
      obtain rfl := Option.some.inj (active.symm.trans balanced.active)
      exact balanced.not_lt inequality
    exact ⟨⟨i, row, balanced.withRange apart, listed⟩, nofun⟩
  | @addSlack l other active finite inequality =>
    have apart : l ≠ i := by
      rintro rfl
      obtain rfl := Option.some.inj (active.symm.trans balanced.active)
      exact balanced.not_lt inequality
    exact ⟨⟨i, row, balanced.withRange apart, listed⟩, nofun⟩
  | @splitFree l column active free =>
    have absent := balanced.not_mem_of_isFree active free
    refine ⟨⟨i, row, balanced.splitColumn same active absent, listed⟩, ?_⟩
    rintro ⟨⟩
    exact absent listed
  | @shiftLower l column active finite =>
    obtain ⟨row', balanced', entries⟩ := balanced.shiftedColumn same active
    exact ⟨⟨i, row', balanced', entries ▸ listed⟩, nofun⟩
  | @flipUpper l column active finite =>
    have absent := balanced.not_mem_of_isFinite active finite
    obtain ⟨row', balanced', ordinals⟩ := balanced.flippedColumn same active absent
    refine ⟨⟨i, row', balanced', ordinals ▸ listed⟩, ?_⟩
    rintro ⟨⟩
    exact absent listed
  | @splitUpper l column active grounded finite =>
    have absent := balanced.not_mem_of_isFinite active finite
    refine ⟨⟨i, row, balanced.cappedColumn active absent, listed⟩, ?_⟩
    rintro ⟨⟩
    exact absent listed
  | @substituteFixed l column active fixed finite =>
    have absent := balanced.not_mem_of_isPoint active fixed
    have apart : j ≠ l := fun same => absent (same ▸ listed)
    obtain ⟨row', balanced', kept⟩ := Program.BalancesAt.of_substituted same balanced.active balanced.equality
      (fun k listed _ => balanced.nonnegative k listed) active
    refine ⟨⟨i, row', balanced', kept j listed apart⟩, ?_⟩
    rintro ⟨⟩
    exact apart rfl
  | @dropEmptyRow l other active empty within =>
    have apart : l ≠ i := by
      rintro rfl
      obtain rfl := Option.some.inj (active.symm.trans balanced.active)
      rw [empty] at listed
      cases listed
    exact ⟨⟨i, row, balanced.withoutRow apart, listed⟩, nofun⟩
  | settleEmpty active empty bounded => cases unsettled
  | settleSingleton row_active equality single column_active admitted => cases unsettled

omit [LawfulScalar α] in
/-- A column stays halved when another column is settled. It is settled itself only by a row. -/
theorem Rewrite.halved_of_settled (rewrite : Rewrite settings p r q) (same : p.Transposed) {l : Nat}
    (settles : r.settled? = some l) {column : Column α} (active : q.columns.get? l = some column)
    (halved : p.Halved j) : (q.substituted l column).Halved j ∧ j ≠ l ∨
      j = l ∧ ∃ i coefficient value, r = .settleSingleton i l coefficient value := by
  obtain ⟨i, row, balanced, listed⟩ := halved
  have transposed := rewrite.transposed same
  cases rewrite with
  | @settleEmpty l' other found empty bounded =>
    cases settles
    have absent : l ∉ row.entries.ordinals := by
      rw [same.mem_ordinals_iff balanced.active found, empty]
      exact List.not_mem_nil
    have apart : j ≠ l := fun same => absent (same ▸ listed)
    have nonnegative : ∀ k ∈ row.entries.ordinals, k ≠ l → ∃ column,
        (p.boundedColumn l (.point (Step.bestValue other.bounds other.cost).1)).columns.get? k = some column ∧
          column.bounds = .nonnegative := by
      intro k listed apart
      obtain ⟨column, found, nonnegative⟩ := balanced.nonnegative k listed
      exact ⟨column, by rw [Program.columns_boundedColumn, if_neg (Ne.symm apart), found], nonnegative⟩
    obtain ⟨row', balanced', kept⟩ :=
      Program.BalancesAt.of_substituted transposed balanced.active balanced.equality
      nonnegative active
    exact .inl ⟨⟨i, row', balanced', kept j listed apart⟩, apart⟩
  | @settleSingleton m l' single_row other coefficient row_active equality single column_active admitted =>
    cases settles
    by_cases self : j = l
    · exact .inr ⟨self, m, coefficient, _, rfl⟩
    · have apart : m ≠ i := by
        rintro rfl
        obtain rfl := Option.some.inj (row_active.symm.trans balanced.active)
        rw [single] at listed
        exact self (by simpa [Entries.ordinals] using listed)
      have kept_row : (p.settledBy m l (single_row.bounds.lower / coefficient)).rows.get? i = some row := by
        rw [Program.rows_settledBy, if_neg apart, balanced.active]
      have nonnegative : ∀ k ∈ row.entries.ordinals, k ≠ l → ∃ column,
          (p.settledBy m l (single_row.bounds.lower / coefficient)).columns.get? k = some column ∧
            column.bounds = .nonnegative := by
        intro k listed apart
        obtain ⟨column, found, nonnegative⟩ := balanced.nonnegative k listed
        refine ⟨_, by rw [Program.columns_settledBy, found, Option.map_some], ?_⟩
        rw [if_neg (Ne.symm apart)]
        exact nonnegative
      obtain ⟨row', balanced', kept⟩ :=
        Program.BalancesAt.of_substituted transposed kept_row balanced.equality
        nonnegative active
      exact .inl ⟨⟨i, row', balanced', kept j listed self⟩, self⟩
  | _ => cases settles

/-! ## Statuses of halved columns -/

/-- Halved columns are basic or at zero. -/
def Valuation.Fits (v : Valuation Status) (p : Program α) : Prop :=
  ∀ j, p.Halved j → v.columns j = .basic ∨ v.columns j = .atLower

omit [Scalar α] [LawfulScalar α] in
theorem Record.boundedStatus_eq_ok {a b : Status} (column : a = .basic ∨ a = .atLower)
    (companion : b = .basic ∨ b = .atLower) :
    ∃ status, (boundedStatus a b : Except (Fault α) Status) = .ok status := by
  rcases column with rfl | rfl <;> rcases companion with rfl | rfl <;> exact ⟨_, rfl⟩

omit [LawfulScalar α] in
/-- A column and its companion are halved by the row that was added for them. -/
theorem Program.balancesAt_cappedColumn {column : Column α} (active : p.columns.get? j = some column)
    (bound : α) : (p.cappedColumn j bound).BalancesAt p.rows.size
    ⟨.point bound, [(j, 1), (p.columns.size, 1)]⟩ := by
  refine ⟨by rw [rows_cappedColumn, if_pos rfl], ⟨bound, rfl⟩, fun k listed => ?_⟩
  have inside := Slots.lt_size active
  simp only [Entries.ordinals, List.map_cons, List.map_nil, List.mem_cons, List.not_mem_nil,
    or_false] at listed
  rcases listed with rfl | rfl
  · refine ⟨{ column with bounds := .nonnegative, entries := column.entries ++ [(p.rows.size, 1)] }, ?_, rfl⟩
    rw [columns_cappedColumn _ inside, if_neg (Nat.ne_of_lt inside), if_pos rfl, active, Option.map_some]
  · exact ⟨⟨.nonnegative, .continuous, 0, [(p.rows.size, 1)]⟩,
      by rw [columns_cappedColumn _ inside, if_pos rfl], rfl⟩

omit [LawfulScalar α] in
theorem Rewrite.status_possible (rewrite : Rewrite settings p r q) (unsettled : r.settled? = none)
    {v : Valuation Status} (fits : v.Fits q) : ∃ w, r.statusBefore v = .ok w := by
  cases rewrite with
  | @splitUpper l column active grounded finite =>
    have balanced := Program.balancesAt_cappedColumn active column.bounds.upper
    have halved := fits l ⟨_, _, balanced, by simp [Entries.ordinals]⟩
    have companion := fits p.columns.size ⟨_, _, balanced, by simp [Entries.ordinals]⟩
    obtain ⟨status, possible⟩ := Record.boundedStatus_eq_ok halved companion
    refine ⟨v.setColumn l status, ?_⟩
    rw [Record.statusBefore, possible]
    rfl
  | settleEmpty active empty bounded => cases unsettled
  | settleSingleton row_active equality single column_active admitted => cases unsettled
  | _ => exact ⟨_, rfl⟩

theorem Move.statuses_possible {news : List (Record α)} (move : Move settings p news q) (same : p.Transposed)
    {v : Valuation Status} (fits : v.Fits q) :
    ∃ w, news.foldlM Record.statusBefore v = .ok w ∧ w.Fits p := by
  cases move with
  | single rewrite unsettled =>
    obtain ⟨w, possible⟩ := rewrite.status_possible unsettled fits
    refine ⟨w, by rw [List.foldlM_cons, possible]; rfl, fun j halved => ?_⟩
    obtain ⟨kept, other⟩ := rewrite.halved same unsettled halved
    rw [Record.statusBefore_columns possible other]
    exact fits j kept
  | @settled m r l column rewrite settles active fixed finite =>
    have halved_or : ∀ j, p.Halved j → (m.substituted l column).Halved j ∧ j ≠ l ∨
        j = l ∧ ∃ i coefficient value, r = .settleSingleton i l coefficient value :=
      fun j halved => rewrite.halved_of_settled same settles active halved
    rcases Record.of_settled?_eq_some settles with ⟨value, status, rfl⟩ | ⟨i, coefficient, value, rfl⟩
    · refine ⟨(v.setColumn l .fixed).setColumn l status, rfl, fun j halved => ?_⟩
      rcases halved_or j halved with ⟨kept, apart⟩ | ⟨_, _, _, _, different⟩
      · simpa [apart] using fits j kept
      · cases different
    · refine ⟨((v.setColumn l .fixed).setColumn l .basic).setRow i .fixed, ?_, fun j halved => ?_⟩
      · change Record.statusBefore (v.setColumn l .fixed) (.settleSingleton i l coefficient value) >>= _ = _
        rw [Record.statusBefore_setColumn_fixed]
        rfl
      · rcases halved_or j halved with ⟨kept, apart⟩ | ⟨self, _⟩
        · simpa [apart] using fits j kept
        · left
          simp [self]

/-- What the statuses at the end have to be is all that it takes. -/
theorem History.statuses_possible {records : List (Record α)} (history : History settings p records q)
    (same : p.Transposed) {v : Valuation Status} (fits : v.Fits q) :
    ∃ w, records.foldlM Record.statusBefore v = .ok w ∧ w.Fits p := by
  induction history generalizing v with
  | refl => exact ⟨v, rfl, fits⟩
  | @move q u records news before move inductionHypothesis =>
    obtain ⟨between, first, between_fits⟩ := move.statuses_possible (before.transposed same) fits
    obtain ⟨w, rest, w_fits⟩ := inductionHypothesis between_fits
    refine ⟨w, ?_, w_fits⟩
    rw [List.foldlM_append, first]
    exact rest

end

/-! ## Recovered solutions -/

namespace Session

variable [LawfulScalar α] {s : Session α}

/-- All columns of the reduced program with zero as their only bound are basic or at zero. -/
def GroundsNonnegative (s : Session α) (status : Sides Status) : Prop :=
  ∀ (k j : Nat) (column : Column α) (st : Status), s.program.columns.active[k]? = some (j, column) →
    column.bounds = .nonnegative → status.columns[k]? = some st → st = .basic ∨ st = .atLower

omit [LawfulScalar α] in
theorem fits_spread {status : Sides Status} (matched : s.isMatchedBy status = true)
    (grounded : s.GroundsNonnegative status) : (s.spread .basic status).Fits s.program := by
  rintro j ⟨i, row, balanced, listed⟩
  obtain ⟨column, active, bounds⟩ := balanced.nonnegative j listed
  obtain ⟨k, found⟩ := List.getElem?_of_mem (Slots.mem_active.2 active)
  have inside : k < status.columns.length := by
    rw [(isMatchedBy_iff.1 matched).2]
    exact (List.getElem?_eq_some_iff.1 found).1
  have read : (s.spread .basic status).columns j = status.columns[k] :=
    Slots.spread_eq (isMatchedBy_iff.1 matched).2 found (List.getElem?_eq_getElem inside)
  rw [read]
  exact grounded k j column _ found bounds (List.getElem?_eq_getElem inside)

theorem recovers_of_grounded {p : Program α} (descends : s.DescendsFrom p) (full : p.Full)
    {reduced : Solution α} (matched : s.isMatchedBy reduced.primal = true)
    (grounded : ∀ status, reduced.status? = some status → s.GroundsNonnegative status) :
    ∃ recovered, s.recover reduced = .ok recovered := by
  refine recover_eq_ok descends full matched fun status given => ?_
  have status_matched := isMatchedBy_of_fits (Solution.fits_of_status given) matched
  obtain ⟨w, possible, _⟩ := descends.history.statuses_possible descends.transposed
    (fits_spread status_matched (grounded status given))
  exact ⟨w, possible⟩

/-- A solution is recovered exactly if it fits the reduced program and every slot of the program at the start
    was occupied. A basic solution has to keep its nonnegative columns basic or at zero. -/
theorem recover_succeeds_iff {p : Program α} {settings : Settings α} {start : Session α}
    (begun : Session.begin p settings = .ok start) (reaches : start.Reaches s) (reduced : Solution α)
    (grounded : ∀ status, reduced.status? = some status → s.GroundsNonnegative status) :
    (∃ recovered, s.recover reduced = .ok recovered) ↔
      (reduced.primal.rows.length = s.program.rows.active.length ∧
        reduced.primal.columns.length = s.program.columns.active.length) ∧ p.Full := by
  have descends := reaches.descendsFrom begun
  rw [← isMatchedBy_iff, ← Program.full_asMinimization]
  constructor
  · rintro ⟨recovered, run⟩
    obtain ⟨matched, full, _⟩ := recover_eq_ok_sides descends run
    exact ⟨matched, full⟩
  · rintro ⟨matched, full⟩
    exact recovers_of_grounded descends full matched grounded

/-- Statuses, primal and dual values where the first row is at its upper bound. -/
def mixedSolution : Solution ExtRat :=
  .basic ⟨[.fixed, .fixed], [.basic, .atLower, .basic]⟩
    ⟨[.finite 2, .finite 4], [.finite 2, .finite 0, .finite 2]⟩
    ⟨[.finite (-1), .finite 0], [.finite 0, .finite 1, .finite 0]⟩ ⟨rfl, rfl⟩ ⟨rfl, rfl⟩

theorem mixedSolution_grounded : ∀ status, mixedSolution.status? = some status →
    mixedSession.GroundsNonnegative status := by
  intro status given
  cases given
  intro k j column st listed bounds given
  match k, given with
  | 0, given =>
    cases given
    exact .inl rfl
  | 1, given =>
    cases given
    exact .inr rfl
  | 2, given =>
    cases given
    exact .inl rfl

theorem recover_succeeds_mixed : ∃ recovered, mixedSession.recover mixedSolution = .ok recovered :=
  (recover_succeeds_iff mixedStart_begun mixedSession_reached mixedSolution mixedSolution_grounded).2
    ⟨⟨by rfl, by rfl⟩, mixedProgram_built.full⟩

end Session

end LinearReduction
