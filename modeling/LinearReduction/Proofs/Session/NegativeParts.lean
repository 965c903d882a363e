import LinearReduction.Proofs.Recovery.Possible
import LinearReduction.Proofs.Session.Eliminations

/-!
# Negative parts

A column and the negative part that was split off from it have coefficients in the same rows, and neither of
them has an upper bound. No reduction changes that while both are there. A row with one column never has just
one of the two, so that it doesn't settle either of them, and when one of them is in no row, the other one
isn't either. Main statement: `History.negative_unsettled`, that no row ever settles the negative part of a
column.
-/

namespace LinearReduction

variable {α : Type} [Scalar α]

/-- Two columns with coefficients in the same rows. Those of them that are left are nonnegative and have no
    upper bound. -/
structure Program.Paired (p : Program α) (j k : Nat) : Prop where
  apart : j ≠ k
  inside : ∀ l, l = j ∨ l = k → l < p.columns.size
  nonnegative : ∀ l, l = j ∨ l = k → ∀ column, p.columns.get? l = some column → column.bounds = .nonnegative
  together : ∀ i row, p.rows.get? i = some row → (j ∈ row.entries.ordinals ↔ k ∈ row.entries.ordinals)

variable {settings : Settings α} {p q : Program α} {r : Record α} {records news : List (Record α)} {j k : Nat}

namespace Program.Paired

/-- Each row lists those of the two columns that it listed before, or neither of them. -/
theorem keep (paired : p.Paired j k) (size_le : p.columns.size ≤ q.columns.size)
    (nonnegative : ∀ l, l = j ∨ l = k → ∀ column, q.columns.get? l = some column →
      column.bounds = .nonnegative)
    (rows : ∀ i row', q.rows.get? i = some row' →
      (∃ row, p.rows.get? i = some row ∧ ∀ l, l = j ∨ l = k →
        (l ∈ row'.entries.ordinals ↔ l ∈ row.entries.ordinals)) ∨
        ∀ l, l = j ∨ l = k → l ∉ row'.entries.ordinals) : q.Paired j k := by
  refine ⟨paired.apart, fun l among => Nat.lt_of_lt_of_le (paired.inside l among) size_le, nonnegative,
    fun i row' found => ?_⟩
  rcases rows i row' found with ⟨row, active, kept⟩ | absent
  · rw [kept j (.inl rfl), kept k (.inr rfl)]
    exact paired.together i row active
  · exact iff_of_false (absent j (.inl rfl)) (absent k (.inr rfl))

theorem ne_size (paired : p.Paired j k) {l : Nat} (among : l = j ∨ l = k) : l ≠ p.columns.size :=
  Nat.ne_of_lt (paired.inside l among)

/-- Columns with other bounds are neither of the two. -/
theorem ne_of_bounds (paired : p.Paired j k) {l m : Nat} {column : Column α}
    (active : p.columns.get? l = some column) (bounds : column.bounds ≠ .nonnegative)
    (among : m = j ∨ m = k) : l ≠ m := by
  rintro rfl
  exact bounds (paired.nonnegative l among column active)

/-- No row has one of the columns as its only one. -/
theorem not_single (paired : p.Paired j k) {i l : Nat} {row : Row α} {coefficient : α}
    (active : p.rows.get? i = some row) (single : row.entries = [(l, coefficient)]) : ¬ (l = j ∨ l = k) := by
  have together := paired.together i row active
  simp only [single, Entries.ordinals, List.map_cons, List.map_nil, List.mem_singleton] at together
  rintro (rfl | rfl)
  · exact paired.apart (together.1 rfl).symm
  · exact paired.apart (together.2 rfl)

/-- Another column is removed, or one that is in no row. What bounds it had by then doesn't matter. -/
theorem substituted (paired : p.Paired j k) (same : p.Transposed) {l : Nat} {own column : Column α}
    (active : p.columns.get? l = some own) (entries : column.entries = own.entries)
    (unlisted : l = j ∨ l = k → own.entries = []) : (p.substituted l column).Paired j k := by
  have distinct : column.entries.ordinals.Nodup := by
    rw [entries]
    exact same.columns_nodup l own active
  have sizes : p.columns.size = (p.substituted l column).columns.size := by
    rw [Program.substituted, absorbed, columns_offset, withoutColumn, Slots.size_clear]
  refine paired.keep (Nat.le_of_eq sizes) (fun m among other found => ?_) fun i row' found => ?_
  · rw [columns_substituted] at found
    split at found
    case isTrue => cases found
    case isFalse => exact paired.nonnegative m among other found
  · rw [rows_substituted _ distinct, Option.map_eq_some_iff] at found
    obtain ⟨row, row_active, rfl⟩ := found
    refine .inl ⟨row, row_active, fun m among => ?_⟩
    rw [Entries.mem_ordinals_erase (same.rows_nodup i row row_active), and_iff_right_iff_imp]
    rintro listed rfl
    rw [same.mem_ordinals_iff row_active active, unlisted among] at listed
    cases listed

end Program.Paired

/-- The negative part of a column is in the rows of that column. -/
theorem Program.paired_splitColumn (same : p.Transposed) {column : Column α}
    (active : p.columns.get? j = some column) : (p.splitColumn j column).Paired j p.columns.size := by
  have old := Slots.ne_size active
  have new : (p.splitColumn j column).columns.isActive p.columns.size = true := isActive_splitColumn j column
  have size_lt := Slots.lt_size_of_isActive new
  refine ⟨old, ?_, ?_, fun i row' found => ?_⟩
  · rintro l (rfl | rfl)
    · exact Nat.lt_trans (Slots.lt_size active) size_lt
    · exact size_lt
  · rintro l (rfl | rfl) other found
    · rw [columns_splitColumn, if_neg old, if_pos rfl, active] at found
      cases found
      rfl
    · rw [columns_splitColumn, if_pos rfl] at found
      cases found
      rfl
  · rw [rows_splitColumn _ (same.columns_nodup j column active), Option.map_eq_some_iff] at found
    obtain ⟨row, row_active, rfl⟩ := found
    have absent := same.columns_size_not_mem row_active
    rw [Row.mem_ordinals_extended, Row.mem_ordinals_extended, Ne, Entries.lookup_eq_none_iff,
      Decidable.not_not, Entries.ordinals_negate, same.mem_ordinals_iff row_active active]
    simp [absent, old]

/-! ## Columns that are split, and columns that a row settles -/

theorem Move.size_le (move : Move settings p news q) : p.columns.size ≤ q.columns.size := by
  cases move with
  | single rewrite unsettled => exact rewrite.columns_restored.size_le
  | settled rewrite settles active fixed finite =>
    have removal : Rewrite settings _ _ _ := .substituteFixed active fixed finite
    exact Nat.le_trans rewrite.columns_restored.size_le removal.columns_restored.size_le

/-- A row settles a column that is there, and that isn't one of two columns in the same rows. -/
theorem Move.settleSingleton_listed (move : Move settings p news q) {i l : Nat} {coefficient value : α}
    (listed : .settleSingleton i l coefficient value ∈ news) :
    l < p.columns.size ∧ ∀ j k, p.Paired j k → ¬ (l = j ∨ l = k) := by
  cases move with
  | single rewrite unsettled =>
    obtain rfl := List.mem_singleton.1 listed
    cases unsettled
  | settled rewrite settles active fixed finite =>
    rcases List.mem_cons.1 listed with same | last
    case inl => cases same
    case inr =>
      obtain rfl := List.mem_singleton.1 last
      cases rewrite with
      | settleSingleton row_active equality single column_active admitted =>
        exact ⟨Slots.lt_size column_active, fun j k paired => paired.not_single row_active single⟩

/-- A column that was split and its negative part are in the same rows. -/
theorem Move.paired_of_splitFree (move : Move settings p news q) (same : p.Transposed)
    (listed : .splitFree j k ∈ news) : k = p.columns.size ∧ q.Paired j k := by
  cases move with
  | single rewrite unsettled =>
    obtain rfl := List.mem_singleton.1 listed
    cases rewrite with
    | splitFree active free => exact ⟨rfl, Program.paired_splitColumn same active⟩
  | settled rewrite settles active fixed finite =>
    rcases List.mem_cons.1 listed with same | last
    case inl => cases same
    case inr =>
      obtain rfl := List.mem_singleton.1 last
      cases settles

theorem History.lt_size_of_settleSingleton (history : History settings p records q) {i l : Nat}
    {coefficient value : α} (listed : .settleSingleton i l coefficient value ∈ records) :
    l < q.columns.size := by
  induction history with
  | refl => cases listed
  | move before move inductionHypothesis =>
    refine Nat.lt_of_lt_of_le ?_ move.size_le
    rcases List.mem_append.1 listed with new | old
    · exact (move.settleSingleton_listed new).1
    · exact inductionHypothesis old

/-! ## Columns that stay in the same rows -/

variable [LawfulScalar α]

/-- The two columns stay nonnegative without an upper bound, unless one of them is settled. -/
theorem Rewrite.paired_nonnegative (rewrite : Rewrite settings p r q) (paired : p.Paired j k)
    (unsettled : ∀ l, l = j ∨ l = k → r.settled? ≠ some l) :
    ∀ l, l = j ∨ l = k → ∀ column, q.columns.get? l = some column → column.bounds = .nonnegative := by
  intro l among column' found
  cases rewrite with
  | dropFreeRow active free | dropEmptyRow active empty within =>
    rw [Program.columns_withoutRow, Option.map_eq_some_iff] at found
    obtain ⟨column, found, rfl⟩ := found
    exact paired.nonnegative l among column found
  | addSurplus active finite inequality | addSlack active finite inequality =>
    rw [Program.columns_withRange, if_neg (paired.ne_size among)] at found
    exact paired.nonnegative l among column' found
  | splitFree active free =>
    rw [Program.columns_splitColumn, if_neg (paired.ne_size among)] at found
    split at found
    case isTrue =>
      obtain ⟨_, _, rfl⟩ := Option.map_eq_some_iff.1 found
      rfl
    case isFalse => exact paired.nonnegative l among column' found
  | @shiftLower m own active finite =>
    rw [Program.columns_shiftedColumn] at found
    split at found
    case isTrue self =>
      subst self
      rw [active] at found
      cases found
      change own.bounds.range = .nonnegative
      rw [paired.nonnegative m among own active, Bounds.range_nonnegative]
    case isFalse => exact paired.nonnegative l among column' found
  | @flipUpper m own active finite =>
    have bounds := Bounds.ne_nonnegative_of_isFinite finite
    rw [Program.columns_flippedColumn, if_neg (paired.ne_of_bounds active bounds among)] at found
    exact paired.nonnegative l among column' found
  | splitUpper active grounded finite =>
    rw [Program.columns_cappedColumn _ (Slots.lt_size active), if_neg (paired.ne_size among)] at found
    split at found
    case isTrue =>
      obtain ⟨_, _, rfl⟩ := Option.map_eq_some_iff.1 found
      rfl
    case isFalse => exact paired.nonnegative l among column' found
  | substituteFixed active fixed finite =>
    rw [Program.columns_substituted] at found
    split at found
    case isTrue => cases found
    case isFalse => exact paired.nonnegative l among column' found
  | settleEmpty active empty bounded =>
    rw [Program.columns_boundedColumn, if_neg fun self => unsettled l among (congrArg some self)] at found
    exact paired.nonnegative l among column' found
  | settleSingleton row_active equality single column_active admitted =>
    rw [Program.columns_settledBy, Option.map_eq_some_iff] at found
    obtain ⟨column, found, rfl⟩ := found
    rw [if_neg fun self => unsettled l among (congrArg some self)]
    exact paired.nonnegative l among column found

/-- The two columns stay in the same rows, unless one of them is settled. -/
theorem Rewrite.paired (rewrite : Rewrite settings p r q) (same : p.Transposed) (paired : p.Paired j k)
    (unsettled : ∀ l, l = j ∨ l = k → r.settled? ≠ some l) : q.Paired j k := by
  have keep := paired.keep rewrite.columns_restored.size_le (rewrite.paired_nonnegative paired unsettled)
  cases rewrite with
  | dropFreeRow active free | dropEmptyRow active empty within =>
    refine keep fun i row' found => ?_
    rw [Program.rows_withoutRow] at found
    split at found
    case isTrue => cases found
    case isFalse => exact .inl ⟨row', found, fun _ _ => .rfl⟩
  | addSurplus active finite inequality | addSlack active finite inequality =>
    refine keep fun i row' found => ?_
    rw [Program.rows_withRange] at found
    split at found
    case isTrue =>
      obtain ⟨row, active, rfl⟩ := Option.map_eq_some_iff.1 found
      refine .inl ⟨row, active, fun l among => ?_⟩
      simp [Entries.ordinals, paired.ne_size among]
    case isFalse => exact .inl ⟨row', found, fun _ _ => .rfl⟩
  | @splitFree m column active free =>
    refine keep fun i row' found => ?_
    rw [Program.rows_splitColumn _ (same.columns_nodup m column active), Option.map_eq_some_iff] at found
    obtain ⟨row, row_active, rfl⟩ := found
    refine .inl ⟨row, row_active, fun l among => ?_⟩
    simp [Row.mem_ordinals_extended, paired.ne_size among]
  | @shiftLower m column active finite =>
    refine keep fun i row' found => ?_
    rw [Program.rows_shiftedColumn _ (same.columns_nodup m column active), Option.map_eq_some_iff] at found
    obtain ⟨row, row_active, rfl⟩ := found
    exact .inl ⟨row, row_active, fun _ _ => by rw [Row.entries_absorbing]⟩
  | @flipUpper m column active finite =>
    refine keep fun i row' found => ?_
    rw [Program.rows_flippedColumn _ (same.columns_nodup m column active), Option.map_eq_some_iff] at found
    obtain ⟨row, row_active, rfl⟩ := found
    exact .inl ⟨row, row_active, fun _ _ => by rw [Entries.ordinals_negateAt]⟩
  | @splitUpper m column active grounded finite =>
    refine keep fun i row' found => ?_
    have bounds := Bounds.ne_nonnegative_of_isFinite finite
    rw [Program.rows_cappedColumn] at found
    split at found
    case isTrue =>
      cases found
      refine .inr fun l among => ?_
      simp [Entries.ordinals, paired.ne_size among, (paired.ne_of_bounds active bounds among).symm]
    case isFalse => exact .inl ⟨row', found, fun _ _ => .rfl⟩
  | @substituteFixed m column active fixed finite =>
    have bounds := Bounds.ne_nonnegative_of_isPoint fixed
    exact paired.substituted same active rfl fun among => absurd rfl (paired.ne_of_bounds active bounds among)
  | settleEmpty active empty bounded => exact keep fun i row' found => .inl ⟨row', found, fun _ _ => .rfl⟩
  | settleSingleton row_active equality single column_active admitted =>
    refine keep fun i row' found => ?_
    rw [Program.rows_settledBy] at found
    split at found
    case isTrue => cases found
    case isFalse => exact .inl ⟨row', found, fun _ _ => .rfl⟩

/-- Two columns in the same rows stay in the same rows, whatever is done to them at once. -/
theorem Move.paired (move : Move settings p news q) (same : p.Transposed) (paired : p.Paired j k) :
    q.Paired j k := by
  cases move with
  | single rewrite unsettled =>
    refine rewrite.paired same paired fun l among settles => ?_
    rw [unsettled] at settles
    cases settles
  | @settled m r l column rewrite settles active fixed finite =>
    by_cases among : l = j ∨ l = k
    case neg =>
      have between : m.Paired j k := by
        refine rewrite.paired same paired fun other also settled => among ?_
        obtain rfl := Option.some.inj (settles.symm.trans settled)
        exact also
      have removal : Rewrite settings m _ (m.substituted l column) := .substituteFixed active fixed finite
      exact removal.paired (rewrite.transposed same) between nofun
    case pos =>
      -- The column is in no row, and it is gone before its bounds matter.
      cases rewrite with
      | @settleEmpty l' own own_active empty bounded =>
        cases settles
        rw [Program.columns_boundedColumn, if_pos rfl, own_active] at active
        cases active
        rw [Program.substituted_boundedColumn]
        exact paired.substituted same own_active rfl fun _ => empty
      | settleSingleton row_active equality single column_active admitted =>
        cases settles
        exact absurd among (paired.not_single row_active single)
      | _ => cases settles

theorem History.paired_of_splitFree (history : History settings p records q) (same : p.Transposed)
    (listed : .splitFree j k ∈ records) : q.Paired j k := by
  induction history with
  | refl => cases listed
  | move before move inductionHypothesis =>
    rcases List.mem_append.1 listed with new | old
    · exact (move.paired_of_splitFree (before.transposed same) new).2
    · exact move.paired (before.transposed same) (inductionHypothesis old)

/-- No row settles the negative part of a column, neither before it was split off nor after. -/
theorem History.negative_unsettled (history : History settings p records q) (same : p.Transposed)
    (split : .splitFree j k ∈ records) (i : Nat) (coefficient value : α) :
    .settleSingleton i k coefficient value ∉ records := by
  intro listed
  induction history with
  | refl => cases listed
  | move before move inductionHypothesis =>
    have between := before.transposed same
    rcases List.mem_append.1 split with split_new | split_old <;>
      rcases List.mem_append.1 listed with new | old
    · obtain ⟨rfl, _⟩ := move.paired_of_splitFree between split_new
      exact Nat.lt_irrefl _ (move.settleSingleton_listed new).1
    · obtain ⟨rfl, _⟩ := move.paired_of_splitFree between split_new
      exact Nat.lt_irrefl _ (before.lt_size_of_settleSingleton old)
    · exact (move.settleSingleton_listed new).2 j k (before.paired_of_splitFree same split_old) (.inr rfl)
    · exact inductionHypothesis split_old old

end LinearReduction
