import LinearReduction.Proofs.Exact.Entries
import LinearReduction.Proofs.Program.Building
import LinearReduction.Proofs.Session.Runs

/-!
# Exact programs

Programs whose coefficients and costs are rational numbers, and what they ask for in terms of such numbers.
Main statements: programs that are built are exact, and every reduction keeps them so.
-/

namespace LinearReduction

open ExtRat

/-- All coefficients are rational numbers other than zero. -/
def Entries.Rational (entries : Entries ExtRat) : Prop :=
  ∀ entry ∈ entries, entry.2 = .finite entry.2.toRat ∧ entry.2.toRat ≠ 0

structure Row.Exact (row : Row ExtRat) : Prop where
  proper : row.bounds.Proper
  rational : row.entries.Rational

structure Column.Exact (column : Column ExtRat) : Prop where
  proper : column.bounds.Proper
  cost : column.cost = .finite column.cost.toRat

/-- A program of exact rows and columns, whose two views agree. -/
structure Program.Exact (p : Program ExtRat) : Prop where
  transposed : p.Transposed
  rows : ∀ i row, p.rows.get? i = some row → row.Exact
  columns : ∀ j column, p.columns.get? j = some column → column.Exact

namespace Entries.Rational

variable {entries others : Entries ExtRat} {k : Nat} {a : ℚ}

theorem append (rational : entries.Rational) (also : others.Rational) :
    Entries.Rational (entries ++ others) := by
  intro entry listed
  rcases List.mem_append.1 listed with listed | listed
  · exact rational entry listed
  · exact also entry listed

theorem singleton {c : ExtRat} (finite : c = .finite c.toRat) (nonzero : c.toRat ≠ 0) :
    Entries.Rational [(k, c)] := by
  intro entry listed
  obtain rfl := List.mem_singleton.1 listed
  exact ⟨finite, nonzero⟩

theorem erase (rational : entries.Rational) (k : Nat) : Entries.Rational (entries.erase k) :=
  fun entry listed => rational entry (List.mem_of_mem_eraseP listed)

theorem negate (rational : entries.Rational) : Entries.Rational entries.negate := by
  rintro ⟨k, value⟩ listed
  obtain ⟨other, before, rfl⟩ := Entries.mem_negate.1 listed
  obtain ⟨finite, nonzero⟩ := rational _ before
  refine ⟨?_, by simpa using nonzero⟩
  change -other = _
  rw [toRat_neg, ← finite_neg, ← finite]

theorem negateAt (rational : entries.Rational) (k : Nat) : Entries.Rational (entries.negateAt k) := by
  rintro ⟨l, value⟩ listed
  obtain ⟨other, before, rfl⟩ := Entries.mem_negateAt.1 listed
  obtain ⟨finite, nonzero⟩ := rational _ before
  split
  · refine ⟨?_, by simpa using nonzero⟩
    change -other = _
    rw [toRat_neg, ← finite_neg, ← finite]
  · exact ⟨finite, nonzero⟩

end Entries.Rational

/-! ## Changed rows -/

namespace Row

variable {row : Row ExtRat} {entries : Entries ExtRat} {l : Nat}

/-- Bounds lose the share of the constant value, which is zero for a row that has none. -/
theorem bounds_absorbing (rational : entries.Rational) (l : Nat) (a : ℚ) :
    (row.absorbing (entries.lookup l) (.finite a)).bounds =
    row.bounds.shift (.finite (entries.coefficient l * a)) := by
  unfold Entries.coefficient
  cases found : entries.lookup l with
  | none =>
    rw [Option.map_none, Option.getD_none, zero_mul, Bounds.shift_zero]
    rfl
  | some c =>
    obtain ⟨before, after, split, _⟩ := List.lookup_eq_some_iff.1 found
    have finite := (rational (l, c) (by simp [split])).1
    rw [Option.map_some, Option.getD_some, ← finite_mul, ← finite]
    rfl

theorem Exact.absorbing (exact : row.Exact) (rational : entries.Rational) (l : Nat) (a : ℚ) :
    (row.absorbing (entries.lookup l) (.finite a)).Exact := by
  refine ⟨?_, ?_⟩
  · rw [bounds_absorbing rational]
    exact exact.proper.shift _
  · rw [entries_absorbing]
    exact exact.rational

theorem Exact.extended (exact : row.Exact) (rational : entries.Rational) (l j : Nat) :
    (row.extended j (entries.lookup l)).Exact := by
  refine ⟨by simpa using exact.proper, ?_⟩
  cases found : entries.lookup l with
  | none => exact exact.rational
  | some c =>
    obtain ⟨before, after, split, _⟩ := List.lookup_eq_some_iff.1 found
    obtain ⟨finite, nonzero⟩ := rational (l, c) (by simp [split])
    exact exact.rational.append (.singleton finite nonzero)

theorem value_extended {x : Nat → ℚ} (row : Row ExtRat) (entries : Entries ExtRat) (l j : Nat) :
    (row.extended j (entries.lookup l)).entries.value x = row.entries.value x +
    entries.coefficient l * x j := by
  unfold Entries.coefficient
  cases entries.lookup l with
  | none => simp [Row.extended]
  | some c => simp [Row.extended, Entries.value_append]

end Row

/-! ## Reductions of exact programs -/

namespace Program.Exact

variable {p q : Program ExtRat} {i j : Nat}

theorem column_rational (exact : p.Exact) {column : Column ExtRat} (active : p.columns.get? j = some column) :
    column.entries.Rational := by
  rintro ⟨i, value⟩ listed
  obtain ⟨row, found, also⟩ := exact.transposed.row_of_mem active listed
  exact (exact.rows i row found).rational (j, value) also

end Program.Exact

section

variable {settings : Settings ExtRat} {p q : Program ExtRat} {r : Record ExtRat} {row : Row ExtRat}
  {column : Column ExtRat} {i j : Nat}

namespace Program.Exact

theorem withoutRow (exact : p.Exact) (i : Nat) : (p.withoutRow i).Exact := by
  refine ⟨exact.transposed.withoutRow i, fun l row active => ?_, fun k column active => ?_⟩
  · rw [rows_withoutRow] at active
    split at active
    · cases active
    · exact exact.rows l row active
  · rw [columns_withoutRow, Option.map_eq_some_iff] at active
    obtain ⟨column, active, rfl⟩ := active
    exact ⟨(exact.columns k column active).proper, (exact.columns k column active).cost⟩

theorem boundedColumn (exact : p.Exact) (j : Nat) {bounds : Bounds ExtRat} (proper : bounds.Proper) :
    (p.boundedColumn j bounds).Exact := by
  refine ⟨exact.transposed.boundedColumn j bounds, exact.rows, fun k column active => ?_⟩
  rw [columns_boundedColumn] at active
  split at active
  · rw [Option.map_eq_some_iff] at active
    obtain ⟨column, active, rfl⟩ := active
    exact ⟨proper, (exact.columns k column active).cost⟩
  · exact exact.columns k column active

theorem withRange (exact : p.Exact) (active : p.rows.get? i = some row) {range : Bounds ExtRat}
    {coefficient bound : ℚ} (proper : range.Proper) (nonzero : coefficient ≠ 0) :
    (p.withRange i range (.finite coefficient) (.finite bound)).Exact := by
  refine ⟨exact.transposed.withRange active _ _ _, fun l other found => ?_, fun k column found => ?_⟩
  · rw [rows_withRange] at found
    split at found
    · rw [Option.map_eq_some_iff] at found
      obtain ⟨before, found, rfl⟩ := found
      exact ⟨Bounds.proper_point bound, (exact.rows l before found).rational.append (.singleton rfl nonzero)⟩
    · exact exact.rows l other found
  · rw [columns_withRange] at found
    split at found
    · cases found
      exact ⟨proper, rfl⟩
    · exact exact.columns k column found

theorem splitColumn (exact : p.Exact) (active : p.columns.get? j = some column) :
    (p.splitColumn j column).Exact := by
  have distinct := exact.transposed.columns_nodup j column active
  refine ⟨exact.transposed.splitColumn active, fun l other found => ?_, fun k other found => ?_⟩
  · rw [rows_splitColumn _ distinct, Option.map_eq_some_iff] at found
    obtain ⟨before, found, rfl⟩ := found
    exact (exact.rows l before found).extended (exact.column_rational active).negate l _
  · rw [columns_splitColumn] at found
    split at found
    · cases found
      refine ⟨Bounds.proper_nonnegative, ?_⟩
      rw [toRat_neg, ← finite_neg, ← (exact.columns j column active).cost]
    · split at found
      · rw [Option.map_eq_some_iff] at found
        obtain ⟨before, found, rfl⟩ := found
        exact ⟨Bounds.proper_nonnegative, (exact.columns k before found).cost⟩
      · exact exact.columns k other found

theorem shiftedColumn (exact : p.Exact) (active : p.columns.get? j = some column)
    (finite : Scalar.isFinite column.bounds.lower = true) : (p.shiftedColumn j column).Exact := by
  have distinct := exact.transposed.columns_nodup j column active
  refine ⟨exact.transposed.shiftedColumn active, fun l other found => ?_, fun k other found => ?_⟩
  · rw [rows_shiftedColumn _ distinct, Option.map_eq_some_iff] at found
    obtain ⟨before, found, rfl⟩ := found
    rw [eq_finite_of_isFinite finite]
    exact (exact.rows l before found).absorbing (exact.column_rational active) l _
  · rw [columns_shiftedColumn] at found
    split at found
    · rw [Option.map_eq_some_iff] at found
      obtain ⟨before, found, rfl⟩ := found
      exact ⟨(exact.columns j column active).proper.range (.inl finite), (exact.columns k before found).cost⟩
    · exact exact.columns k other found

theorem flippedColumn (exact : p.Exact) (active : p.columns.get? j = some column)
    (finite : Scalar.isFinite column.bounds.upper = true) : (p.flippedColumn j column).Exact := by
  have distinct := exact.transposed.columns_nodup j column active
  refine ⟨exact.transposed.flippedColumn active, fun l other found => ?_, fun k other found => ?_⟩
  · rw [rows_flippedColumn _ distinct, Option.map_eq_some_iff] at found
    obtain ⟨before, found, rfl⟩ := found
    rw [eq_finite_of_isFinite finite]
    exact ⟨((exact.rows l before found).absorbing (exact.column_rational active) l _).proper,
      (exact.rows l before found).rational.negateAt j⟩
  · rw [columns_flippedColumn] at found
    split at found
    · rw [Option.map_eq_some_iff] at found
      obtain ⟨before, found, rfl⟩ := found
      refine ⟨(exact.columns j column active).proper.range (.inr finite), ?_⟩
      rw [toRat_neg, ← finite_neg, ← (exact.columns j column active).cost]
    · exact exact.columns k other found

theorem cappedColumn (exact : p.Exact) (active : p.columns.get? j = some column) (bound : ℚ) :
    (p.cappedColumn j (.finite bound)).Exact := by
  refine ⟨exact.transposed.cappedColumn active _, fun l other found => ?_, fun k other found => ?_⟩
  · rw [rows_cappedColumn] at found
    split at found
    · cases found
      have first : Entries.Rational [(j, 1)] := .singleton rfl one_ne_zero
      exact ⟨Bounds.proper_point bound, first.append (.singleton rfl one_ne_zero)⟩
    · exact exact.rows l other found
  · rw [columns_cappedColumn _ (Slots.lt_size active)] at found
    split at found
    · cases found
      exact ⟨Bounds.proper_nonnegative, rfl⟩
    · split at found
      · rw [Option.map_eq_some_iff] at found
        obtain ⟨before, found, rfl⟩ := found
        exact ⟨Bounds.proper_nonnegative, (exact.columns k before found).cost⟩
      · exact exact.columns k other found

theorem substituted (exact : p.Exact) (active : p.columns.get? j = some column)
    (finite : Scalar.isFinite column.bounds.lower = true) : (p.substituted j column).Exact := by
  have distinct := exact.transposed.columns_nodup j column active
  refine ⟨exact.transposed.substituted active, fun l other found => ?_, fun k other found => ?_⟩
  · rw [rows_substituted _ distinct, Option.map_eq_some_iff] at found
    obtain ⟨before, found, rfl⟩ := found
    rw [eq_finite_of_isFinite finite]
    exact ⟨((exact.rows l before found).absorbing (exact.column_rational active) l _).proper,
      (exact.rows l before found).rational.erase j⟩
  · rw [columns_substituted] at found
    split at found
    · cases found
    · exact exact.columns k other found

end Program.Exact

/-- The best value of a column is a rational number within its bounds. -/
theorem Step.bestValue_contained {b : Bounds ExtRat} (proper : b.Proper) (cost : ExtRat) :
    ∃ a : ℚ, (bestValue b cost).1 = .finite a ∧ b.Contains (.finite a) := by
  cases proper with
  | free => exact ⟨0, rfl, rfl, rfl⟩
  | above l => exact ⟨l, rfl, finite_le_finite.2 le_rfl, rfl⟩
  | below u => exact ⟨u, rfl, rfl, finite_le_finite.2 le_rfl⟩
  | @between l u order =>
    have at_lower : (⟨.finite l, .finite u⟩ : Bounds ExtRat).Contains (.finite l) :=
      ⟨finite_le_finite.2 le_rfl, finite_le_finite.2 order⟩
    have at_upper : (⟨.finite l, .finite u⟩ : Bounds ExtRat).Contains (.finite u) :=
      ⟨finite_le_finite.2 order, finite_le_finite.2 le_rfl⟩
    simp only [bestValue, isFinite_finite]
    split
    · exact ⟨l, rfl, at_lower⟩
    · split
      · exact ⟨l, rfl, at_lower⟩
      · split
        · exact ⟨u, rfl, at_upper⟩
        · split
          · exact ⟨l, rfl, at_lower⟩
          · exact ⟨u, rfl, at_upper⟩

/-- The value that an equality row leaves to its only column is a rational number. -/
theorem Program.Exact.single_value (exact : p.Exact) (active : p.rows.get? i = some row)
    (equality : row.bounds.isPoint = true) {c : ExtRat} (single : row.entries = [(j, c)]) :
    ∃ b t : ℚ, row.bounds = .point (.finite b) ∧ c = .finite t ∧ t ≠ 0 ∧
      row.bounds.lower / c = .finite (b / t) := by
  obtain ⟨b, bounds⟩ := (exact.rows i row active).proper.eq_point equality
  obtain ⟨finite, nonzero⟩ := (exact.rows i row active).rational (j, c) (by simp [single])
  refine ⟨b, c.toRat, bounds, finite, nonzero, ?_⟩
  rw [bounds, ← finite_div b nonzero, ← finite]
  rfl

theorem Rewrite.exact (rewrite : Rewrite settings p r q) (exact : p.Exact) : q.Exact := by
  cases rewrite with
  | dropFreeRow active free => exact exact.withoutRow _
  | @addSurplus i row active finite inequality =>
    rw [eq_finite_of_isFinite finite]
    exact exact.withRange active ((exact.rows i row active).proper.range (.inl finite)) (by norm_num)
  | @addSlack i row active finite inequality =>
    rw [eq_finite_of_isFinite finite]
    exact exact.withRange active ((exact.rows i row active).proper.range (.inr finite)) one_ne_zero
  | splitFree active free => exact exact.splitColumn active
  | shiftLower active finite => exact exact.shiftedColumn active finite
  | flipUpper active finite => exact exact.flippedColumn active finite
  | splitUpper active grounded finite =>
    rw [eq_finite_of_isFinite finite]
    exact exact.cappedColumn active _
  | substituteFixed active fixed finite => exact exact.substituted active finite
  | dropEmptyRow active empty within => exact exact.withoutRow _
  | @settleEmpty j column active empty bounded =>
    obtain ⟨a, best, _⟩ := Step.bestValue_contained (exact.columns j column active).proper column.cost
    rw [best]
    exact exact.boundedColumn j (Bounds.proper_point a)
  | settleSingleton row_active equality single column_active admitted =>
    obtain ⟨b, t, _, _, _, value⟩ := exact.single_value row_active equality single
    rw [value]
    exact (exact.withoutRow _).boundedColumn _ (Bounds.proper_point _)

theorem Rewrites.exact {records : List (Record ExtRat)} (rewrites : Rewrites settings p records q)
    (exact : p.Exact) : q.Exact :=
  rewrites.preserves Rewrite.exact exact

end

namespace Session

variable {s t : Session ExtRat}

theorem Performs.exact {r : Reduction} {k : Nat} {added : Added} (performs : s.Performs r k added t)
    (exact : s.program.Exact) : t.program.Exact := by
  obtain ⟨news, move, _⟩ := performs.move
  exact (History.of_move move).rewrites.exact exact

theorem Advances.exact (advances : s.Advances t) (exact : s.program.Exact) : t.program.Exact := by
  obtain ⟨news, history, _⟩ := advances.history
  exact history.rewrites.exact exact

end Session

/-! ## Built programs -/

namespace Program

variable {p : Program ExtRat}

theorem Exact.pushRow (exact : p.Exact) {bounds : Bounds ExtRat} (proper : bounds.Proper) :
    (p.pushRow bounds).Exact := by
  refine ⟨exact.transposed.pushRow bounds, fun l row active => ?_, exact.columns⟩
  rw [rows_pushRow] at active
  split at active
  · cases active
    exact ⟨proper, nofun⟩
  · exact exact.rows l row active

theorem Exact.pushColumn (exact : p.Exact) {bounds : Bounds ExtRat} (proper : bounds.Proper) (domain : Domain)
    {cost : ExtRat} (finite : cost = .finite cost.toRat) : (p.pushColumn bounds domain cost).Exact := by
  refine ⟨exact.transposed.pushColumn bounds domain cost, exact.rows, fun k column active => ?_⟩
  rw [columns_pushColumn] at active
  split at active
  · cases active
    exact ⟨proper, finite⟩
  · exact exact.columns k column active

theorem Exact.link (exact : p.Exact) {row : Row ExtRat} {column : Column ExtRat} {i j : Nat}
    (row_active : p.rows.get? i = some row) (column_active : p.columns.get? j = some column)
    (fresh : i ∉ column.entries.ordinals) {value : ExtRat} (finite : value = .finite value.toRat)
    (nonzero : value.toRat ≠ 0) : (p.link i j value).Exact := by
  refine ⟨exact.transposed.link row_active column_active fresh value, fun l other active => ?_,
    fun k other active => ?_⟩
  · rw [rows_link] at active
    split at active
    · rw [Option.map_eq_some_iff] at active
      obtain ⟨before, active, rfl⟩ := active
      exact ⟨(exact.rows l before active).proper,
        (exact.rows l before active).rational.append (.singleton finite nonzero)⟩
    · exact exact.rows l other active
  · rw [columns_link] at active
    split at active
    · rw [Option.map_eq_some_iff] at active
      obtain ⟨before, active, rfl⟩ := active
      exact ⟨(exact.columns k before active).proper, (exact.columns k before active).cost⟩
    · exact exact.columns k other active

theorem exact_empty (sense : Sense) : (Program.empty sense : Program ExtRat).Exact := by
  refine ⟨⟨fun i j value => ?_, fun i row active => ?_, fun j column active => ?_⟩, fun i row active => ?_,
    fun j column active => ?_⟩
  · constructor
    · rintro ⟨row, active, _⟩
      simp [Program.empty] at active
    · rintro ⟨column, active, _⟩
      simp [Program.empty] at active
  all_goals simp [Program.empty] at active

theorem Built.exact (built : p.Built) : p.Exact := by
  induction built with
  | empty sense => exact exact_empty sense
  | newRow built added inductionHypothesis =>
    obtain ⟨proper, rfl⟩ := Build.newRow_eq_ok added
    exact inductionHypothesis.pushRow (Bounds.isProper_iff.1 proper)
  | newColumn built added inductionHypothesis =>
    obtain ⟨proper, finite, rfl⟩ := Build.newColumn_eq_ok added
    exact inductionHypothesis.pushColumn (Bounds.isProper_iff.1 proper) _ (eq_finite_of_isFinite finite)
  | newCoefficient built added inductionHypothesis =>
    obtain ⟨row, column, row_active, column_active, nonzero, finite, unmentioned, rfl⟩ :=
      Build.newCoefficient_eq_ok added
    have fresh := Entries.mentions_eq_false_iff.1 unmentioned
    apply inductionHypothesis.link row_active column_active fresh (eq_finite_of_isFinite finite)
    intro zero
    rw [eq_finite_of_isFinite finite, zero] at nonzero
    cases nonzero
  | fixCost built fixed inductionHypothesis =>
    cases fixed
    exact ⟨⟨inductionHypothesis.transposed.agree, inductionHypothesis.transposed.rows_nodup,
      inductionHypothesis.transposed.columns_nodup⟩, inductionHypothesis.rows, inductionHypothesis.columns⟩

theorem columns_asMinimization {α : Type} [Scalar α] (p : Program α) (k : Nat) :
    p.asMinimization.columns.get? k = (p.columns.get? k).map fun column =>
    { column with cost := p.sense.price column.cost } := by
  unfold Program.asMinimization Sense.price
  cases p.sense with
  | minimize => simp
  | maximize => exact Slots.get?_map ..

theorem Exact.asMinimization (exact : p.Exact) : p.asMinimization.Exact := by
  refine ⟨exact.transposed.asMinimization, ?_, fun k column active => ?_⟩
  · rw [rows_asMinimization]
    exact exact.rows
  · rw [columns_asMinimization, Option.map_eq_some_iff] at active
    obtain ⟨before, active, rfl⟩ := active
    refine ⟨(exact.columns k before active).proper, ?_⟩
    have cost := (exact.columns k before active).cost
    cases sense : p.sense with
    | minimize => exact cost
    | maximize =>
      change -before.cost = _
      rw [cost]
      rfl

end Program

end LinearReduction
