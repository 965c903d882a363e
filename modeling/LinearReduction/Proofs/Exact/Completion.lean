import LinearReduction.Proofs.Exact.Program
import LinearReduction.Proofs.Session.Eligible

/-!
# Reductions of exact programs complete

Main statement: `reduce_completes`, that a reduction of a row or column that it applies to is carried out and
breaks nothing, unless it finds that there is no optimal solution. Bounds that are shifted stay proper, and no
product of rational numbers is infinite.
-/

namespace LinearReduction

open ExtRat
open Fault (Completes)

theorem Bounds.isProper_point {value : ExtRat} (finite : Scalar.isFinite value = true) :
    (point value).isProper = true := by
  rw [eq_finite_of_isFinite finite]
  exact isProper_iff.2 (proper_point _)

namespace Step

variable {s : Session ExtRat} {p : Program ExtRat} {i j : Nat} {row : Row ExtRat} {column : Column ExtRat}
  {value : ExtRat}

/-! ## Parts of reductions -/

theorem absorb_of_exact (exact : p.Exact) (active : p.columns.get? j = some column) {q : Program ExtRat}
    (kept : ∀ i ∈ column.entries.ordinals, ∃ row, q.rows.get? i = some row)
    (finite : Scalar.isFinite value = true) (cost : ExtRat) :
    Edit.absorb column.entries cost value q = .ok () (q.absorbed column.entries cost value) := by
  refine Edit.absorb_of_finite kept finite fun entry listed => ?_
  rw [(exact.column_rational active entry listed).1, eq_finite_of_isFinite finite, finite_mul]
  rfl

theorem absorbRange_completes (active : p.rows.get? i = some row) {range : Bounds ExtRat}
    (proper : range.Proper) {coefficient bound : ExtRat} (nonzero : (coefficient != 0) = true)
    (finite : Scalar.isFinite bound = true) : Completes (absorbRange i range coefficient bound) p
    fun _ _ => True := by
  refine .bind (.of_eq_ok (Edit.newColumn_of_proper (Bounds.isProper_iff.2 proper) ..) ?_)
  refine .bind (.of_eq_ok (Edit.connect_of_unmentioned active (p.columns_pushColumn_self ..) nonzero rfl) ?_)
  have point := Bounds.isProper_point finite
  exact .bind (.of_eq_ok (Edit.boundRow_of_proper (Program.rows_link_self active coefficient) point) trivial)

theorem appendNegative_completes (exact : p.Exact) (active : p.columns.get? j = some column)
    (bounds : Bounds ExtRat) : Completes (appendNegative column) (p.boundedColumn j bounds)
    fun _ _ => True := by
  have added := (p.boundedColumn j bounds).columns_pushColumn_self .nonnegative column.domain (-column.cost)
  refine .bind (.of_eq_ok (Edit.newColumn_of_proper rfl ..)
    (.bind (.of_eq_ok (Edit.forM_connect ?_ ?_ added ?_ ?_) (.pure trivial))))
  · rw [Entries.ordinals_negate]
    exact exact.transposed.columns_nodup j column active
  · intro i listed
    rw [Entries.ordinals_negate] at listed
    exact exact.transposed.row_active active listed
  · exact fun _ _ => List.not_mem_nil
  · exact fun entry listed => bne_zero_of_toRat ((exact.column_rational active).negate entry listed).2

theorem appendCompanion_completes (exact : p.Exact) (active : p.columns.get? j = some column)
    (finite : Scalar.isFinite value = true) :
    Completes (appendCompanion j value) (p.boundedColumn j .nonnegative) fun _ _ => True := by
  refine .bind (.of_eq_ok (Edit.newColumn_of_proper rfl ..) ?_)
  refine .bind (.of_eq_ok (Edit.newRow_of_proper (Bounds.isProper_point finite)) ?_)
  have fresh : column.entries.mentions p.rows.size = false :=
    Entries.mentions_eq_false_iff.2 (exact.transposed.size_not_mem active)
  refine .bind (.of_eq_ok (Edit.connect_of_unmentioned (p.rows_uncapped value)
    (Program.columns_uncapped active value) rfl fresh) ?_)
  rw [Program.size_columns_boundedColumn]
  exact .bind (.of_eq_ok (Edit.connect_of_unmentioned (Program.rows_link_self (p.rows_uncapped value) 1)
    (Program.companion_uncapped active value) rfl rfl) trivial)

theorem substituteFixed_completes (exact : s.program.Exact) (active : s.program.columns.get? j = some column)
    (fixed : column.bounds.isPoint = true) : Completes (substituteFixed j) s fun _ _ => True := by
  refine .bind (.edit_of_eq_ok (Edit.fetchColumn_of_active active) (.bind (.require fixed ?_)))
  refine .bind (.edit_of_eq_ok (Edit.dropColumn_of_active exact.transposed active) ?_)
  have rows_active : ∀ i ∈ column.entries.ordinals,
      ∃ row, (s.program.withoutColumn j).rows.get? i = some row := by
    intro i listed
    obtain ⟨row, found⟩ := exact.transposed.row_active active listed
    exact ⟨_, by rw [Program.rows_withoutColumn, found, Option.map_some]⟩
  have finite : Scalar.isFinite column.bounds.lower = true := by
    obtain ⟨a, bounds⟩ := (exact.columns j column active).proper.eq_point fixed
    rw [bounds]
    rfl
  exact .bind (.edit_of_eq_ok (absorb_of_exact exact active rows_active finite column.cost) (.modify trivial))

theorem fixColumn_completes (exact : s.program.Exact) (active : s.program.columns.get? j = some column)
    (finite : Scalar.isFinite value = true) : Completes (fixColumn j value) s fun _ _ => True := by
  have point := Bounds.isProper_point finite
  refine .bind (.edit_of_eq_ok (Edit.boundColumn_of_proper active point) ?_)
  have bounded : (s.program.boundedColumn j (.point value)).columns.get? j =
      some { column with bounds := .point value } := by
    rw [Program.columns_boundedColumn, if_pos rfl, active, Option.map_some]
  refine substituteFixed_completes (exact.boundedColumn j (Bounds.isProper_iff.1 point)) bounded ?_
  rw [eq_finite_of_isFinite finite]
  exact LawfulScalar.beq_self_of_le (finite_le_finite.2 le_rfl)

/-! ## All reductions -/

theorem addSurplus_completes (exact : s.program.Exact) (eligible : s.program.Eligible .addSurplus i) :
    Completes (addSurplus i) s fun _ _ => True := by
  obtain ⟨row, active, finite, inequality⟩ := eligible
  refine .bind (.edit_of_eq_ok (Edit.fetchRow_of_active active) (.bind (.require finite ?_)))
  refine .bind (.require (decide_eq_true inequality) (.bind (.edit ?_)))
  have range := (exact.rows i row active).proper.range (.inl finite)
  exact (absorbRange_completes active range rfl finite).mono fun _ _ _ => .bind (.modify trivial)

theorem addSlack_completes (exact : s.program.Exact) (eligible : s.program.Eligible .addSlack i) :
    Completes (addSlack i) s fun _ _ => True := by
  obtain ⟨row, active, finite, inequality⟩ := eligible
  refine .bind (.edit_of_eq_ok (Edit.fetchRow_of_active active) (.bind (.require finite ?_)))
  refine .bind (.require (decide_eq_true inequality) (.bind (.edit ?_)))
  have range := (exact.rows i row active).proper.range (.inr finite)
  exact (absorbRange_completes active range rfl finite).mono fun _ _ _ => .bind (.modify trivial)

theorem splitFree_completes (exact : s.program.Exact) (eligible : s.program.Eligible .splitFree j) :
    Completes (splitFree j) s fun _ _ => True := by
  obtain ⟨column, active, free⟩ := eligible
  refine .bind (.edit_of_eq_ok (Edit.fetchColumn_of_active active) (.bind (.require free ?_)))
  refine .bind (.edit_of_eq_ok (Edit.boundColumn_of_proper active rfl) (.bind (.edit ?_)))
  exact (appendNegative_completes exact active _).mono fun _ _ _ => .bind (.modify trivial)

theorem shiftLower_completes (exact : s.program.Exact) (eligible : s.program.Eligible .shiftLower j) :
    Completes (shiftLower j) s fun _ _ => True := by
  obtain ⟨column, active, finite⟩ := eligible
  refine .bind (.edit_of_eq_ok (Edit.fetchColumn_of_active active) (.bind (.require finite ?_)))
  have rows_active := fun i listed => exact.transposed.row_active (i := i) active listed
  refine .bind (.edit_of_eq_ok (absorb_of_exact exact active rows_active finite column.cost) ?_)
  have kept := (s.program.columns_absorbed column.entries column.cost column.bounds.lower j).trans active
  have range := Bounds.isProper_iff.2 ((exact.columns j column active).proper.range (.inl finite))
  exact .bind (.edit_of_eq_ok (Edit.boundColumn_of_proper kept range) (.modify trivial))

theorem flipUpper_completes (exact : s.program.Exact) (eligible : s.program.Eligible .flipUpper j) :
    Completes (flipUpper j) s fun _ _ => True := by
  obtain ⟨column, active, finite⟩ := eligible
  refine .bind (.edit_of_eq_ok (Edit.fetchColumn_of_active active) (.bind (.require finite ?_)))
  have rows_active := fun i listed => exact.transposed.row_active (i := i) active listed
  refine .bind (.edit_of_eq_ok (absorb_of_exact exact active rows_active finite column.cost) ?_)
  have kept := (s.program.columns_absorbed column.entries column.cost column.bounds.upper j).trans active
  have rational : Scalar.isFinite (-column.cost) = true := by
    rw [(exact.columns j column active).cost, finite_neg]
    rfl
  refine .bind (.edit_of_eq_ok (Edit.priceColumn_of_finite kept rational) ?_)
  have absorbed := exact.transposed.absorbed (exact.transposed.columns_nodup j column active) column.cost
    column.bounds.upper
  have priced : ((s.program.absorbed column.entries column.cost column.bounds.upper).pricedColumn j
      (-column.cost)).columns.get? j = some { column with cost := -column.cost } := by
    rw [Program.columns_pricedColumn, if_pos rfl, kept, Option.map_some]
  refine .bind (.edit_of_eq_ok (Edit.reverseColumn_of_active (absorbed.pricedColumn j _) priced) ?_)
  have negated : (((s.program.absorbed column.entries column.cost column.bounds.upper).pricedColumn j
      (-column.cost)).negatedColumn j).columns.get? j =
        some { column with cost := -column.cost, entries := column.entries.negate } := by
    rw [Program.columns_negatedColumn, if_pos rfl, priced, Option.map_some]
  have range := Bounds.isProper_iff.2 ((exact.columns j column active).proper.range (.inr finite))
  exact .bind (.edit_of_eq_ok (Edit.boundColumn_of_proper negated range) (.modify trivial))

theorem splitUpper_completes (exact : s.program.Exact) (eligible : s.program.Eligible .splitUpper j) :
    Completes (splitUpper j) s fun _ _ => True := by
  obtain ⟨column, active, grounded, finite⟩ := eligible
  refine .bind (.edit_of_eq_ok (Edit.fetchColumn_of_active active) (.bind (.require grounded ?_)))
  refine .bind (.require finite (.bind (.edit_of_eq_ok (Edit.boundColumn_of_proper active rfl) ?_)))
  exact .bind (.edit
    ((appendCompanion_completes exact active finite).mono fun _ _ _ => .bind (.modify trivial)))

theorem dropFreeRow_completes (exact : s.program.Exact) (eligible : s.program.Eligible .dropFreeRow i) :
    Completes (dropFreeRow i) s fun _ _ => True := by
  obtain ⟨row, active, free⟩ := eligible
  refine .bind (.edit_of_eq_ok (Edit.fetchRow_of_active active) (.bind (.require free ?_)))
  exact .bind (.edit_of_eq_ok (Edit.dropRow_of_active exact.transposed active) (.modify trivial))

theorem dropEmptyRow_completes (exact : s.program.Exact) (eligible : s.program.Eligible .dropEmptyRow i) :
    Completes (dropEmptyRow i) s fun _ _ => True := by
  obtain ⟨row, active, empty⟩ := eligible
  refine .bind (.edit_of_eq_ok (Edit.fetchRow_of_active active) ?_)
  refine .bind (.require (beq_iff_eq.2 (List.length_eq_zero_iff.2 empty)) (.bind (.get ?_)))
  dsimp only
  split
  · exact .bind .reject
  · exact .bind (.discard (.edit_of_eq_ok (Edit.dropRow_of_active exact.transposed active) (.modify trivial)))

theorem settleEmpty_completes (exact : s.program.Exact) (eligible : s.program.Eligible .settleEmpty j) :
    Completes (settleEmpty j) s fun _ _ => True := by
  obtain ⟨column, active, empty⟩ := eligible
  refine .bind (.edit_of_eq_ok (Edit.fetchColumn_of_active active) ?_)
  refine .bind (.require (beq_iff_eq.2 (List.length_eq_zero_iff.2 empty)) (.bind (.get ?_)))
  dsimp only
  split
  · exact .bind .reject
  · obtain ⟨a, best, _⟩ := bestValue_contained (exact.columns j column active).proper column.cost
    refine .bind (.modify (fixColumn_completes exact active ?_))
    rw [best]
    rfl

theorem settleSingleton_completes (exact : s.program.Exact)
    (eligible : s.program.Eligible .settleSingleton i) : Completes (settleSingleton i) s fun _ _ => True := by
  obtain ⟨row, j, coefficient, row_active, equality, single⟩ := eligible
  have listed : (j, coefficient) ∈ row.entries := by simp [single]
  obtain ⟨column, column_active, _⟩ := exact.transposed.column_of_mem row_active listed
  refine .bind (.edit_of_eq_ok (Edit.fetchRow_of_active row_active) (.bind (.require equality ?_)))
  rw [single]
  refine .bind (.edit_of_eq_ok (Edit.fetchColumn_of_active column_active) (.bind (.get ?_)))
  dsimp only
  split
  case isFalse => exact .bind .reject
  case isTrue =>
    refine .bind
      (.modify (.bind (.discard (.edit_of_eq_ok (Edit.dropRow_of_active exact.transposed row_active) ?_))))
    obtain ⟨b, t, _, _, _, value⟩ := exact.single_value row_active equality single
    have reduced := (s.program.columns_withoutRow i j).trans (by rw [column_active, Option.map_some])
    refine fixColumn_completes (exact.withoutRow i) reduced ?_
    rw [value]
    rfl

/-- A reduction of a row or column that it applies to is carried out, or finds that there is no optimal
    solution. -/
theorem reduce_completes (exact : s.program.Exact) {r : Reduction} {k : Nat}
    (eligible : s.program.Eligible r k) : Completes (reduce r k) s fun added t => s.Performs r k added t := by
  have completes : Completes (reduce r k) s fun _ _ => True := by
    cases r with
    | dropFreeRow => exact .bind ((dropFreeRow_completes exact eligible).mono fun _ _ _ => .pure trivial)
    | addSurplus => exact .bind ((addSurplus_completes exact eligible).mono fun _ _ _ => .pure trivial)
    | addSlack => exact .bind ((addSlack_completes exact eligible).mono fun _ _ _ => .pure trivial)
    | splitFree => exact .bind ((splitFree_completes exact eligible).mono fun _ _ _ => .pure trivial)
    | shiftLower => exact .bind ((shiftLower_completes exact eligible).mono fun _ _ _ => .pure trivial)
    | flipUpper => exact .bind ((flipUpper_completes exact eligible).mono fun _ _ _ => .pure trivial)
    | splitUpper => exact .bind ((splitUpper_completes exact eligible).mono fun _ _ _ => .pure trivial)
    | substituteFixed =>
      obtain ⟨column, active, fixed⟩ := eligible
      exact .bind ((substituteFixed_completes exact active fixed).mono fun _ _ _ => .pure trivial)
    | dropEmptyRow => exact .bind ((dropEmptyRow_completes exact eligible).mono fun _ _ _ => .pure trivial)
    | settleEmpty => exact .bind ((settleEmpty_completes exact eligible).mono fun _ _ _ => .pure trivial)
    | settleSingleton =>
      exact .bind ((settleSingleton_completes exact eligible).mono fun _ _ _ => .pure trivial)
  exact (completes.with_ends (reduce_ends exact.transposed r k)).mono fun _ _ holds => holds.2

end Step

end LinearReduction
