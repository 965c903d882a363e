import LinearReduction.Proofs.Session.Eligible

/-!
# Lists of rows and columns to be brought in standard form

The loops of standard form go through rows and columns that were listed before, while reductions add others.
Main statements: what is still to come on each list is as it was listed, and columns that were dealt with
start at zero.
-/

namespace LinearReduction

variable {α : Type} [Scalar α] {s t : Session α} {r : Reduction} {i j k : Nat} {added : Added}

namespace Session.Performs

/-- Making a row an equality, or removing it, leaves all other rows as they are. -/
theorem rows_eq (performs : s.Performs r i added t) (kind : r = .dropFreeRow ∨ r = .addSurplus ∨
      r = .addSlack) {l : Nat} (apart : i ≠ l) : t.program.rows.get? l = s.program.rows.get? l := by
  obtain ⟨record, rfl, same, rewrite⟩ :=
    performs.rewrite (by rintro rfl; simp at kind) (by rintro rfl; simp at kind)
  generalize t.program = q at rewrite ⊢
  cases rewrite with
  | @dropFreeRow m row active free =>
    obtain rfl : m = i := same
    exact (Program.rows_withoutRow ..).trans (if_neg apart)
  | @addSurplus m row active finite inequality =>
    obtain rfl : m = i := same
    exact (Program.rows_withRange ..).trans (if_neg apart)
  | @addSlack m row active finite inequality =>
    obtain rfl : m = i := same
    exact (Program.rows_withRange ..).trans (if_neg apart)
  | _ => simp [Record.reduction] at kind

/-- A column in standard form starts at zero, and so do columns that were added. All others keep their
    bounds. -/
theorem columns_bounds (performs : s.Performs r j added t)
    (kind : r = .splitFree ∨ r = .shiftLower ∨ r = .flipUpper ∨ r = .splitUpper) :
    (∀ column, t.program.columns.get? j = some column → column.bounds.lower = 0) ∧
      ∀ k, j ≠ k → (k = s.program.columns.size ∧
        ∃ column, t.program.columns.get? k = some column ∧ column.bounds = .nonnegative) ∨
          (t.program.columns.get? k).map (·.bounds) = (s.program.columns.get? k).map (·.bounds) := by
  obtain ⟨record, rfl, same, rewrite⟩ :=
    performs.rewrite (by rintro rfl; simp at kind) (by rintro rfl; simp at kind)
  generalize t.program = q at rewrite ⊢
  cases rewrite with
  | @splitFree n column active free =>
    obtain rfl : n = j := same
    refine ⟨fun now found => ?_, fun k apart => ?_⟩
    · rw [Program.columns_splitColumn, if_neg (Slots.ne_size active), if_pos rfl] at found
      obtain ⟨before, _, rfl⟩ := Option.map_eq_some_iff.1 found
      rfl
    · rw [Program.columns_splitColumn, if_neg apart]
      split
      case isTrue last => exact .inl ⟨last, _, rfl, rfl⟩
      case isFalse => exact .inr rfl
  | @shiftLower n column active finite =>
    obtain rfl : n = j := same
    refine ⟨fun now found => ?_, fun k apart => .inr ?_⟩
    · rw [Program.columns_shiftedColumn, if_pos rfl] at found
      obtain ⟨before, _, rfl⟩ := Option.map_eq_some_iff.1 found
      rfl
    · rw [Program.columns_shiftedColumn, if_neg apart]
  | @flipUpper n column active finite =>
    obtain rfl : n = j := same
    refine ⟨fun now found => ?_, fun k apart => .inr ?_⟩
    · rw [Program.columns_flippedColumn, if_pos rfl] at found
      obtain ⟨before, _, rfl⟩ := Option.map_eq_some_iff.1 found
      rfl
    · rw [Program.columns_flippedColumn, if_neg apart]
  | @splitUpper n column active grounded finite =>
    obtain rfl : n = j := same
    have inside := Slots.lt_size active
    refine ⟨fun now found => ?_, fun k apart => ?_⟩
    · rw [Program.columns_cappedColumn _ inside, if_neg (Slots.ne_size active), if_pos rfl] at found
      obtain ⟨before, _, rfl⟩ := Option.map_eq_some_iff.1 found
      rfl
    · rw [Program.columns_cappedColumn _ inside, if_neg apart]
      split
      case isTrue last => exact .inl ⟨last, _, rfl, rfl⟩
      case isFalse => exact .inr rfl
  | _ => simp [Record.reduction] at kind

/-- Another column is still there, with the same bounds. -/
theorem column_kept (performs : s.Performs r j added t)
    (kind : r = .splitFree ∨ r = .shiftLower ∨ r = .flipUpper ∨ r = .splitUpper) (apart : j ≠ k)
    {column : Column α} (active : s.program.columns.get? k = some column) :
    ∃ now, t.program.columns.get? k = some now ∧ now.bounds = column.bounds := by
  rcases (performs.columns_bounds kind).2 k apart with ⟨last, _⟩ | same
  · exact absurd last (Slots.ne_size active)
  · rw [active, Option.map_some] at same
    obtain ⟨now, found, bounds⟩ := Option.map_eq_some_iff.1 same
    exact ⟨now, found, bounds⟩

end Session.Performs

/-! ## What is still to come -/

namespace Session

/-- Rows that are still to be made equalities. -/
structure RowsListed (rest : List (Nat × Row α)) (s : Session α) : Prop where
  distinct : (rest.map (·.1)).Nodup
  active : ∀ i row, (i, row) ∈ rest → s.program.rows.get? i = some row

omit [Scalar α] in
theorem RowsListed.start (s : Session α) (chosen : Nat × Row α → Bool) :
    RowsListed (s.program.rows.active.filter chosen) s :=
  ⟨s.program.rows.nodup_ordinals.sublist (List.filter_sublist.map _),
    fun _ _ listed => Slots.mem_active.1 (List.mem_filter.1 listed).1⟩

theorem RowsListed.tail {row : Row α} {rest : List (Nat × Row α)} (listed : RowsListed ((i, row) :: rest) s)
    (performs : s.Performs r i added t) (kind : r = .dropFreeRow ∨ r = .addSurplus ∨ r = .addSlack) :
    RowsListed rest t := by
  obtain ⟨absent, distinct⟩ := List.nodup_cons.1 listed.distinct
  refine ⟨distinct, fun l other later => ?_⟩
  have apart : i ≠ l := by
    rintro rfl
    exact absent (List.mem_map.2 ⟨_, later, rfl⟩)
  rw [performs.rows_eq kind apart]
  exact listed.active l other (List.mem_cons_of_mem _ later)

/-- Columns that are still to be made nonnegative. All others start at zero already. -/
structure ColumnsListed (rest : List Nat) (s : Session α) : Prop where
  distinct : rest.Nodup
  active : ∀ j ∈ rest, s.program.columns.isActive j = true
  grounded : ∀ j column, s.program.columns.get? j = some column → j ∉ rest → column.bounds.lower = 0

theorem ColumnsListed.start (s : Session α) : ColumnsListed s.program.columns.ordinals s :=
  ⟨s.program.columns.nodup_ordinals, fun _ listed => Slots.mem_ordinals.1 listed, fun _ _ active absent =>
    absurd (Slots.mem_ordinals.2 (Slots.isActive_of_eq_some active)) absent⟩

theorem ColumnsListed.tail {rest : List Nat} (listed : ColumnsListed (j :: rest) s)
    (performs : s.Performs r j added t) (kind : r = .splitFree ∨ r = .shiftLower ∨ r = .flipUpper) :
    ColumnsListed rest t := by
  obtain ⟨absent, distinct⟩ := List.nodup_cons.1 listed.distinct
  have kinds := kind.imp_right (Or.imp_right (Or.inl (b := r = .splitUpper)))
  refine ⟨distinct, fun k later => ?_, fun k column found out => ?_⟩
  · have apart : j ≠ k := by
      rintro rfl
      exact absent later
    obtain ⟨column, active⟩ := Slots.isActive_iff.1 (listed.active k (List.mem_cons_of_mem _ later))
    obtain ⟨now, found, _⟩ := performs.column_kept kinds apart active
    exact Slots.isActive_of_eq_some found
  · by_cases same : j = k
    · subst same
      exact (performs.columns_bounds kinds).1 column found
    · rcases (performs.columns_bounds kinds).2 k same with ⟨_, other, also, nonnegative⟩ | bounds
      · cases found.symm.trans also
        rw [nonnegative]
        rfl
      · rw [found, Option.map_some] at bounds
        obtain ⟨before, active, bounds⟩ := Option.map_eq_some_iff.1 bounds.symm
        rw [← bounds]
        exact listed.grounded k before active (by simp [Ne.symm same, out])

/-- Columns whose upper bounds are still to be moved into rows, each with the bounds that it was listed
    with. -/
structure UppersListed (rest : List (Nat × Column α)) (s : Session α) : Prop where
  distinct : (rest.map (·.1)).Nodup
  active : ∀ j column, (j, column) ∈ rest →
    ∃ now, s.program.columns.get? j = some now ∧ now.bounds = column.bounds

omit [Scalar α] in
theorem UppersListed.start (s : Session α) (chosen : Nat × Column α → Bool) :
    UppersListed (s.program.columns.active.filter chosen) s :=
  ⟨s.program.columns.nodup_ordinals.sublist (List.filter_sublist.map _),
    fun _ column listed => ⟨column, Slots.mem_active.1 (List.mem_filter.1 listed).1, rfl⟩⟩

theorem UppersListed.tail {column : Column α} {rest : List (Nat × Column α)}
    (listed : UppersListed ((j, column) :: rest) s) (performs : s.Performs .splitUpper j added t) :
    UppersListed rest t := by
  obtain ⟨absent, distinct⟩ := List.nodup_cons.1 listed.distinct
  refine ⟨distinct, fun k other later => ?_⟩
  have apart : j ≠ k := by
    rintro rfl
    exact absent (List.mem_map.2 ⟨_, later, rfl⟩)
  obtain ⟨before, active, bounds⟩ := listed.active k other (List.mem_cons_of_mem _ later)
  obtain ⟨now, found, same⟩ := performs.column_kept (by simp) apart active
  exact ⟨now, found, same.trans bounds⟩

end Session

end LinearReduction
