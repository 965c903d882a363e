import LinearReduction.Proofs.Exact.Condensing
import LinearReduction.Proofs.Exact.Solutions
import LinearReduction.Proofs.Exact.Statuses

/-!
# Recovered bases

Main statement: a basis of the reduced program is recovered as a basis of the program at the start, if every
equality row is outside of the basis, and every column with zero as its only bound is in the basis or at zero.
-/

namespace LinearReduction

open ExtRat

/-- A basis outside of which all equalities are, with nonnegative columns in the basis or at zero. -/
structure Program.IsRegularBasis (p : Program ExtRat) (status : Sides Status) : Prop where
  isBasis : p.IsBasis status
  equalities : ∀ i row s, p.rows.get? i = some row → row.bounds.isPoint = true → status.rows[i]? = some s →
    s.isNonbasic = true
  nonnegatives : ∀ j column s, p.columns.get? j = some column → column.bounds = .nonnegative →
    status.columns[j]? = some s → s = .basic ∨ s = .atLower

/-- The statuses that are listed for rows and columns. -/
def Sides.statuses (a : Sides Status) : Valuation Status :=
  ⟨fun i => a.rows.getD i .basic, fun j => a.columns.getD j .basic⟩

theorem Sides.sides_statuses {a : Sides Status} {rowCount columnCount : Nat} (rows : a.rows.length = rowCount)
    (columns : a.columns.length = columnCount) : a.statuses.sides rowCount columnCount = a := by
  have listed : ∀ list : List Status, (List.range list.length).map (list.getD · .basic) = list := by
    intro list
    apply List.ext_getElem
    · simp
    · intro k inside inside'
      simp [List.getD_eq_getElem?_getD, List.getElem?_eq_getElem inside']
  obtain ⟨rowStatuses, columnStatuses⟩ := a
  subst rows columns
  exact congrArg₂ Sides.mk (listed rowStatuses) (listed columnStatuses)

theorem Slots.spread_eq_getD {β γ : Type} {s : Slots γ} {values : List β} {otherwise : β}
    (fits : values.length = s.active.length) {a i : Nat} {entry : γ}
    (listed : s.active[a]? = some (i, entry)) : s.spread otherwise values i = values.getD a otherwise := by
  have inside : a < values.length := fits ▸ (List.getElem?_eq_some_iff.1 listed).1
  rw [List.getD_eq_getElem?_getD, List.getElem?_eq_getElem inside]
  exact spread_eq fits listed (List.getElem?_eq_getElem inside)

section

variable {p c : Program ExtRat} {v : Valuation Status} {x u y m : Nat → ℚ}

/-! ## Bases of copies -/

/-- Points that vanish outside of the basis are the same for a copy without empty slots. -/
theorem Program.Copied.answers_iff (copied : p.Copied p.columns.active.length c) (exact : p.Exact)
    {w : Valuation Status} (rows : ∀ a i row, p.rows.active[a]? = some (i, row) → v.rows i = w.rows a)
    (columns : ∀ b j column, p.columns.active[b]? = some (j, column) → v.columns j = w.columns b)
    (columns_renumbered : p.columns.Renumbers u x) (rows_renumbered : p.rows.Renumbers m y) :
    c.Answers w m u ↔ p.Answers v y x := by
  constructor
  · intro answers
    refine ⟨fun j active nonbasic => ?_, fun i row active nonbasic => ?_⟩
    · obtain ⟨column, found⟩ := Slots.isActive_iff.1 active
      have listed := Slots.getElem?_active_iff.2 ⟨found, rfl⟩
      rw [← columns_renumbered _ j column listed]
      exact answers.columns _ (Slots.isActive_of_eq_some (copied.column_eq listed))
        (columns _ j column listed ▸ nonbasic)
    · have listed := Slots.getElem?_active_iff.2 ⟨active, rfl⟩
      obtain ⟨row', found, _⟩ := copied.row_eq listed
      rw [← copied.row_value exact columns_renumbered listed found, ← rows_renumbered _ i row listed]
      exact answers.rows _ row' found (rows _ i row listed ▸ nonbasic)
  · intro answers
    refine ⟨fun b active nonbasic => ?_, fun a row' found nonbasic => ?_⟩
    · obtain ⟨column', found⟩ := Slots.isActive_iff.1 active
      obtain ⟨j, column, listed, rfl⟩ := copied.exists_column found
      have before := Slots.mem_active.1 (List.mem_of_getElem? listed)
      rw [columns_renumbered b j column listed]
      exact answers.columns j (Slots.isActive_of_eq_some before) (columns b j column listed ▸ nonbasic)
    · obtain ⟨i, row, listed, _⟩ := copied.exists_row found
      rw [copied.row_value exact columns_renumbered listed found, rows_renumbered a i row listed]
      exact answers.rows i row (Slots.mem_active.1 (List.mem_of_getElem? listed))
        (rows a i row listed ▸ nonbasic)

theorem Program.Copied.based (copied : p.Copied p.columns.active.length c) (exact : p.Exact)
    {w : Valuation Status} (rows : ∀ a i row, p.rows.active[a]? = some (i, row) → v.rows i = w.rows a)
    (columns : ∀ b j column, p.columns.active[b]? = some (j, column) → v.columns j = w.columns b)
    (based : c.Based w) : p.Based v := by
  refine ⟨fun x answers j active => ?_, fun y => ?_⟩
  · have renumbers := p.columns.renumbers_getD x
    have zero : p.rows.Renumbers 0 0 := fun _ _ _ _ => rfl
    obtain ⟨column, found⟩ := Slots.isActive_iff.1 active
    have listed := Slots.getElem?_active_iff.2 ⟨found, rfl⟩
    rw [← renumbers _ j column listed]
    exact based.unique _ ((copied.answers_iff exact rows columns renumbers zero).2 answers) _
      (Slots.isActive_of_eq_some (copied.column_eq listed))
  · obtain ⟨u, answers⟩ := based.solvable fun a => y (p.rows.ordinals.getD a 0)
    exact ⟨_, (copied.answers_iff exact rows columns (p.columns.renumbers_idxOf u)
      (p.rows.renumbers_getD y)).1 answers⟩

/-- The sense of a program has no part in what a basis is. -/
theorem Program.Based.of_asMinimization (based : p.asMinimization.Based v) : p.Based v := by
  have same : ∀ {x y : Nat → ℚ}, p.asMinimization.Answers v y x ↔ p.Answers v y x := by
    intro x y
    refine ⟨fun ⟨columns, rows⟩ => ⟨fun j active => ?_, fun i row active => ?_⟩,
      fun ⟨columns, rows⟩ => ⟨fun j active => ?_, fun i row active => ?_⟩⟩
    · exact columns j (by rwa [isActive_columns_asMinimization])
    · exact rows i row (by rwa [rows_asMinimization])
    · exact columns j (by rwa [isActive_columns_asMinimization] at active)
    · exact rows i row (by rwa [rows_asMinimization] at active)
  refine ⟨fun x answers j active => ?_, fun y => ?_⟩
  · exact based.unique x (same.2 answers) j (by rwa [isActive_columns_asMinimization])
  · obtain ⟨x, answers⟩ := based.solvable y
    exact ⟨x, same.1 answers⟩

end

variable {p c : Program ExtRat} {settings : Settings ExtRat} {start s : Session ExtRat}
    {status : Sides Status}

namespace Program.IsRegularBasis

theorem isMatchedBy (basis : c.IsRegularBasis status)
    (copied : s.program.Copied s.program.columns.active.length c) : s.isMatchedBy status = true :=
  Session.isMatchedBy_iff.2 ⟨basis.isBasis.rows_length.trans copied.rows_size,
    basis.isBasis.columns_length.trans copied.columns_size⟩

theorem groundsNonnegative (basis : c.IsRegularBasis status)
    (copied : s.program.Copied s.program.columns.active.length c) : s.GroundsNonnegative status := by
  intro k j column st listed bounds given
  exact basis.nonnegatives k _ st (copied.column_eq listed) bounds given

theorem stands_spread (basis : c.IsRegularBasis status)
    (copied : s.program.Copied s.program.columns.active.length c) (exact : s.program.Exact) :
    s.program.Stands (s.spread .basic status) := by
  obtain ⟨rows_fit, columns_fit⟩ := Session.isMatchedBy_iff.1 (basis.isMatchedBy copied)
  constructor
  · have based : c.Based status.statuses := by
      rw [← Program.isBasis_sides_iff (copied.exact exact) ⟨copied.rows_full, copied.columns_full⟩,
        Sides.sides_statuses basis.isBasis.rows_length basis.isBasis.columns_length]
      exact basis.isBasis
    have rows_read : ∀ a i row, s.program.rows.active[a]? = some (i, row) →
        (s.spread .basic status).rows i = status.statuses.rows a :=
      fun a i row listed => Slots.spread_eq_getD rows_fit listed
    have columns_read : ∀ b j column, s.program.columns.active[b]? = some (j, column) →
        (s.spread .basic status).columns j = status.statuses.columns b :=
      fun b j column listed => Slots.spread_eq_getD columns_fit listed
    exact copied.based exact rows_read columns_read based
  · intro i held
    obtain ⟨row, active⟩ := Slots.isActive_iff.1 held.isActive
    obtain ⟨a, listed⟩ := List.getElem?_of_mem (Slots.mem_active.2 active)
    have inside : a < status.rows.length := rows_fit ▸ (List.getElem?_eq_some_iff.1 listed).1
    obtain ⟨row', found, bounds⟩ := copied.row_eq listed
    have read : (s.spread .basic status).rows i = status.rows[a] :=
      Slots.spread_eq rows_fit listed (List.getElem?_eq_getElem inside)
    rw [read]
    exact basis.equalities a row' _ found (bounds ▸ held.isPoint active) (List.getElem?_eq_getElem inside)

end Program.IsRegularBasis

/-- A basis of the reduced program is recovered as a basis. -/
theorem Session.Reaches.basis_recovered (built : p.Built) (begun : Session.begin p settings = .ok start)
    (reaches : start.Reaches s) : ∃ c, s.program.condense = .ok c ∧
      ∀ (reduced : Solution ExtRat) (status : Sides Status), reduced.status? = some status →
        c.program.IsRegularBasis status → ∃ recovered status', s.recover reduced = .ok recovered ∧
          recovered.solution.status? = some status' ∧ p.IsBasis status' := by
  have exact := built.exact
  have descends := reaches.descendsFrom begun
  have rewrites := descends.history.rewrites
  have exact_after := rewrites.exact exact.asMinimization
  obtain ⟨c, condensed, copied⟩ := exact_after.condense_eq_ok
  refine ⟨_, condensed, fun reduced status given basis => ?_⟩
  change c.IsRegularBasis status at basis
  have full := Program.full_asMinimization.2 built.full
  have matched := basis.isMatchedBy copied
  -- The statuses have an answer for every record, so that the solution is recovered.
  obtain ⟨w, possible, _⟩ := descends.history.statuses_possible descends.transposed
    (fits_spread matched (basis.groundsNonnegative copied))
  obtain ⟨recovered, run⟩ := recover_eq_ok descends full (isMatchedBy_primal_of_status given matched) (by
    intro other also
    cases given.symm.trans also
    exact ⟨w, possible⟩)
  refine ⟨recovered, _, run, recover_eq_ok_status descends given possible run, ?_⟩
  have stands := rewrites.stands_before exact.asMinimization possible (basis.stands_spread copied exact_after)
  rw [Program.rows_asMinimization, Program.size_columns_asMinimization,
    Program.isBasis_sides_iff exact built.full]
  exact stands.based.of_asMinimization

/-- The slack is at zero. The column that is left of the two at the start is in the basis, with its
    companion. -/
def mixedStatus : Sides Status :=
  ⟨[.fixed, .fixed], [.basic, .atLower, .basic]⟩

theorem mixedStatus_isBasis : mixedReduced.IsBasis mixedStatus where
  rows_length := by rfl
  columns_length := by rfl
  count_eq := by rfl
  unique := by
    rintro point ⟨⟨three, finite⟩, rows, columns⟩
    match point, three with
    | [a, b, c], _ =>
      obtain ⟨x, rfl⟩ : ∃ x, a = .finite x := ⟨a.toRat, eq_finite_of_isFinite (finite a (by simp))⟩
      obtain ⟨z, rfl⟩ : ∃ z, c = .finite z := ⟨c.toRat, eq_finite_of_isFinite (finite c (by simp))⟩
      obtain rfl : b = .finite 0 := columns 1 .atLower rfl rfl
      have first : ExtRat.finite (-0 + 1 * x + 1 * 0) = .finite 0 := rows 0 _ .fixed rfl rfl rfl
      have second : ExtRat.finite (-0 + 1 * x + 1 * z) = .finite 0 := rows 1 _ .fixed rfl rfl rfl
      have x_zero : x = 0 := by simpa using ExtRat.finite.inj first
      have z_zero : z = 0 := by simpa [x_zero] using ExtRat.finite.inj second
      simp [x_zero, z_zero]
      rfl

theorem mixedStatus_isRegularBasis : mixedReduced.IsRegularBasis mixedStatus where
  isBasis := mixedStatus_isBasis
  equalities := by
    intro i row s active _ given
    match i, given with
    | 0, given => cases given; rfl
    | 1, given => cases given; rfl
  nonnegatives := by
    intro j column s active _ given
    match j, given with
    | 0, given => cases given; exact .inl rfl
    | 1, given => cases given; exact .inr rfl
    | 2, given => cases given; exact .inl rfl

/-- The column that was settled is in the basis as well, in the place of the row that settled it. -/
theorem mixed_basis_recovered : ∃ recovered status',
    mixedSession.recover Session.mixedSolution = .ok recovered ∧
      recovered.solution.status? = some status' ∧ mixedProgram.IsBasis status' := by
  obtain ⟨c, condensed, recovers⟩ :=
    Session.Reaches.basis_recovered mixedProgram_built mixedStart_begun mixedSession_reached
  obtain rfl := Except.ok.inj (condensed.symm.trans mixedSession_condensed)
  exact recovers Session.mixedSolution mixedStatus rfl mixedStatus_isRegularBasis

end LinearReduction
