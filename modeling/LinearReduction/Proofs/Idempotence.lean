import LinearReduction.Proofs.Exact.Program
import LinearReduction.Proofs.Exhaustion
import LinearReduction.Proofs.StandardForm

/-!
# Simplification is done at once

Bringing a program in standard form adds columns and rows, and makes rows and columns longer, but nothing that
it leaves is eliminated or brought in standard form again. Main statement:
`Session.Reaches.simplify_idempotent`, for every session that calls lead to and any settings that ask for
empty rows and columns to be removed or don't ask for standard form.
-/

namespace LinearReduction

open ExtRat
open Fault (Ends)

/-! ## Rows and columns that nothing applies to -/

section

variable {settings : Settings ExtRat} {row other : Row ExtRat}

/-- A row that isn't empty can be made longer, and has at least two coefficients then. -/
theorem Row.Spared.longer (spared : row.Spared settings) (dropEmpty : settings.dropEmpty = true)
    (bounded : other.bounds.isFree = false) (longer : row.degree < other.degree) : other.Spared settings := by
  have occupied := spared.occupied dropEmpty
  refine ⟨bounded, fun _ => by omega, ?_⟩
  rintro _ ⟨single, _⟩
  omega

/-- A row whose bounds are shifted is as it was before. -/
theorem Row.Spared.shifted (spared : row.Spared settings) (proper : row.bounds.Proper) {t : ℚ}
    (bounds : other.bounds = row.bounds.shift (.finite t)) (degree : other.degree = row.degree) :
    other.Spared settings := by
  refine ⟨?_, ?_, ?_⟩
  · rw [bounds, proper.isFree_shift]
    exact spared.bounded
  · rw [degree]
    exact spared.occupied
  · rw [bounds, proper.isPoint_shift, degree]
    exact spared.shared

theorem Bounds.Proper.isPoint_of_lt {b : Bounds ExtRat} (proper : b.Proper) (less : b.lower < b.upper) :
    b.isPoint = false := by
  refine Bool.eq_false_iff.2 fun same => ?_
  obtain ⟨a, rfl⟩ := proper.eq_point same
  exact LawfulScalar.lt_irrefl _ less

end

namespace Program.Exhausted

variable {settings : Settings ExtRat} {p : Program ExtRat} {i j : Nat} {row : Row ExtRat}
    {column : Column ExtRat}

/-- The new column is in the row alone, and takes up a range that isn't a single value. -/
theorem withRange (exhausted : p.Exhausted settings) (dropEmpty : settings.dropEmpty = true)
    {range : Bounds ExtRat} (loose : range.isPoint = false) (coefficient : ExtRat) (bound : ℚ) :
    (p.withRange i range coefficient (.finite bound)).Exhausted settings where
  rows {l other} found := by
    rw [rows_withRange] at found
    split at found
    · obtain ⟨before, active, rfl⟩ := Option.map_eq_some_iff.1 found
      exact (exhausted.rows active).longer dropEmpty rfl (by simp [Row.degree])
    · exact exhausted.rows found
  columns {k other} found := by
    rw [columns_withRange] at found
    split at found
    · cases found
      exact ⟨loose, fun _ => Nat.one_ne_zero⟩
    · exact exhausted.columns found

theorem splitColumn (exhausted : p.Exhausted settings) (dropEmpty : settings.dropEmpty = true)
    (distinct : column.entries.ordinals.Nodup) (active : p.columns.get? j = some column) :
    (p.splitColumn j column).Exhausted settings where
  rows {l other} found := by
    rw [rows_splitColumn _ distinct, Option.map_eq_some_iff] at found
    obtain ⟨before, active, rfl⟩ := found
    cases column.entries.negate.lookup l with
    | none => exact exhausted.rows active
    | some coefficient =>
      have spared := exhausted.rows active
      exact spared.longer dropEmpty spared.bounded (by simp [Row.degree, Row.extended])
  columns {k other} found := by
    have degree : column.entries.negate.length = column.degree := List.length_map ..
    rw [columns_splitColumn] at found
    split at found
    · cases found
      refine ⟨rfl, fun _ => ?_⟩
      change column.entries.negate.length ≠ 0
      rw [degree]
      exact (exhausted.columns active).occupied dropEmpty
    · split at found
      · obtain ⟨before, there, rfl⟩ := Option.map_eq_some_iff.1 found
        exact ⟨rfl, (exhausted.columns there).occupied⟩
      · exact exhausted.columns found

theorem shiftedColumn (exhausted : p.Exhausted settings) (exact : p.Exact)
    (active : p.columns.get? j = some column) (finite : Scalar.isFinite column.bounds.lower = true) :
    (p.shiftedColumn j column).Exhausted settings where
  rows {l other} found := by
    rw [rows_shiftedColumn _ (exact.transposed.columns_nodup j column active),
      Option.map_eq_some_iff] at found
    obtain ⟨before, there, rfl⟩ := found
    refine (exhausted.rows there).shifted (exact.rows l before there).proper
      (t := column.entries.coefficient l * column.bounds.lower.toRat) ?_ ?_
    · rw [← Row.bounds_absorbing (exact.column_rational active), ← eq_finite_of_isFinite finite]
    · rw [Row.degree, Row.entries_absorbing, Row.degree]
  columns {k other} found := by
    rw [columns_shiftedColumn] at found
    split at found
    · obtain ⟨before, there, rfl⟩ := Option.map_eq_some_iff.1 found
      refine ⟨?_, (exhausted.columns there).occupied⟩
      change column.bounds.range.isPoint = false
      rw [(exact.columns j column active).proper.isPoint_range (.inl finite)]
      exact (exhausted.columns active).loose
    · exact exhausted.columns found

theorem flippedColumn (exhausted : p.Exhausted settings) (exact : p.Exact)
    (active : p.columns.get? j = some column) (finite : Scalar.isFinite column.bounds.upper = true) :
    (p.flippedColumn j column).Exhausted settings where
  rows {l other} found := by
    rw [rows_flippedColumn _ (exact.transposed.columns_nodup j column active),
      Option.map_eq_some_iff] at found
    obtain ⟨before, there, rfl⟩ := found
    refine (exhausted.rows there).shifted (exact.rows l before there).proper
      (t := column.entries.coefficient l * column.bounds.upper.toRat) ?_ ?_
    · rw [← Row.bounds_absorbing (exact.column_rational active), ← eq_finite_of_isFinite finite]
    · exact List.length_map ..
  columns {k other} found := by
    rw [columns_flippedColumn] at found
    split at found
    · obtain ⟨before, there, rfl⟩ := Option.map_eq_some_iff.1 found
      have degree : before.entries.negate.length = before.degree := List.length_map ..
      refine ⟨?_, fun dropEmpty => ?_⟩
      · change column.bounds.range.isPoint = false
        rw [(exact.columns j column active).proper.isPoint_range (.inr finite)]
        exact (exhausted.columns active).loose
      · change before.entries.negate.length ≠ 0
        rw [degree]
        exact (exhausted.columns there).occupied dropEmpty
    · exact exhausted.columns found

/-- The new row has two columns, the one whose bound it keeps and a new one, which has no upper bound. -/
theorem cappedColumn (exhausted : p.Exhausted settings) (active : p.columns.get? j = some column)
    (bound : ℚ) : (p.cappedColumn j (.finite bound)).Exhausted settings where
  rows {l other} found := by
    rw [rows_cappedColumn] at found
    split at found
    · cases found
      exact ⟨rfl, fun _ => by simp [Row.degree], fun _ single => by simp [Row.degree] at single⟩
    · exact exhausted.rows found
  columns {k other} found := by
    rw [columns_cappedColumn _ (Slots.lt_size active)] at found
    split at found
    · cases found
      exact ⟨rfl, fun _ => Nat.one_ne_zero⟩
    · split at found
      · obtain ⟨before, there, rfl⟩ := Option.map_eq_some_iff.1 found
        exact ⟨rfl, fun _ => by simp [Column.degree]⟩
      · exact exhausted.columns found

end Program.Exhausted

namespace Session

variable {s t : Session ExtRat} {settings : Settings ExtRat} {r : Reduction} {k : Nat} {added : Added}

/-- Nothing that brings a program in standard form gives rise to an elimination. -/
theorem Performs.exhausted (performs : s.Performs r k added t) (forming : r.isForming = true)
    (exact : s.program.Exact) (dropEmpty : settings.dropEmpty = true)
    (exhausted : s.program.Exhausted settings) : t.program.Exhausted settings := by
  obtain ⟨record, rfl, _, rewrite⟩ :=
    performs.rewrite (by rintro rfl; cases forming) (by rintro rfl; cases forming)
  generalize t.program = q at rewrite ⊢
  cases rewrite with
  | dropFreeRow active free => exact absurd free (Bool.eq_false_iff.1 (exhausted.rows active).bounded)
  | @addSurplus i row active finite inequality =>
    have proper := (exact.rows i row active).proper
    have loose := (proper.isPoint_range (.inl finite)).trans (proper.isPoint_of_lt inequality)
    rw [eq_finite_of_isFinite finite]
    exact exhausted.withRange dropEmpty loose ..
  | @addSlack i row active finite inequality =>
    have proper := (exact.rows i row active).proper
    have loose := (proper.isPoint_range (.inr finite)).trans (proper.isPoint_of_lt inequality)
    rw [eq_finite_of_isFinite finite]
    exact exhausted.withRange dropEmpty loose ..
  | splitFree active free =>
    exact exhausted.splitColumn dropEmpty (exact.transposed.columns_nodup _ _ active) active
  | shiftLower active finite => exact exhausted.shiftedColumn exact active finite
  | flipUpper active finite => exact exhausted.flippedColumn exact active finite
  | splitUpper active grounded finite =>
    rw [eq_finite_of_isFinite finite]
    exact exhausted.cappedColumn active _
  | _ => cases forming

end Session

/-! ## When there is nothing to do -/

theorem Agenda.next?_of_exhausted {s : Session ExtRat} (exhausted : s.Exhausted) (agenda : Agenda) :
    agenda.next? s = none := by
  have nothing : ∀ {applies : Nat → Option Opportunity}, (∀ k, applies k = none) → ∀ queue,
      firstOf applies queue = none := by
    intro applies none_applies queue
    induction queue with
    | nil => rfl
    | cons k later inductionHypothesis => rw [firstOf, none_applies k, inductionHypothesis]
  rw [next?, nothing exhausted.rows, nothing exhausted.columns]
  rfl

namespace Step

variable {s : Session ExtRat}

theorem exhaust_of_exhausted (exhausted : s.Exhausted) : exhaust s = .ok () s := by
  have got : (get : Step ExtRat (Session ExtRat)) s = .ok s s := rfl
  rw [exhaust, Fault.bind_of_eq_ok got, workThrough_of_nothing (Agenda.next?_of_exhausted exhausted _)]

theorem groundColumn_of_grounded {j : Nat} {column : Column ExtRat}
    (active : s.program.columns.get? j = some column) (grounded : (column.bounds.lower == 0) = true) :
    groundColumn j s = .ok () s := by
  have fetched : edit (Edit.fetchColumn j) s = .ok column s := by
    simp only [edit, Edit.fetchColumn_of_active active]
  have lower := ExtRat.eq_of_beq grounded
  have bounded : column.bounds.isFree = false := by
    rw [Bounds.isFree, lower]
    rfl
  have finite : Scalar.isFinite column.bounds.lower = true := by
    rw [lower]
    rfl
  rw [groundColumn, Fault.bind_of_eq_ok fetched, bounded, finite, grounded]
  rfl

theorem toStandardForm_of_standard (standard : s.program.Standard s.settings) :
    toStandardForm s = .ok () s := by
  have rows : s.program.rows.active.filter (!·.2.bounds.isPoint) = [] := by
    refine List.filter_eq_nil_iff.2 fun entry listed => ?_
    rw [standard.rows (Slots.mem_active.1 listed)]
    exact Bool.false_ne_true
  have columns : s.program.columns.ordinals.forM groundColumn s = .ok ⟨⟩ s := by
    refine Fault.forM_still fun j listed => ?_
    obtain ⟨column, active⟩ := Slots.isActive_iff.1 (Slots.mem_ordinals.1 listed)
    exact groundColumn_of_grounded active (standard.columns active)
  have uppers : s.settings.splitUpperBounds = true →
      s.program.columns.active.filter (Scalar.isFinite ·.2.bounds.upper) = [] := by
    intro asked
    refine List.filter_eq_nil_iff.2 fun entry listed => ?_
    rw [standard.uppers asked (Slots.mem_active.1 listed)]
    exact Bool.false_ne_true
  have got : (get : Step ExtRat (Session ExtRat)) s = .ok s s := rfl
  have first : ∀ body : Nat × Row ExtRat → Step ExtRat PUnit, [].forM body s = .ok ⟨⟩ s := fun _ => rfl
  rw [toStandardForm, Fault.bind_of_eq_ok got, rows, Fault.bind_of_eq_ok (first _), Fault.bind_of_eq_ok got,
    Fault.bind_of_eq_ok columns, Fault.bind_of_eq_ok got]
  split
  case isTrue asked =>
    rw [uppers asked]
    rfl
  case isFalse => rfl

theorem conclude_of_coherent (coherent : s.program.isCoherent = true) : conclude s = .ok s.summary s := by
  have got : (get : Step ExtRat (Session ExtRat)) s = .ok s s := rfl
  rw [conclude, Fault.bind_of_eq_ok got, coherent]
  rfl

theorem simplify_of_exhausted (exhausted : s.Exhausted) (coherent : s.program.isCoherent = true)
    (standard : s.settings.standardForm = true → s.program.Standard s.settings) :
    simplify s = .ok s.summary s := by
  have got : (get : Step ExtRat (Session ExtRat)) s = .ok s s := rfl
  rw [simplify, Fault.bind_of_eq_ok (exhaust_of_exhausted exhausted), Fault.bind_of_eq_ok got]
  dsimp only
  split
  case isTrue form =>
    rw [Fault.bind_of_eq_ok (toStandardForm_of_standard (standard form))]
    exact conclude_of_coherent coherent
  case isFalse => exact conclude_of_coherent coherent

/-- Simplification checks the program and sums up at last. -/
theorem simplify_closes (s : Session ExtRat) :
    Ends simplify s (fun summary t => t.program.isCoherent = true ∧ summary = t.summary) fun _ _ => True := by
  refine .bind (.always (fun _ t => .bind (.get ?_)) fun _ _ => trivial)
  dsimp only
  split
  · exact .bind (.always (fun _ u => conclude_ends fun coherent => ⟨coherent, rfl⟩) fun _ _ => trivial)
  · exact conclude_ends fun coherent => ⟨coherent, rfl⟩

/-- What is left when nothing can be eliminated stays so, whether the program is brought in standard form or
    not. -/
theorem simplify_exhausts (exact : s.program.Exact) (counted : s.program.Counted)
    (dropEmpty : s.settings.dropEmpty = true) :
    Ends simplify s (fun _ t => t.settings = s.settings ∧ t.program.Exhausted s.settings)
    fun _ _ => True := by
  have round : ∀ t : Session ExtRat, t.settings = s.settings ∧ t.program.Exact ∧
      t.program.Exhausted s.settings → ∀ r k, r.isForming = true → Ends (reduce r k) t
        (fun _ u => u.settings = s.settings ∧ u.program.Exact ∧ u.program.Exhausted s.settings)
            fun _ _ => True := by
    rintro t ⟨settings, exact, exhausted⟩ r k forming
    refine (reduce_ends exact.transposed r k).mono (fun added u performs => ?_) fun _ _ _ => trivial
    exact ⟨performs.settings_eq.trans settings, performs.exact exact,
      performs.exhausted forming exact dropEmpty exhausted⟩
  refine .bind ((exhaust_ends exact.transposed counted).mono
    (fun _ t ⟨exhausted, n, eliminates⟩ => .bind (.get ?_)) fun _ _ _ => trivial)
  have advances := eliminates.reducesTo.reaches.advances exact.transposed
  have left : t.program.Exhausted s.settings := advances.settings_eq ▸ exhausted.program
  dsimp only
  split
  · have formed := toStandardForm_keeps round (fun _ _ _ => trivial)
      ⟨advances.settings_eq, advances.exact exact, left⟩
    exact .bind (formed.mono (fun _ _ ⟨settings, _, exhausted⟩ => conclude_ends
      fun _ => ⟨settings, exhausted⟩) fun _ _ _ => trivial)
  · exact conclude_ends fun _ => ⟨advances.settings_eq, left⟩

end Step

/-- Simplification that is done leaves nothing to another one, which gives the same answer and changes
    nothing. -/
theorem Session.Reaches.simplify_idempotent {p : Program ExtRat} {settings : Settings ExtRat}
    {start s t : Session ExtRat} {summary : Summary} (built : p.Built)
    (begun : Session.begin p settings = .ok start) (reaches : start.Reaches s)
    (mild : settings.standardForm = false ∨ settings.dropEmpty = true)
    (run : Step.simplify s = .ok summary t) : Step.simplify t = .ok summary t := by
  obtain ⟨coherent, rfl, _, history⟩ := reaches.history begun
  have exact := history.rewrites.exact built.exact.asMinimization
  have counted := history.rewrites.counted coherent.counted.asMinimization
  obtain ⟨closed, rfl⟩ := (Step.simplify_closes s).done_of_eq_ok run
  have left : t.settings = s.settings ∧ t.Exhausted := by
    rcases mild with unformed | dropEmpty
    · obtain ⟨exhausted, n, eliminates⟩ :=
        (Step.simplify_eliminates exact.transposed counted unformed).done_of_eq_ok run
      exact ⟨(eliminates.reducesTo.reaches.advances exact.transposed).settings_eq, exhausted⟩
    · obtain ⟨settings, exhausted⟩ := (Step.simplify_exhausts exact counted dropEmpty).done_of_eq_ok run
      exact ⟨settings, .of_program (settings ▸ exhausted)⟩
  refine Step.simplify_of_exhausted left.2 closed fun form => ?_
  rw [left.1] at form ⊢
  exact (Step.simplify_forms ExtRat.subtractsAlike exact.transposed counted form).done_of_eq_ok run

theorem rangedProgram_built : rangedProgram.Built :=
  .newCoefficient (.newCoefficient (.newRow (.newColumn (.newColumn (.empty .minimize)
    (show Build.newColumn ⟨.finite 1, .finite 5⟩ .continuous (.finite 1) _ = .ok 0 _ by rfl))
    (show Build.newColumn ⟨.negInf, .posInf⟩ .continuous (.finite 0) _ = .ok 1 _ by rfl))
    (show Build.newRow ⟨.finite 2, .finite 6⟩ _ = .ok 0 _ by rfl))
    (show Build.newCoefficient 0 0 (.finite 1) _ = .ok () _ by rfl))
    (show Build.newCoefficient 0 1 (.finite 1) _ = .ok () _ by rfl)

/-- The surplus, the negative part and the companions are neither eliminated nor split again. -/
theorem ranged_simplify_idempotent : Step.simplify rangedEnd = .ok rangedEnd.summary rangedEnd :=
  Session.Reaches.simplify_idempotent rangedProgram_built rangedStart_begun .refl (.inr rfl)
    rangedStart_simplified

end LinearReduction
