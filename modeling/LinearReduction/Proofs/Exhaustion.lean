import LinearReduction.Proofs.Session.Turns

/-!
# Eliminations end

Rows and columns are looked at in turns, and whatever loses coefficients is looked at again, until nothing is
waiting. This comes to an end, and then no elimination that the settings ask for applies any more. Main
statement: `Session.Reaches.eliminations_end`, for every session that calls lead to, any settings and any
queues.
-/

namespace LinearReduction

open Fault (Ends)

variable {Q : Type} [FifoSet Q] {α : Type} [Scalar α]

/-- No elimination that the settings ask for applies to a row. -/
structure Row.Spared (row : Row α) (settings : Settings α) : Prop where
  bounded : row.bounds.isFree = false
  occupied : settings.dropEmpty = true → row.degree ≠ 0
  shared : settings.dropSingletonRows = true → ¬ (row.degree = 1 ∧ row.bounds.isPoint = true)

/-- No elimination that the settings ask for applies to a column. -/
structure Column.Spared (column : Column α) (settings : Settings α) : Prop where
  loose : column.bounds.isPoint = false
  occupied : settings.dropEmpty = true → column.degree ≠ 0

/-- No elimination that the settings ask for applies to any row or column. -/
structure Program.Exhausted (p : Program α) (settings : Settings α) : Prop where
  rows : ∀ {i row}, p.rows.get? i = some row → row.Spared settings
  columns : ∀ {j column}, p.columns.get? j = some column → column.Spared settings

namespace Session

variable {s t : Session α}

theorem Exhausted.program (exhausted : s.Exhausted) : s.program.Exhausted s.settings := by
  refine ⟨fun {i row} active => ⟨?_, fun dropEmpty empty => ?_, ?_⟩,
    fun {j column} active => ⟨?_, fun dropEmpty empty => ?_⟩⟩
  · exact Bool.eq_false_iff.2 fun free => exhausted.not_eligible (r := .dropFreeRow) rfl i ⟨row, active, free⟩
  · exact exhausted.not_eligible (r := .dropEmptyRow) dropEmpty i ⟨row, active,
      List.length_eq_zero_iff.1 empty⟩
  · rintro dropSingletonRows ⟨degree, equality⟩
    obtain ⟨⟨j, coefficient⟩, single⟩ := List.length_eq_one_iff.1 degree
    exact exhausted.not_eligible (r := .settleSingleton) dropSingletonRows i
      ⟨row, j, coefficient, active, equality, single⟩
  · exact Bool.eq_false_iff.2 fun fixed => exhausted.not_eligible (r := .substituteFixed) rfl j
      ⟨column, active, fixed⟩
  · exact exhausted.not_eligible (r := .settleEmpty) dropEmpty j ⟨column, active,
      List.length_eq_zero_iff.1 empty⟩

/-- Rows and columns to which nothing applies are proposed for nothing. -/
theorem Exhausted.of_program (exhausted : s.program.Exhausted s.settings) : s.Exhausted := by
  refine ⟨fun i => ?_, fun j => ?_⟩
  · cases found : s.rowOpportunity? i with
    | none => rfl
    | some e =>
      cases rowOpportunity_of_eq_some found with
      | dropEmptyRow active empty wanted =>
        exact absurd (congrArg List.length empty) ((exhausted.rows active).occupied wanted)
      | dropFreeRow active free => exact absurd free (Bool.eq_false_iff.1 (exhausted.rows active).bounded)
      | settleSingleton active equality single wanted =>
        exact absurd ⟨congrArg List.length single, equality⟩ ((exhausted.rows active).shared wanted)
  · cases found : s.columnOpportunity? j with
    | none => rfl
    | some e =>
      cases columnOpportunity_of_eq_some found with
      | settleEmpty active empty wanted =>
        exact absurd (congrArg List.length empty) ((exhausted.columns active).occupied wanted)
      | substituteFixed active fixed =>
        exact absurd fixed (Bool.eq_false_iff.1 (exhausted.columns active).loose)

end Session

variable [LawfulScalar α]

/-- Looking at one row or column after the other ends after a bounded number of turns, and either nothing is
    waiting then or a turn was stopped. If it wasn't stopped, then no elimination applies any more. -/
theorem Session.Reaches.eliminations_end {p : Program α} {settings : Settings α} {start s : Session α}
    (begun : Session.begin p settings = .ok start) (reaches : start.Reaches s) :
    (∀ n, ∀ rest : Queues Q, ∀ t, Turns (Queues.full s.program) s n rest t →
      n ≤ (s.program.extent + 1) * (s.program.slots + 1)) ∧
    (∃ n, ∃ rest : Queues Q, ∃ t, Turns (Queues.full s.program) s n rest t ∧
      (Step.turn rest t = .ok none t ∧ Step.exhaust s = .ok () t ∨
        ∃ fault u, Step.turn rest t = .error fault u ∧ Step.exhaust s = .error fault u)) ∧
    (∀ t, Step.exhaust s = .ok () t → t.program.Exhausted settings) ∧
    (settings.standardForm = false → ∀ summary t, Step.simplify s = .ok summary t →
      t.program.Exhausted settings) := by
  obtain ⟨coherent, rfl, _, history⟩ := reaches.history begun
  have same := history.transposed coherent.transposed.asMinimization
  have counted := history.rewrites.counted coherent.counted.asMinimization
  have attends : s.Attends (Queues.full s.program : Queues Q) := attends_full same counted
  refine ⟨fun n rest t turns => ?_, ?_, fun t run => ?_, fun unformed summary t run => ?_⟩
  · have most := (turns.potential_le attends).2
    have listed := attends.within.length_le
    unfold Agenda.potential at most
    rw [Nat.succ_mul]
    omega
  · have followed := Step.workThrough_follows_turns attends counted.extent_le
    rw [Queues.agenda_full] at followed
    exact followed
  · obtain ⟨exhausted, n, eliminates⟩ := (Step.exhaust_ends same counted).done_of_eq_ok run
    have settings := (eliminates.reducesTo.reaches.advances same).settings_eq
    exact settings ▸ exhausted.program
  · obtain ⟨exhausted, n, eliminates⟩ := (Step.simplify_eliminates same counted unformed).done_of_eq_ok run
    have settings := (eliminates.reducesTo.reaches.advances same).settings_eq
    exact settings ▸ exhausted.program

/-! ## A row that is looked at again -/

/-- Minimize a column next to one with a single value, given the sum of both. -/
def summedProgram : Program ExtRat :=
  (((((Program.empty .minimize).pushColumn (.point (.finite 1)) .continuous (.finite 0)).pushColumn
    ⟨.finite 0, .finite 5⟩ .continuous (.finite 1)).pushRow (.point (.finite 3))).link 0 0
      (.finite 1)).link 0 1 (.finite 1)

def summedStart : Session ExtRat where
  program := summedProgram
  settings := ⟨0, 0, true, true, false, false⟩
  stack := .empty
  origin := summedProgram.origin

/-- The session after the first column was substituted, so that the row settled the other one. -/
def summedEnd : Session ExtRat where
  program := ⟨.minimize, .finite 2, ⟨#[none], 0⟩, ⟨#[none, none], 0⟩⟩
  settings := summedStart.settings
  stack := .ofRecords [.substituteFixed 1 (.finite 2) (.finite 1) [],
    .settleSingleton 0 1 (.finite 1) (.finite 2), .substituteFixed 0 (.finite 1) (.finite 0) [(0, .finite 1)]]
  origin := summedStart.origin

theorem summedStart_begun : Session.begin summedProgram summedStart.settings = .ok summedStart := by
  rfl

theorem summedStart_simplified : Step.simplify summedStart = .ok summedEnd.summary summedEnd :=
  Session.simplified_of_test (by decide +kernel)

/-- The row has two columns when it is looked at first, and is looked at again when the first one is
    substituted. -/
theorem summed_eliminations_end :
    (∀ n, ∀ rest : Queues (List Nat), ∀ t,
      Session.Turns (Queues.full summedStart.program) summedStart n rest t → n ≤ 16) ∧
    (∃ n, ∃ rest : Queues (List Nat), ∃ t,
      Session.Turns (Queues.full summedStart.program) summedStart n rest t ∧
      (Step.turn rest t = .ok none t ∧ Step.exhaust summedStart = .ok () t ∨
        ∃ fault u, Step.turn rest t = .error fault u ∧ Step.exhaust summedStart = .error fault u)) ∧
    summedEnd.program.Exhausted summedStart.settings := by
  obtain ⟨bounded, ended, _, simplified⟩ :=
    Session.Reaches.eliminations_end (Q := List Nat) summedStart_begun .refl
  exact ⟨bounded, ended, simplified rfl _ _ summedStart_simplified⟩

end LinearReduction
