import LinearReduction.Proofs.Program.Sound
import LinearReduction.Proofs.Session.Balance
import LinearReduction.Workbench

/-!
# Soundness of the program at hand

The two views of the coefficients are one matrix after any commands, in exact arithmetic and in binary
floating point. A command that is refused, or that finds out that there is no optimum, has made whole
reductions up to there. Main statement: `Workbench.program_sound`, for any list of commands that doesn't run
into a breach.
-/

namespace LinearReduction

variable {α : Type} [Scalar α]

/-! ## Reductions -/

section

variable {settings : Settings α} {p q : Program α} {r : Record α} {records : List (Record α)}

variable [LawfulSigns α]

theorem Rewrite.valued (rewrite : Rewrite settings p r q) (same : p.Transposed) (valued : p.Valued) :
    q.Valued := by
  -- New coefficients are one, its opposite, or the opposites of those of a column.
  have one : Scalar.IsCoefficient (1 : α) := LawfulSigns.isCoefficient_one
  cases rewrite with
  | dropFreeRow active free => exact valued.withoutRow _
  | addSurplus active finite inequality =>
    exact ((valued.pushColumn ..).link _ _ (LawfulSigns.isCoefficient_neg one)).adjustRow _ fun _ => rfl
  | addSlack active finite inequality => exact ((valued.pushColumn ..).link _ _ one).adjustRow _ fun _ => rfl
  | splitFree active free =>
    refine ((valued.adjustColumn ..).pushColumn ..).linkAll _ fun entry listed => ?_
    obtain ⟨other, before, negated⟩ := Entries.mem_negate.1 listed
    rw [negated]
    exact LawfulSigns.isCoefficient_neg (valued.of_column same active _ before)
  | shiftLower active finite => exact (valued.absorbed ..).adjustColumn ..
  | flipUpper active finite => exact (((valued.absorbed ..).adjustColumn ..).negatedColumn _).adjustColumn ..
  | splitUpper active grounded finite =>
    exact ((((valued.adjustColumn ..).pushColumn ..).pushRow _).link _ _ one).link _ _ one
  | substituteFixed active fixed finite => exact (valued.withoutColumn _).absorbed ..
  | dropEmptyRow active empty within => exact valued.withoutRow _
  | settleEmpty active empty bounded => exact valued.adjustColumn ..
  | settleSingleton row_active equality single column_active admitted =>
    exact (valued.withoutRow _).adjustColumn ..

theorem Rewrite.sound (rewrite : Rewrite settings p r q) (sound : p.Sound) : q.Sound :=
  ⟨rewrite.transposed sound.transposed, rewrite.valued sound.transposed sound.valued,
    rewrite.counted sound.counted⟩

theorem Session.Advances.sound {s t : Session α} (advances : s.Advances t) (sound : s.program.Sound) :
    t.program.Sound := by
  obtain ⟨news, history, _⟩ := advances.history
  exact history.rewrites.preserves Rewrite.sound sound

end

/-! ## Commands -/

namespace Workbench

def Sound (bench : Workbench α) : Prop :=
  ∀ p, bench.program? = some p → p.Sound

variable {β : Type} {bench : Workbench α} {answer : β → Answer α}

theorem sound_idle : (idle : Workbench α).Sound :=
  nofun

theorem sound_building {p : Program α} (sound : p.Sound) : (building p).Sound := by
  rintro _ ⟨⟩
  exact sound

theorem sound_reducing {s : Session α} (sound : s.program.Sound) : (reducing s).Sound := by
  rintro _ ⟨⟩
  exact sound

theorem extend_sound {work : Build α β} (keeps : work.Keeps) (sound : bench.Sound) :
    (bench.extend work answer).2.Sound := by
  cases bench with
  | building p =>
    have kept := keeps p (sound p rfl)
    simp only [extend]
    cases run : work p <;> rw [run] at kept <;> exact sound_building kept
  | idle | reducing => exact sound

theorem inspect_sound {look : Program α → Reply α} (sound : bench.Sound) : (bench.inspect look).2.Sound := by
  unfold inspect
  split <;> exact sound

theorem withSession_sound {use : Session α → Reply α × Workbench α} (sound : bench.Sound)
    (used : ∀ s, s.program.Sound → (use s).1.isBreach = false → (use s).2.Sound)
    (unbroken : (bench.withSession use).1.isBreach = false) : (bench.withSession use).2.Sound := by
  cases bench with
  | reducing s => exact used s (sound s.program rfl) unbroken
  | idle | building => exact sound

variable [LawfulSigns α]

theorem advance_sound {work : Step α β} {closing : β → Session α → List (Notice α)}
    (advances : ∀ s : Session α, s.program.Transposed → Fault.Ends work s (fun _ t => s.Advances t) s.HaltsAt)
    (sound : bench.Sound) (unbroken : (bench.advance work answer closing).1.isBreach = false) :
    (bench.advance work answer closing).2.Sound := by
  refine withSession_sound sound (fun s sound unbroken => ?_) unbroken
  have ends := advances s sound.transposed
  cases run : work s with
  | ok result t => exact sound_reducing ((ends.done_of_eq_ok run).sound sound)
  | error fault t =>
    cases fault with
    | noOptimum cause => exact sound_reducing ((ends.stopped_of_noOptimum run).1.sound sound)
    | refused cause => exact sound_reducing ((ends.stopped_of_refused run).1.sound sound)
    | breached cause =>
      simp only [run] at unbroken
      cases unbroken

omit [LawfulSigns α] in
theorem beginWith_sound [LawfulScalar α] {settings : Settings α} (sound : bench.Sound) :
    (bench.beginWith settings).2.Sound := by
  cases bench with
  | building p =>
    unfold beginWith
    dsimp only
    split
    case h_1 => exact sound_idle
    case h_2 s begun =>
      obtain ⟨_, rfl⟩ := Session.begin_eq_ok begun
      exact sound_reducing (sound p rfl).asMinimization
  | idle | reducing => exact sound

omit [LawfulSigns α] in
theorem begin_sound [LawfulScalar α] {choices : Choices α} (sound : bench.Sound) :
    (bench.begin choices).2.Sound := by
  cases bench with
  | building p =>
    unfold begin
    cases choices.settle with
    | error => exact sound
    | ok settings => exact beginWith_sound sound
  | idle | reducing => exact sound

variable [LawfulScalar α]

theorem carryOut_sound (sound : bench.Sound) (command : Command α)
    (unbroken : (bench.carryOut command).1.isBreach = false) : (bench.carryOut command).2.Sound := by
  cases command with
  | newProgram sense => exact sound_building (Program.sound_empty sense)
  | newRow bounds => exact extend_sound Build.newRow_keeps sound
  | newColumn bounds domain cost => exact extend_sound Build.newColumn_keeps sound
  | newCoefficient i j value => exact extend_sound Build.newCoefficient_keeps sound
  | fixCost value => exact extend_sound Build.fixCost_keeps sound
  | draft draft => exact extend_sound draft.build_keeps sound
  | showProgram | showActive | showRow | showColumn | showCondensed => exact inspect_sound sound
  | begin choices => exact begin_sound sound
  | beginWith settings => exact beginWith_sound sound
  | showSummary => exact withSession_sound sound (fun _ _ _ => sound) unbroken
  | simplify => exact advance_sound (fun s same => Step.simplify_advances same (.refl s)) sound unbroken
  | reduce r k => exact advance_sound (fun s same => Step.reduce_advances same (.refl s) r k) sound unbroken
  | keepProgram => exact withSession_sound sound (fun s sound _ => sound_building sound) unbroken
  | keepCondensed =>
    refine withSession_sound sound (fun s before _ => ?_) unbroken
    split
    case h_1 copy condensed => exact sound_building (before.condense condensed)
    case h_2 => exact sound
  | recover kind status primal dual =>
    refine withSession_sound sound (fun s before _ => ?_) unbroken
    split
    -- Whether the solution is recovered or not, nothing is at hand after that.
    case h_1 reduced _ =>
      unfold finish
      split <;> exact sound_idle
    case h_2 => exact sound

omit [LawfulSigns α] [LawfulScalar α] in
theorem transcript_cons (command : Command α) (rest : List (Command α)) : bench.transcript (command :: rest) =
    if (bench.perform command).1.isBreach then [(bench.perform command).1]
    else (bench.perform command).1 :: (bench.perform command).2.transcript rest :=
  rfl

theorem after_sound (commands : List (Command α)) (sound : bench.Sound)
    (unbroken : ∀ reply ∈ bench.transcript commands, reply.isBreach = false) :
    (bench.after commands).Sound := by
  induction commands generalizing bench with
  | nil => exact sound
  | cons command rest inductionHypothesis =>
    rw [transcript_cons] at unbroken
    cases first : (bench.perform command).1.isBreach with
    | true =>
      rw [first, if_pos rfl] at unbroken
      cases first.symm.trans (unbroken _ (List.mem_singleton_self _))
    | false =>
      rw [first, if_neg Bool.false_ne_true] at unbroken
      exact inductionHypothesis (carryOut_sound sound command first) fun reply listed =>
        unbroken reply (List.mem_cons_of_mem _ listed)

theorem program_sound (commands : List (Command α))
    (unbroken : ∀ reply ∈ idle.transcript commands, reply.isBreach = false) {p : Program α}
    (held : (idle.after commands).program? = some p) :
    p.Sound ∧ p.Anchored ∧ ∀ copy, p.condense = .ok copy → copy.program.Sound := by
  have sound := after_sound commands sound_idle unbroken p held
  exact ⟨sound, sound.transposed.anchored, fun copy condensed => sound.condense condensed⟩

/-- Build a program in binary floating point and reduce it without a proper tolerance, with a coefficient that
    is turned away and a row that is refused. The upper bound of the column is rounded when it is taken out of
    the row. -/
def roundedCommands : List (Command Float) :=
  [.newProgram .maximize, .newRow ⟨1.0, 4.0⟩, .newColumn ⟨0.0, 0.1⟩ .continuous 1.0, .newCoefficient 0 0 0.3,
    .newCoefficient 0 0 0.5, .newRow ⟨1.0, 2.0⟩, .beginWith ⟨0.0 / 0.0, -1.0, true, true, true, true⟩,
    .reduce .dropEmptyRow 1, .reduce .flipUpper 0, .reduce .addSlack 0, .reduce .dropEmptyRow 0,
    .reduce .splitUpper 0]

theorem rounded_program_sound : ∃ p, (idle.after roundedCommands).program? = some p ∧ p.Sound := by
  have unbroken : ∀ reply ∈ idle.transcript roundedCommands, reply.isBreach = false := by decide +kernel
  have held : ((idle.after roundedCommands).program?).isSome = true := by decide +kernel
  obtain ⟨p, held⟩ := Option.isSome_iff_exists.1 held
  exact ⟨p, held, (program_sound roundedCommands unbroken held).1⟩

end Workbench

end LinearReduction
