import LinearReduction.Proofs.Program.Building
import LinearReduction.Proofs.Program.Condensing
import LinearReduction.Proofs.Scalar.Coefficients

/-!
# Counts and coefficients

What holds of every program, in exact arithmetic and in binary floating point: both views are one matrix,
whose coefficients are finite and not zero, and the occupied slots are as many as counted. Bounds have no part
in it, as they may overflow when they are shifted. Main statements: building leaves such a program, whether it
is turned away or not, and a copy of such a program without its empty slots is one as well.
-/

namespace LinearReduction

variable {α : Type}

namespace Program

variable {p : Program α} {i j : Nat}

/-! ## Coefficients -/

variable [Scalar α]

/-- Every coefficient has a value that a coefficient may have. -/
structure Valued (p : Program α) : Prop where
  isCoefficient : ∀ i j value, p.RowLists i j value → Scalar.IsCoefficient value

namespace Valued

theorem of_rows {q : Program α} (valued : p.Valued)
    (rows : ∀ l row, q.rows.get? l = some row → ∃ other, p.rows.get? l = some other ∧
      row.entries ⊆ other.entries) : q.Valued := by
  constructor
  rintro l k value ⟨row, active, listed⟩
  obtain ⟨other, before, kept⟩ := rows l row active
  exact valued.isCoefficient l k value ⟨other, before, kept listed⟩

theorem withoutRow (valued : p.Valued) (i : Nat) : (p.withoutRow i).Valued := by
  refine valued.of_rows fun l row active => ?_
  rw [rows_withoutRow] at active
  split at active
  case isTrue => cases active
  case isFalse => exact ⟨row, active, fun _ listed => listed⟩

theorem withoutColumn (valued : p.Valued) (j : Nat) : (p.withoutColumn j).Valued := by
  refine valued.of_rows fun l row active => ?_
  rw [rows_withoutColumn, Option.map_eq_some_iff] at active
  obtain ⟨other, before, rfl⟩ := active
  exact ⟨other, before, fun _ listed => List.mem_of_mem_eraseP listed⟩

theorem adjustRow (valued : p.Valued) (i : Nat) {change : Row α → Row α}
    (kept : ∀ row, (change row).entries = row.entries) : (p.adjustRow i change).Valued := by
  refine valued.of_rows fun l row active => ?_
  rw [Program.adjustRow, Slots.get?_modify] at active
  split at active
  case isTrue =>
    obtain ⟨other, before, rfl⟩ := Option.map_eq_some_iff.1 active
    exact ⟨other, before, fun _ listed => kept other ▸ listed⟩
  case isFalse => exact ⟨row, active, fun _ listed => listed⟩

theorem adjustColumn (valued : p.Valued) (j : Nat) (change : Column α → Column α) :
    (p.adjustColumn j change).Valued :=
  ⟨valued.isCoefficient⟩

theorem pushColumn (valued : p.Valued) (bounds : Bounds α) (domain : Domain) (cost : α) :
    (p.pushColumn bounds domain cost).Valued :=
  ⟨valued.isCoefficient⟩

theorem pushRow (valued : p.Valued) (bounds : Bounds α) : (p.pushRow bounds).Valued := by
  constructor
  rintro l k value ⟨row, active, listed⟩
  rw [rows_pushRow] at active
  split at active
  case isTrue =>
    cases active
    cases listed
  case isFalse => exact valued.isCoefficient l k value ⟨row, active, listed⟩

theorem link (valued : p.Valued) (i j : Nat) {value : α} (coefficient : Scalar.IsCoefficient value) :
    (p.link i j value).Valued := by
  constructor
  rintro l k other ⟨row, active, listed⟩
  rw [rows_link] at active
  split at active
  case isTrue =>
    obtain ⟨before, found, rfl⟩ := Option.map_eq_some_iff.1 active
    rcases List.mem_append.1 listed with earlier | new
    · exact valued.isCoefficient l k other ⟨before, found, earlier⟩
    · cases List.mem_singleton.1 new
      exact coefficient
  case isFalse => exact valued.isCoefficient l k other ⟨row, active, listed⟩

theorem linkAll (valued : p.Valued) (j : Nat) {entries : Entries α}
    (coefficients : ∀ entry ∈ entries, Scalar.IsCoefficient entry.2) : (p.linkAll j entries).Valued :=
  List.foldlRecOn entries _ valued fun _ valued entry listed =>
    valued.link entry.1 j (coefficients entry listed)

theorem negatedColumn [LawfulSigns α] (valued : p.Valued) (j : Nat) : (p.negatedColumn j).Valued := by
  constructor
  rintro l k value ⟨row, active, listed⟩
  rw [rows_negatedColumn, Option.map_eq_some_iff] at active
  obtain ⟨other, before, rfl⟩ := active
  obtain ⟨old, earlier, rfl⟩ := Entries.mem_negateAt.1 listed
  have coefficient := valued.isCoefficient l k old ⟨other, before, earlier⟩
  split
  · exact LawfulSigns.isCoefficient_neg coefficient
  · exact coefficient

theorem absorbed (valued : p.Valued) (entries : Entries α) (cost value : α) :
    (p.absorbed entries cost value).Valued := by
  have offset : (p.offset entries value).Valued :=
    List.foldlRecOn entries _ valued fun _ valued entry _ => valued.adjustRow entry.1 fun _ => rfl
  exact ⟨offset.isCoefficient⟩

theorem asMinimization (valued : p.Valued) : p.asMinimization.Valued := by
  constructor
  intro l k value lists
  rw [RowLists, rows_asMinimization] at lists
  exact valued.isCoefficient l k value lists

theorem of_column (valued : p.Valued) (same : p.Transposed) {column : Column α}
    (active : p.columns.get? j = some column) : ∀ entry ∈ column.entries, Scalar.IsCoefficient entry.2 :=
  fun entry listed => valued.isCoefficient entry.1 j entry.2 ((same.agree ..).2 ⟨column, active, listed⟩)

end Valued

/-! ## Sound programs -/

/-- What holds of a program at any time. -/
structure Sound (p : Program α) : Prop where
  transposed : p.Transposed
  valued : p.Valued
  counted : p.Counted

/-- Both views only speak of rows and columns that are there. -/
structure Anchored (p : Program α) : Prop where
  rows : ∀ i row j, p.rows.get? i = some row → j ∈ row.entries.ordinals → p.columns.isActive j = true
  columns : ∀ j column i, p.columns.get? j = some column → i ∈ column.entries.ordinals →
    p.rows.isActive i = true

omit [Scalar α] in
theorem Transposed.anchored (same : p.Transposed) : p.Anchored :=
  ⟨fun _ _ _ active listed => same.column_isActive active listed,
    fun _ _ _ active listed => same.row_isActive active listed⟩

theorem sound_empty (sense : Sense) : (Program.empty sense : Program α).Sound := by
  have no_row : ∀ i, (Program.empty sense : Program α).rows.get? i = none := Slots.get?_empty
  have no_column : ∀ j, (Program.empty sense : Program α).columns.get? j = none := Slots.get?_empty
  constructor
  · refine .of_entries_nil (fun i row active => ?_) fun j column active => ?_
    · cases (no_row i).symm.trans active
    · cases (no_column j).symm.trans active
  · constructor
    rintro i j value ⟨row, active, _⟩
    cases (no_row i).symm.trans active
  · exact ⟨rfl, rfl⟩

namespace Sound

theorem pushRow (sound : p.Sound) (bounds : Bounds α) : (p.pushRow bounds).Sound :=
  ⟨sound.transposed.pushRow bounds, sound.valued.pushRow bounds, sound.counted.pushRow bounds⟩

theorem pushColumn (sound : p.Sound) (bounds : Bounds α) (domain : Domain) (cost : α) :
    (p.pushColumn bounds domain cost).Sound :=
  ⟨sound.transposed.pushColumn .., sound.valued.pushColumn .., sound.counted.pushColumn ..⟩

theorem link (sound : p.Sound) {row : Row α} {column : Column α} (row_active : p.rows.get? i = some row)
    (column_active : p.columns.get? j = some column) (fresh : i ∉ column.entries.ordinals) {value : α}
    (coefficient : Scalar.IsCoefficient value) : (p.link i j value).Sound :=
  ⟨sound.transposed.link row_active column_active fresh value, sound.valued.link i j coefficient,
    sound.counted.link i j value⟩

theorem withFixedCost (sound : p.Sound) (cost : α) : { p with fixedCost := cost }.Sound :=
  ⟨⟨sound.transposed.agree, sound.transposed.rows_nodup, sound.transposed.columns_nodup⟩,
    ⟨sound.valued.isCoefficient⟩, ⟨sound.counted.rows, sound.counted.columns⟩⟩

theorem asMinimization (sound : p.Sound) : p.asMinimization.Sound :=
  ⟨sound.transposed.asMinimization, sound.valued.asMinimization, sound.counted.asMinimization⟩

end Sound

end Program

/-! ## Building -/

namespace Build

variable [Scalar α] {β γ : Type} {bounds : Bounds α} {i j : Nat} {value cost : α}

/-- A computation that leaves a sound program as one, even if something is turned away. -/
def Keeps (work : Build α β) : Prop :=
  ∀ p : Program α, p.Sound → match work p with
    | .ok _ q | .error _ q => q.Sound

namespace Keeps

theorem bind {work : Build α β} {next : β → Build α γ} (first : work.Keeps)
    (later : ∀ result, (next result).Keeps) : (work >>= next).Keeps := by
  intro p sound
  have between := first p sound
  simp only [Bind.bind, EStateM.bind]
  cases run : work p with
  | ok result q =>
    rw [run] at between
    exact later result q between
  | error error q =>
    rw [run] at between
    exact between

theorem discard {work : Build α β} (keeps : work.Keeps) : Keeps (discard work) := by
  intro p sound
  have after := keeps p sound
  simp only [Functor.discard, Functor.mapConst, EStateM.map, Function.comp]
  cases run : work p <;> rw [run] at after <;> exact after

theorem forM {ι : Type} {body : ι → Build α PUnit} (round : ∀ x, (body x).Keeps) (list : List ι) :
    Keeps (list.forM body) := by
  induction list with
  | nil => exact fun p sound => sound
  | cons x rest inductionHypothesis => exact (round x).bind fun _ => inductionHypothesis

end Keeps

theorem newRow_keeps : (newRow bounds).Keeps := by
  intro p sound
  cases run : newRow bounds p with
  | ok i q =>
    obtain ⟨_, rfl⟩ := newRow_eq_ok run
    exact sound.pushRow bounds
  | error error q => exact newRow_eq_error run ▸ sound

theorem newColumn_keeps {domain : Domain} : (newColumn bounds domain cost).Keeps := by
  intro p sound
  cases run : newColumn bounds domain cost p with
  | ok j q =>
    obtain ⟨_, _, rfl⟩ := newColumn_eq_ok run
    exact sound.pushColumn bounds domain cost
  | error error q => exact newColumn_eq_error run ▸ sound

theorem newCoefficient_keeps : (newCoefficient i j value).Keeps := by
  intro p sound
  cases run : newCoefficient i j value p with
  | ok _ q =>
    obtain ⟨row, column, row_active, column_active, nonzero, finite, unmentioned, rfl⟩ :=
      newCoefficient_eq_ok run
    -- Only the column is searched for an earlier coefficient, and the row has none if the column has none.
    exact sound.link row_active column_active (Entries.mentions_eq_false_iff.1 unmentioned)
      ⟨by rw [bne, nonzero]; rfl, finite⟩
  | error error q => exact newCoefficient_eq_error run ▸ sound

theorem fixCost_keeps : (fixCost value).Keeps :=
  fun _ sound => sound.withFixedCost value

end Build

theorem Draft.build_keeps [Scalar α] (draft : Draft α) : draft.build.Keeps := by
  refine .bind (.forM (fun bounds => Build.newRow_keeps.discard) _) fun _ => ?_
  refine .bind (.forM (fun column => Build.newColumn_keeps.discard) _) fun _ => ?_
  refine .bind (.forM (fun coefficient => Build.newCoefficient_keeps) _) fun _ => ?_
  cases draft.fixedCost with
  | none => exact fun _ sound => sound
  | some value => exact Build.fixCost_keeps

/-! ## Copies without empty slots -/

variable [Scalar α] {p : Program α}

theorem Program.Sound.keptByCopying (sound : p.Sound) : p.KeptByCopying Sound where
  start := (Program.sound_empty p.sense).withFixedCost p.fixedCost
  pushRow _ bounds before := before.pushRow bounds
  pushColumn _ _ _ _ before := before.pushColumn ..
  link := by
    rintro c a row column value before row_active column_active fresh nonzero ⟨i, j, stored⟩
    have coefficient := sound.valued.isCoefficient i j value ((sound.transposed.agree i j value).2 stored)
    exact before.link row_active column_active fresh coefficient

theorem Program.Sound.condense {copy : Condensed α} (sound : p.Sound) (condensed : p.condense = .ok copy) :
    copy.program.Sound :=
  sound.keptByCopying.condense condensed

end LinearReduction
