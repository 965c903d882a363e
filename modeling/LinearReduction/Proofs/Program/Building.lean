import LinearReduction.Program.Matrix
import LinearReduction.Proofs.Program.Rewritten
import LinearReduction.Proofs.Slots
import LinearReduction.Session.Reachable

/-!
# Building programs

What each step of building a program checks and adds, and that it adds nothing if it turns something away.
Main statements: what is added is counted, and no slot of a program is empty after it was built.
-/

namespace LinearReduction

namespace Build

variable {α : Type} [Scalar α] {p q : Program α} {bounds : Bounds α} {error : BuildError α} {i j : Nat}
  {value cost : α}

theorem newRow_eq_ok (added : newRow bounds p = .ok i q) : bounds.isProper = true ∧ q = p.pushRow bounds := by
  unfold newRow at added
  cases proper : bounds.isProper <;> rw [proper] at added <;> cases added
  exact ⟨rfl, rfl⟩

theorem newColumn_eq_ok {domain : Domain} (added : newColumn bounds domain cost p = .ok j q) :
    bounds.isProper = true ∧ Scalar.isFinite cost = true ∧ q = p.pushColumn bounds domain cost := by
  unfold newColumn at added
  cases proper : bounds.isProper <;> rw [proper] at added
  · cases added
  · cases finite : Scalar.isFinite cost <;> rw [finite] at added <;> cases added
    exact ⟨rfl, rfl, rfl⟩

theorem newCoefficient_eq_ok (added : newCoefficient i j value p = .ok () q) :
    ∃ row column, p.rows.get? i = some row ∧ p.columns.get? j = some column ∧ (value == 0) = false ∧
      Scalar.isFinite value = true ∧ column.entries.mentions i = false ∧ q = p.link i j value := by
  have reads : (get : Build α (Program α)) = fun p => .ok p p := rfl
  simp only [newCoefficient, reads, bind, EStateM.bind] at added
  cases active : p.rows.isActive i with
  | false =>
    rw [active] at added
    cases added
  | true =>
    rw [active] at added
    cases found : p.columns.get? j with
    | none =>
      simp only [found] at added
      cases added
    | some column =>
      simp only [found] at added
      cases improper : (value == 0 || !Scalar.isFinite value) with
      | true =>
        rw [improper] at added
        cases added
      | false =>
        rw [improper] at added
        cases mentioned : column.entries.mentions i with
        | true =>
          rw [mentioned] at added
          cases added
        | false =>
          rw [mentioned] at added
          cases added
          obtain ⟨row, row_active⟩ := Slots.isActive_iff.1 active
          simp only [Bool.or_eq_false_iff, Bool.not_eq_false'] at improper
          exact ⟨row, column, row_active, rfl, improper.1, improper.2, mentioned, rfl⟩

/-! ## Data that is turned away -/

theorem newRow_eq_error (rejected : newRow bounds p = .error error q) : q = p := by
  unfold newRow at rejected
  cases proper : bounds.isProper <;> rw [proper] at rejected <;> cases rejected
  rfl

theorem newColumn_eq_error {domain : Domain} (rejected : newColumn bounds domain cost p = .error error q) :
    q = p := by
  unfold newColumn at rejected
  cases proper : bounds.isProper <;> rw [proper] at rejected
  · cases rejected
    rfl
  · cases finite : Scalar.isFinite cost <;> rw [finite] at rejected <;> cases rejected
    rfl

theorem newCoefficient_eq_error (rejected : newCoefficient i j value p = .error error q) : q = p := by
  have reads : (get : Build α (Program α)) = fun p => .ok p p := rfl
  simp only [newCoefficient, reads, bind, EStateM.bind] at rejected
  -- Each of the four tests comes before anything is changed.
  cases active : p.rows.isActive i with
  | false =>
    rw [active] at rejected
    cases rejected
    rfl
  | true =>
    rw [active] at rejected
    cases found : p.columns.get? j with
    | none =>
      simp only [found] at rejected
      cases rejected
      rfl
    | some column =>
      simp only [found] at rejected
      cases improper : (value == 0 || !Scalar.isFinite value) <;> rw [improper] at rejected
      · cases mentioned : column.entries.mentions i <;> rw [mentioned] at rejected <;> cases rejected
        rfl
      · cases rejected
        rfl

end Build

/-! ## Counts -/

namespace Program.Counted

variable {α : Type} {p : Program α}

theorem adjustRow (counted : p.Counted) (i : Nat) (change : Row α → Row α) : (p.adjustRow i change).Counted :=
  ⟨Slots.IsCounted.modify counted.rows i change, counted.columns⟩

theorem adjustColumn (counted : p.Counted) (j : Nat) (change : Column α → Column α) :
    (p.adjustColumn j change).Counted :=
  ⟨counted.rows, Slots.IsCounted.modify counted.columns j change⟩

theorem pushRow (counted : p.Counted) (bounds : Bounds α) : (p.pushRow bounds).Counted :=
  ⟨Slots.IsCounted.push counted.rows _, counted.columns⟩

theorem pushColumn (counted : p.Counted) (bounds : Bounds α) (domain : Domain) (cost : α) :
    (p.pushColumn bounds domain cost).Counted :=
  ⟨counted.rows, Slots.IsCounted.push counted.columns _⟩

theorem link (counted : p.Counted) (i j : Nat) (value : α) : (p.link i j value).Counted :=
  (counted.adjustRow i _).adjustColumn j _

theorem asMinimization [Neg α] (counted : p.Counted) : p.asMinimization.Counted := by
  unfold Program.asMinimization
  split
  · exact counted
  · exact ⟨counted.rows, Slots.IsCounted.map counted.columns _⟩

end Program.Counted

/-! ## Slots -/

variable {α : Type} [Scalar α]

/-- Every slot of a program is occupied. -/
structure Program.Full (p : Program α) : Prop where
  rows : ∀ i < p.rows.size, p.rows.isActive i = true
  columns : ∀ j < p.columns.size, p.columns.isActive j = true

theorem Program.full_asMinimization {p : Program α} : p.asMinimization.Full ↔ p.Full := by
  constructor
  · intro full
    exact ⟨by simpa using full.rows, by simpa using full.columns⟩
  · intro full
    exact ⟨by simpa using full.rows, by simpa using full.columns⟩

theorem Program.Built.full {p : Program α} (built : p.Built) : p.Full := by
  -- Building adds slots and changes entries, and empties no slot.
  induction built with
  | empty sense => exact ⟨nofun, nofun⟩
  | newRow built added inductionHypothesis =>
    obtain ⟨_, rfl⟩ := Build.newRow_eq_ok added
    exact ⟨Slots.isActive_push_of_full inductionHypothesis.rows _, inductionHypothesis.columns⟩
  | newColumn built added inductionHypothesis =>
    obtain ⟨_, _, rfl⟩ := Build.newColumn_eq_ok added
    exact ⟨inductionHypothesis.rows, Slots.isActive_push_of_full inductionHypothesis.columns _⟩
  | newCoefficient built added inductionHypothesis =>
    obtain ⟨_, _, _, _, _, _, _, rfl⟩ := Build.newCoefficient_eq_ok added
    exact ⟨Slots.isActive_modify_of_full inductionHypothesis.rows _ _,
      Slots.isActive_modify_of_full inductionHypothesis.columns _ _⟩
  | fixCost built fixed inductionHypothesis =>
    cases fixed
    exact ⟨inductionHypothesis.rows, inductionHypothesis.columns⟩

end LinearReduction
