import LinearReduction.Proofs.Outcome
import LinearReduction.Proofs.Program.Transposed

/-!
# What edits make of a program

An edit of an active row or column is never refused as long as the two views of the coefficients agree. Main
statements: one for each edit, with the rewritten program that it leaves.
-/

namespace LinearReduction

namespace Slots

variable {β : Type}

theorem get?_foldl_modify (f : β → β) (ordinals : List Nat) (distinct : ordinals.Nodup)
    (s : Slots β) (k : Nat) : (ordinals.foldl (fun s i => s.modify i f) s).get? k =
      if k ∈ ordinals then (s.get? k).map f else s.get? k := by
  induction ordinals generalizing s with
  | nil => simp
  | cons i rest inductionHypothesis =>
    obtain ⟨absent, distinct⟩ := List.nodup_cons.1 distinct
    rw [List.foldl_cons, inductionHypothesis distinct, get?_modify]
    -- A slot is modified in at most one round, as no ordinal is listed twice.
    by_cases first : i = k
    · subst first
      simp [absent]
    · simp [first, Ne.symm first]

theorem size_foldl_modify (f : β → β) (ordinals : List Nat) (s : Slots β) :
    (ordinals.foldl (fun s i => s.modify i f) s).size = s.size := by
  induction ordinals generalizing s with
  | nil => rfl
  | cons i rest inductionHypothesis => rw [List.foldl_cons, inductionHypothesis, size_modify]

theorem occupied_foldl_modify (f : β → β) (ordinals : List Nat) (s : Slots β) :
    (ordinals.foldl (fun s i => s.modify i f) s).occupied = s.occupied := by
  induction ordinals generalizing s with
  | nil => rfl
  | cons i rest inductionHypothesis => rw [List.foldl_cons, inductionHypothesis, modify]

theorem foldl_modify (f : β → β) (ordinals : List Nat) (distinct : ordinals.Nodup) (s : Slots β)
    (others : ∀ k entry, s.get? k = some entry → k ∉ ordinals → f entry = entry) :
    ordinals.foldl (fun s i => s.modify i f) s = s.map f := by
  apply ext_get?
  · rw [size_foldl_modify, size_map]
  · exact occupied_foldl_modify f ordinals s
  · intro k
    rw [get?_foldl_modify f ordinals distinct, get?_map]
    -- Slots that the loop leaves out hold entries that the change makes no difference to.
    by_cases changed : k ∈ ordinals
    · rw [if_pos changed]
    · rw [if_neg changed]
      cases found : s.get? k with
      | none => rfl
      | some entry => rw [Option.map_some, others k entry found changed]

end Slots

namespace Edit

open Fault (Ends bind_of_eq_ok forM_cons_of_eq_ok)

variable {α : Type} {p : Program α} {i j : Nat}

/-! ## Removing rows and columns -/

theorem forM_forgetRow (ordinals : List Nat) (distinct : ordinals.Nodup)
    (listed : ∀ j ∈ ordinals, ∃ column, p.columns.get? j = some column ∧ i ∈ column.entries.ordinals) :
    ordinals.forM (forgetRow i) p = .ok () { p with
      columns := ordinals.foldl (fun columns j => columns.modify j fun column =>
        { column with entries := column.entries.erase i }) p.columns } := by
  induction ordinals generalizing p with
  | nil => rfl
  | cons j rest inductionHypothesis =>
    obtain ⟨absent, distinct⟩ := List.nodup_cons.1 distinct
    obtain ⟨column, active, mentioned⟩ := listed j (by simp)
    rw [forM_cons_of_eq_ok (forgetRow i) (forgetRow_of_mentions active (Entries.mentions_iff.2 mentioned)),
      inductionHypothesis distinct]
    · rfl
    · intro k later
      obtain ⟨other, active, mentioned⟩ := listed k (List.mem_cons_of_mem j later)
      refine ⟨other, ?_, mentioned⟩
      -- The row was only taken out of the first column so far.
      have apart : j ≠ k := by
        rintro rfl
        exact absent later
      simpa [Program.adjustColumn, Slots.get?_modify, apart] using active

theorem dropRow_of_active (same : p.Transposed) {row : Row α} (active : p.rows.get? i = some row) :
    dropRow i p = .ok row (p.withoutRow i) := by
  have distinct := same.rows_nodup i row active
  have listed : ∀ j ∈ row.entries.ordinals,
      ∃ column, p.columns.get? j = some column ∧ i ∈ column.entries.ordinals := by
    intro j listed
    obtain ⟨column, found⟩ := same.column_active active listed
    exact ⟨column, found, (same.mem_ordinals_iff active found).1 listed⟩
  -- Leaving the row out of a column that has no coefficient in it changes nothing.
  have others : ∀ k column, p.columns.get? k = some column → k ∉ row.entries.ordinals →
      { column with entries := column.entries.erase i } = column := by
    intro k column found absent
    rw [same.mem_ordinals_iff active found] at absent
    rw [Entries.erase_of_not_mem absent]
  have loop := forM_forgetRow (p := { p with rows := p.rows.clear i }) row.entries.ordinals distinct listed
  rw [Slots.foldl_modify _ _ distinct _ others] at loop
  have cleared : (modify fun p => { p with rows := p.rows.clear i } : Edit α Unit) p =
      .ok () { p with rows := p.rows.clear i } := rfl
  rw [dropRow, bind_of_eq_ok (fetchRow_of_active active), bind_of_eq_ok cleared, bind_of_eq_ok loop]
  rfl

theorem forM_forgetColumn (ordinals : List Nat) (distinct : ordinals.Nodup)
    (listed : ∀ i ∈ ordinals, ∃ row, p.rows.get? i = some row ∧ j ∈ row.entries.ordinals) :
    ordinals.forM (forgetColumn j) p = .ok () { p with
      rows := ordinals.foldl (fun rows i => rows.modify i fun row =>
        { row with entries := row.entries.erase j }) p.rows } := by
  induction ordinals generalizing p with
  | nil => rfl
  | cons i rest inductionHypothesis =>
    obtain ⟨absent, distinct⟩ := List.nodup_cons.1 distinct
    obtain ⟨row, active, mentioned⟩ := listed i (by simp)
    rw [forM_cons_of_eq_ok (forgetColumn j)
      (forgetColumn_of_mentions active (Entries.mentions_iff.2 mentioned)), inductionHypothesis distinct]
    · rfl
    · intro l later
      obtain ⟨other, active, mentioned⟩ := listed l (List.mem_cons_of_mem i later)
      refine ⟨other, ?_, mentioned⟩
      -- The column was only taken out of the first row so far.
      have apart : i ≠ l := by
        rintro rfl
        exact absent later
      simpa [Program.adjustRow, Slots.get?_modify, apart] using active

theorem dropColumn_of_active (same : p.Transposed) {column : Column α}
    (active : p.columns.get? j = some column) : dropColumn j p = .ok column (p.withoutColumn j) := by
  have distinct := same.columns_nodup j column active
  have listed : ∀ i ∈ column.entries.ordinals,
      ∃ row, p.rows.get? i = some row ∧ j ∈ row.entries.ordinals := by
    intro i listed
    obtain ⟨row, found⟩ := same.row_active active listed
    exact ⟨row, found, (same.mem_ordinals_iff found active).2 listed⟩
  -- Leaving the column out of a row that has no coefficient in it changes nothing.
  have others : ∀ l row, p.rows.get? l = some row → l ∉ column.entries.ordinals →
      { row with entries := row.entries.erase j } = row := by
    intro l row found absent
    rw [← same.mem_ordinals_iff found active] at absent
    rw [Entries.erase_of_not_mem absent]
  have loop := forM_forgetColumn (p := { p with columns := p.columns.clear j }) column.entries.ordinals
    distinct listed
  rw [Slots.foldl_modify _ _ distinct _ others] at loop
  have cleared : (modify fun p => { p with columns := p.columns.clear j } : Edit α Unit) p =
      .ok () { p with columns := p.columns.clear j } := rfl
  rw [dropColumn, bind_of_eq_ok (fetchColumn_of_active active), bind_of_eq_ok cleared, bind_of_eq_ok loop]
  rfl

/-! ## Negating a column -/

theorem forM_modifyRow (change : Row α → Row α) (ordinals : List Nat)
    (active : ∀ i ∈ ordinals, ∃ row, p.rows.get? i = some row) :
    ordinals.forM (fun i => modifyRow i change) p =
      .ok () { p with rows := ordinals.foldl (fun rows i => rows.modify i change) p.rows } := by
  induction ordinals generalizing p with
  | nil => rfl
  | cons i rest inductionHypothesis =>
    obtain ⟨row, found⟩ := active i (by simp)
    rw [forM_cons_of_eq_ok (fun i => modifyRow i change) (modifyRow_of_active found change),
      inductionHypothesis]
    · rfl
    · intro l later
      obtain ⟨other, found⟩ := active l (List.mem_cons_of_mem i later)
      simp only [Program.adjustRow, Slots.get?_modify, found]
      split <;> exact ⟨_, rfl⟩

theorem reverseColumn_of_active [Scalar α] (same : p.Transposed) {column : Column α}
    (active : p.columns.get? j = some column) : reverseColumn j p = .ok () (p.negatedColumn j) := by
  have distinct := same.columns_nodup j column active
  have rows_active : ∀ i ∈ column.entries.ordinals, ∃ row, p.rows.get? i = some row :=
    fun i listed => same.row_active active listed
  -- Rows without a coefficient in the column are as before.
  have others : ∀ l row, p.rows.get? l = some row → l ∉ column.entries.ordinals →
      { row with entries := row.entries.negateAt j } = row := by
    intro l row found absent
    rw [← same.mem_ordinals_iff found active] at absent
    rw [Entries.negateAt_of_not_mem absent]
  have loop :=
    forM_modifyRow (p := p.adjustColumn j fun column => { column with entries := column.entries.negate })
    (fun row => { row with entries := row.entries.negateAt j }) column.entries.ordinals rows_active
  have unchanged : (p.adjustColumn j fun column => { column with entries := column.entries.negate }).rows =
      p.rows :=
    rfl
  rw [unchanged, Slots.foldl_modify _ _ distinct _ others] at loop
  rw [reverseColumn, bind_of_eq_ok (fetchColumn_of_active active),
    bind_of_eq_ok (modifyColumn_of_active active _), loop]
  rfl

/-! ## Edits that check what they are given -/

theorem fetchRow_ends {done : Row α → Program α → Prop} {stopped : Fault α → Program α → Prop}
    (holds : ∀ row, p.rows.get? i = some row → done row p)
    (fails : p.rows.get? i = none → stopped (.refused (.inactive .row i)) p) :
    Ends (fetchRow i) p done stopped := by
  cases active : p.rows.get? i with
  | none =>
    rw [Ends, fetchRow_of_inactive active]
    exact fails active
  | some row => exact .of_eq_ok (fetchRow_of_active active) (holds row active)

theorem fetchColumn_ends {done : Column α → Program α → Prop} {stopped : Fault α → Program α → Prop}
    (holds : ∀ column, p.columns.get? j = some column → done column p)
    (fails : p.columns.get? j = none → stopped (.refused (.inactive .column j)) p) :
    Ends (fetchColumn j) p done stopped := by
  cases active : p.columns.get? j with
  | none =>
    rw [Ends, fetchColumn_of_inactive active]
    exact fails active
  | some column => exact .of_eq_ok (fetchColumn_of_active active) (holds column active)

section

variable [Scalar α] {row : Row α} {column : Column α} {bounds : Bounds α} {value cost : α}
  {stopped : Fault α → Program α → Prop}

theorem newRow_ends {done : Nat → Program α → Prop}
    (holds : bounds.isProper → done p.rows.size (p.pushRow bounds)) : Ends (newRow bounds) p done stopped :=
  .bind (.ensure fun proper => holds proper)

theorem newColumn_ends {domain : Domain} {done : Nat → Program α → Prop}
    (holds : bounds.isProper → done p.columns.size (p.pushColumn bounds domain cost)) :
    Ends (newColumn bounds domain cost) p done stopped :=
  .bind (.ensure fun proper => holds proper)

theorem boundRow_ends {done : Unit → Program α → Prop} (active : p.rows.get? i = some row)
    (holds : bounds.isProper → done () (p.boundedRow i bounds)) : Ends (boundRow i bounds) p done stopped :=
  .bind (.ensure fun proper => .of_eq_ok (modifyRow_of_active active _) (holds proper))

theorem boundColumn_ends {done : Unit → Program α → Prop} (active : p.columns.get? j = some column)
    (holds : bounds.isProper → done () (p.boundedColumn j bounds)) :
    Ends (boundColumn j bounds) p done stopped :=
  .bind (.ensure fun proper => .of_eq_ok (modifyColumn_of_active active _) (holds proper))

theorem priceColumn_ends {done : Unit → Program α → Prop} (active : p.columns.get? j = some column)
    (holds : Scalar.isFinite cost → done () (p.pricedColumn j cost)) :
    Ends (priceColumn j cost) p done stopped :=
  .bind (.ensure fun finite => .of_eq_ok (modifyColumn_of_active active _) (holds finite))

theorem connect_ends {done : Unit → Program α → Prop} (row_active : p.rows.get? i = some row)
    (column_active : p.columns.get? j = some column) (absent : i ∉ column.entries.ordinals)
    (holds : (value != 0) = true → done () (p.link i j value)) : Ends (connect i j value) p done stopped := by
  refine .bind (.ensure fun nonzero => ?_)
  have unmentioned := Entries.mentions_eq_false_iff.2 absent
  refine .bind (.of_eq_ok (fetchColumn_of_active column_active) (.bind (.ensure fun _ => ?_)))
  exact .bind (.discard (.of_eq_ok (fetchRow_of_active row_active) (holds nonzero)))

theorem offsetRows_ends {entries : Entries α} {done : Unit → Program α → Prop}
    (active : ∀ i ∈ entries.ordinals, ∃ row, p.rows.get? i = some row)
    (holds : done () (p.offset entries value)) :
    Ends (entries.forM fun (i, coefficient) => offsetRow i (coefficient * value)) p done stopped := by
  induction entries generalizing p with
  | nil => exact holds
  | cons first rest inductionHypothesis =>
    obtain ⟨row, found⟩ := active first.1 (by simp [Entries.ordinals])
    refine .bind (.bind (.ensure fun _ => .of_eq_ok (modifyRow_of_active found _) ?_))
    -- A row whose bounds were shifted is still there for the rest of the list.
    refine inductionHypothesis (fun l later => ?_) holds
    obtain ⟨other, found⟩ := active l (by simp_all [Entries.ordinals])
    simp only [Program.adjustRow, Slots.get?_modify, found]
    split <;> exact ⟨_, rfl⟩

theorem absorb_ends {entries : Entries α} {done : Unit → Program α → Prop}
    (active : ∀ i ∈ entries.ordinals, ∃ row, p.rows.get? i = some row)
    (holds : Scalar.isFinite value → done () (p.absorbed entries cost value)) :
    Ends (absorb entries cost value) p done stopped := by
  refine .bind (.ensure fun finite => ?_)
  refine .bind (offsetRows_ends active (.modify ?_))
  rw [Program.fixedCost_offset]
  exact holds finite

theorem connectAll_ends {entries : Entries α} {done : Unit → Program α → Prop}
    (distinct : entries.ordinals.Nodup) (rows_active : ∀ i ∈ entries.ordinals, ∃ row,
      p.rows.get? i = some row) (active : p.columns.get? j = some column) (absent : ∀ i ∈ entries.ordinals,
      i ∉ column.entries.ordinals) (holds : done () (p.linkAll j entries)) :
    Ends (entries.forM fun (i, value) => connect i j value) p done stopped := by
  induction entries generalizing p column with
  | nil => exact holds
  | cons first rest inductionHypothesis =>
    obtain ⟨i, value⟩ := first
    obtain ⟨new, distinct⟩ := List.nodup_cons.1 distinct
    obtain ⟨row, found⟩ := rows_active i (by simp [Entries.ordinals])
    refine .bind (connect_ends found active (absent i (by simp [Entries.ordinals])) fun _ => ?_)
    refine inductionHypothesis distinct (fun l later => ?_) (Program.columns_link_self active value)
      (fun l later => ?_) holds
    · obtain ⟨other, found⟩ := rows_active l (by simp_all [Entries.ordinals])
      rw [Program.rows_link, found]
      split <;> exact ⟨_, rfl⟩
    -- The column has got a coefficient in the first row by now, which is none of the later ones.
    · have apart : l ≠ i := by
        rintro rfl
        exact new later
      have before : l ∉ column.entries.ordinals := absent l (by simp_all [Entries.ordinals])
      simp only [Entries.ordinals_append, List.mem_append, not_or]
      exact ⟨before, by simpa [Entries.ordinals] using apart⟩

/-! ## Loops of edits that break nothing -/

theorem forM_offsetRow {entries : Entries α} (active : ∀ i ∈ entries.ordinals, ∃ row,
      p.rows.get? i = some row) (finite : ∀ entry ∈ entries, Scalar.isFinite (entry.2 * value) = true) :
    (entries.forM fun (i, coefficient) => offsetRow i (coefficient * value) : Edit α PUnit) p =
      .ok () (p.offset entries value) := by
  induction entries generalizing p with
  | nil => rfl
  | cons first rest inductionHypothesis =>
    obtain ⟨row, found⟩ := active first.1 (by simp [Entries.ordinals])
    refine (bind_of_eq_ok (offsetRow_of_finite found (finite first List.mem_cons_self))).trans ?_
    refine inductionHypothesis (fun l later => ?_) fun entry later =>
      finite entry (List.mem_cons_of_mem _ later)
    obtain ⟨other, found⟩ := active l (by simp_all [Entries.ordinals])
    simp only [Program.adjustRow, Slots.get?_modify, found]
    split <;> exact ⟨_, rfl⟩

theorem absorb_of_finite {entries : Entries α} (active : ∀ i ∈ entries.ordinals, ∃ row,
      p.rows.get? i = some row) (finite_value : Scalar.isFinite value = true)
    (finite : ∀ entry ∈ entries, Scalar.isFinite (entry.2 * value) = true) :
    absorb entries cost value p = .ok () (p.absorbed entries cost value) := by
  have passed : (Fault.ensure (Scalar.isFinite value) .infiniteConstant : Edit α Unit) p = .ok () p := by
    rw [finite_value]
    rfl
  rw [absorb, bind_of_eq_ok passed, bind_of_eq_ok (forM_offsetRow active finite), Program.absorbed,
    ← Program.fixedCost_offset p entries value]
  rfl

theorem forM_connect {entries : Entries α} (distinct : entries.ordinals.Nodup)
    (rows_active : ∀ i ∈ entries.ordinals, ∃ row, p.rows.get? i = some row)
    (active : p.columns.get? j = some column) (absent : ∀ i ∈ entries.ordinals, i ∉ column.entries.ordinals)
    (nonzero : ∀ entry ∈ entries, (entry.2 != 0) = true) :
    (entries.forM fun (i, value) => connect i j value : Edit α PUnit) p = .ok () (p.linkAll j entries) := by
  induction entries generalizing p column with
  | nil => rfl
  | cons first rest inductionHypothesis =>
    obtain ⟨i, value⟩ := first
    obtain ⟨new, distinct⟩ := List.nodup_cons.1 distinct
    obtain ⟨row, found⟩ := rows_active i (by simp [Entries.ordinals])
    have unmentioned := Entries.mentions_eq_false_iff.2 (absent i (by simp [Entries.ordinals]))
    refine (bind_of_eq_ok (connect_of_unmentioned found active (nonzero _ List.mem_cons_self)
      unmentioned)).trans ?_
    refine inductionHypothesis distinct (fun l later => ?_) (Program.columns_link_self active value)
      (fun l later => ?_) fun entry later => nonzero entry (List.mem_cons_of_mem _ later)
    · obtain ⟨other, found⟩ := rows_active l (by simp_all [Entries.ordinals])
      rw [Program.rows_link, found]
      split <;> exact ⟨_, rfl⟩
    · have apart : l ≠ i := by
        rintro rfl
        exact new later
      have before : l ∉ column.entries.ordinals := absent l (by simp_all [Entries.ordinals])
      simp only [Entries.ordinals_append, List.mem_append, not_or]
      exact ⟨before, by simpa [Entries.ordinals] using apart⟩

end

end Edit

end LinearReduction
