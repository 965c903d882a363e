import LinearReduction.Program.Edit

/-!
# Effects of edits

What the single edits do to a program, provided that what they rely on holds. Each of them then succeeds,
and its effect is a plain function of the program. Main statements: one equation per edit, named after
the edit and the condition.
-/

namespace LinearReduction

variable {α : Type}

namespace Fault

variable {σ : Type}

/-- Checks that pass change nothing. -/
@[simp] theorem require_true (otherwise : Refusal) (s : σ) :
    (require true otherwise : EStateM (Fault α) σ Unit) s = .ok () s := rfl

/-- A request that does not fit is refused, with the state left as it was. -/
@[simp] theorem require_false (otherwise : Refusal) (s : σ) :
    (require false otherwise : EStateM (Fault α) σ Unit) s = .error (.refused otherwise) s := rfl

@[simp] theorem ensure_true (otherwise : Breach) (s : σ) :
    (ensure true otherwise : EStateM (Fault α) σ Unit) s = .ok () s := rfl

@[simp] theorem ensure_false (otherwise : Breach) (s : σ) :
    (ensure false otherwise : EStateM (Fault α) σ Unit) s = .error (.breached otherwise) s := rfl

end Fault

namespace Edit

variable {p : Program α}

theorem get_apply : (get : Edit α (Program α)) p = .ok p p := rfl

theorem fetchRow_of_active {i : Nat} {row : Row α} (active : p.rows.get? i = some row) :
    fetchRow i p = .ok row p := by
  simp only [fetchRow, bind, EStateM.bind, get_apply, active]
  rfl

/-- Removed rows and rows that were never added are told apart by no edit. -/
theorem fetchRow_of_inactive {i : Nat} (inactive : p.rows.get? i = none) :
    fetchRow i p = .error (.refused (.inactive .row i)) p := by
  simp only [fetchRow, bind, EStateM.bind, get_apply, inactive]
  rfl

theorem fetchColumn_of_active {j : Nat} {column : Column α} (active : p.columns.get? j = some column) :
    fetchColumn j p = .ok column p := by
  simp only [fetchColumn, bind, EStateM.bind, get_apply, active]
  rfl

theorem fetchColumn_of_inactive {j : Nat} (inactive : p.columns.get? j = none) :
    fetchColumn j p = .error (.refused (.inactive .column j)) p := by
  simp only [fetchColumn, bind, EStateM.bind, get_apply, inactive]
  rfl

theorem modifyRow_of_active {i : Nat} {row : Row α} (active : p.rows.get? i = some row)
    (change : Row α → Row α) : modifyRow i change p = .ok () (p.adjustRow i change) := by
  simp only [modifyRow, discard, Functor.discard, Functor.mapConst, EStateM.map, bind, EStateM.bind,
    Function.comp, fetchRow_of_active active]
  rfl

theorem modifyColumn_of_active {j : Nat} {column : Column α} (active : p.columns.get? j = some column)
    (change : Column α → Column α) : modifyColumn j change p = .ok () (p.adjustColumn j change) := by
  simp only [modifyColumn, discard, Functor.discard, Functor.mapConst, EStateM.map, bind, EStateM.bind,
    Function.comp, fetchColumn_of_active active]
  rfl

/-- The row itself may be gone by then: only the column is looked at. -/
theorem forgetRow_of_mentions {i j : Nat} {column : Column α} (active : p.columns.get? j = some column)
    (mentioned : column.entries.mentions i) :
    forgetRow i j p =
      .ok () (p.adjustColumn j fun column => { column with entries := column.entries.erase i }) := by
  simp only [forgetRow, bind, EStateM.bind, fetchColumn_of_active active, mentioned, Fault.ensure_true]
  rfl

theorem forgetColumn_of_mentions {i j : Nat} {row : Row α} (active : p.rows.get? i = some row)
    (mentioned : row.entries.mentions j) :
    forgetColumn j i p =
      .ok () (p.adjustRow i fun row => { row with entries := row.entries.erase j }) := by
  simp only [forgetColumn, bind, EStateM.bind, fetchRow_of_active active, mentioned, Fault.ensure_true]
  rfl

variable [Scalar α]

/-- A new row gets the next ordinal, so that it takes the place of no other row. -/
theorem newRow_of_proper {bounds : Bounds α} (proper : bounds.isProper) :
    newRow bounds p = .ok p.rows.size (p.pushRow bounds) := by
  simp only [newRow, bind, EStateM.bind, proper, Fault.ensure_true]
  rfl

theorem newColumn_of_proper {bounds : Bounds α} (proper : bounds.isProper) (domain : Domain) (cost : α) :
    newColumn bounds domain cost p = .ok p.columns.size (p.pushColumn bounds domain cost) := by
  simp only [newColumn, bind, EStateM.bind, proper, Fault.ensure_true]
  rfl

/-- The column alone is asked whether there is a coefficient already. That is enough for rows and columns that
    list the same coefficients. -/
theorem connect_of_unmentioned {i j : Nat} {row : Row α} {column : Column α} {value : α}
    (row_active : p.rows.get? i = some row) (column_active : p.columns.get? j = some column)
    (nonzero : (value != 0) = true) (unmentioned : column.entries.mentions i = false) :
    connect i j value p = .ok () (p.link i j value) := by
  simp only [connect, bind, EStateM.bind, nonzero, Fault.ensure_true, fetchColumn_of_active column_active,
    unmentioned, Bool.not_false, discard, Functor.discard, Functor.mapConst, EStateM.map, Function.comp,
    fetchRow_of_active row_active]
  rfl

theorem boundRow_of_proper {i : Nat} {row : Row α} {bounds : Bounds α}
    (active : p.rows.get? i = some row) (proper : bounds.isProper) :
    boundRow i bounds p = .ok () (p.adjustRow i fun row => { row with bounds := bounds }) := by
  simp only [boundRow, bind, EStateM.bind, proper, Fault.ensure_true, modifyRow_of_active active]

theorem boundColumn_of_proper {j : Nat} {column : Column α} {bounds : Bounds α}
    (active : p.columns.get? j = some column) (proper : bounds.isProper) :
    boundColumn j bounds p =
      .ok () (p.adjustColumn j fun column => { column with bounds := bounds }) := by
  simp only [boundColumn, bind, EStateM.bind, proper, Fault.ensure_true, modifyColumn_of_active active]

/-- The amount is checked, and not the bounds that come of it. -/
theorem offsetRow_of_finite {i : Nat} {row : Row α} {amount : α}
    (active : p.rows.get? i = some row) (finite : Scalar.isFinite amount) :
    offsetRow i amount p =
      .ok () (p.adjustRow i fun row => { row with bounds := row.bounds.shift amount }) := by
  simp only [offsetRow, bind, EStateM.bind, finite, Fault.ensure_true, modifyRow_of_active active]

theorem priceColumn_of_finite {j : Nat} {column : Column α} {cost : α}
    (active : p.columns.get? j = some column) (finite : Scalar.isFinite cost) :
    priceColumn j cost p = .ok () (p.adjustColumn j fun column => { column with cost := cost }) := by
  simp only [priceColumn, bind, EStateM.bind, finite, Fault.ensure_true, modifyColumn_of_active active]

end Edit

end LinearReduction
