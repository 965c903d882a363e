import LinearReduction.Program.Feasible
import LinearReduction.Proofs.Program.Entries
import LinearReduction.Proofs.Slots

/-!
# Rewritten programs

What each reduction makes of a program, as a plain function. A rewritten program is known by its rows and
columns at every ordinal. Main statements: one equation for the rows and one for the columns of each
rewritten program.
-/

namespace LinearReduction

namespace Row

variable {α : Type}

/-- A row from whose activity its share of a constant value is taken out. -/
def absorbing [Scalar α] (row : Row α) (share : Option α) (value : α) : Row α :=
  match share with
  | some coefficient => { row with bounds := row.bounds.shift (coefficient * value) }
  | none => row

/-- A row with its coefficient in a new column, if it has one there. -/
def extended (row : Row α) (j : Nat) (share : Option α) : Row α :=
  match share with
  | some coefficient => { row with entries := row.entries ++ [(j, coefficient)] }
  | none => row

@[simp] theorem entries_absorbing [Scalar α] (row : Row α) (share : Option α) (value : α) :
    (row.absorbing share value).entries = row.entries := by
  cases share <;> rfl

@[simp] theorem bounds_extended (row : Row α) (j : Nat) (share : Option α) :
    (row.extended j share).bounds = row.bounds := by
  cases share <;> rfl

theorem mem_ordinals_extended {row : Row α} {j k : Nat} {share : Option α} :
    k ∈ (row.extended j share).entries.ordinals ↔ k ∈ row.entries.ordinals ∨ k = j ∧ share ≠ none := by
  cases share <;> simp [extended, Entries.ordinals]

end Row

namespace Program

variable {α : Type}

theorem ext_slots {p q : Program α} (sense : p.sense = q.sense) (fixedCost : p.fixedCost = q.fixedCost)
    (rows : p.rows = q.rows) (columns : p.columns = q.columns) : p = q := by
  cases p
  cases q
  simp_all

/-! ## Single changes -/

def withoutRow (p : Program α) (i : Nat) : Program α :=
  { p with
    rows := p.rows.clear i
    columns := p.columns.map fun column => { column with entries := column.entries.erase i } }

def withoutColumn (p : Program α) (j : Nat) : Program α :=
  { p with
    rows := p.rows.map fun row => { row with entries := row.entries.erase j }
    columns := p.columns.clear j }

def boundedRow (p : Program α) (i : Nat) (bounds : Bounds α) : Program α :=
  p.adjustRow i fun row => { row with bounds := bounds }

def boundedColumn (p : Program α) (j : Nat) (bounds : Bounds α) : Program α :=
  p.adjustColumn j fun column => { column with bounds := bounds }

def pricedColumn (p : Program α) (j : Nat) (cost : α) : Program α :=
  p.adjustColumn j fun column => { column with cost := cost }

def linkAll (p : Program α) (j : Nat) (entries : Entries α) : Program α :=
  entries.foldl (fun p (i, value) => p.link i j value) p

/-- Negate the coefficients of a column, in the column and in its rows. -/
def negatedColumn [Neg α] (p : Program α) (j : Nat) : Program α :=
  { p with
    rows := p.rows.map fun row => { row with entries := row.entries.negateAt j }
    columns := p.columns.modify j fun column => { column with entries := column.entries.negate } }

section

variable (p : Program α) (i j l k : Nat)

theorem rows_withoutRow : (p.withoutRow i).rows.get? l = if i = l then none else p.rows.get? l :=
  Slots.get?_clear p.rows i l

theorem columns_withoutRow : (p.withoutRow i).columns.get? k =
    (p.columns.get? k).map fun column => { column with entries := column.entries.erase i } :=
  Slots.get?_map _ p.columns k

theorem rows_withoutColumn : (p.withoutColumn j).rows.get? l =
    (p.rows.get? l).map fun row => { row with entries := row.entries.erase j } :=
  Slots.get?_map _ p.rows l

theorem columns_withoutColumn :
    (p.withoutColumn j).columns.get? k = if j = k then none else p.columns.get? k :=
  Slots.get?_clear p.columns j k

theorem rows_boundedRow (bounds : Bounds α) : (p.boundedRow i bounds).rows.get? l =
    if i = l then (p.rows.get? l).map ({ · with bounds := bounds }) else p.rows.get? l :=
  Slots.get?_modify p.rows i _ l

@[simp] theorem columns_boundedRow (bounds : Bounds α) : (p.boundedRow i bounds).columns = p.columns := rfl

@[simp] theorem rows_boundedColumn (bounds : Bounds α) : (p.boundedColumn j bounds).rows = p.rows := rfl

theorem columns_boundedColumn (bounds : Bounds α) : (p.boundedColumn j bounds).columns.get? k =
    if j = k then (p.columns.get? k).map ({ · with bounds := bounds }) else p.columns.get? k :=
  Slots.get?_modify p.columns j _ k

@[simp] theorem size_columns_boundedColumn (bounds : Bounds α) :
    (p.boundedColumn j bounds).columns.size = p.columns.size :=
  Slots.size_modify ..

@[simp] theorem rows_pricedColumn (cost : α) : (p.pricedColumn j cost).rows = p.rows := rfl

theorem columns_pricedColumn (cost : α) : (p.pricedColumn j cost).columns.get? k =
    if j = k then (p.columns.get? k).map ({ · with cost := cost }) else p.columns.get? k :=
  Slots.get?_modify p.columns j _ k

theorem rows_pushRow (bounds : Bounds α) :
    (p.pushRow bounds).rows.get? l = if l = p.rows.size then some ⟨bounds, []⟩ else p.rows.get? l :=
  Slots.get?_push p.rows _ l

theorem rows_pushRow_self (bounds : Bounds α) :
    (p.pushRow bounds).rows.get? p.rows.size = some ⟨bounds, []⟩ := by
  rw [rows_pushRow, if_pos rfl]

@[simp] theorem columns_pushRow (bounds : Bounds α) : (p.pushRow bounds).columns = p.columns := rfl

@[simp] theorem rows_pushColumn (bounds : Bounds α) (domain : Domain) (cost : α) :
    (p.pushColumn bounds domain cost).rows = p.rows := rfl

theorem columns_pushColumn (bounds : Bounds α) (domain : Domain) (cost : α) :
    (p.pushColumn bounds domain cost).columns.get? k =
      if k = p.columns.size then some ⟨bounds, domain, cost, []⟩ else p.columns.get? k :=
  Slots.get?_push p.columns _ k

theorem columns_pushColumn_self (bounds : Bounds α) (domain : Domain) (cost : α) :
    (p.pushColumn bounds domain cost).columns.get? p.columns.size = some ⟨bounds, domain, cost, []⟩ := by
  rw [columns_pushColumn, if_pos rfl]

theorem rows_link (value : α) : (p.link i j value).rows.get? l =
    if i = l then (p.rows.get? l).map fun row => { row with entries := row.entries ++ [(j, value)] }
    else p.rows.get? l :=
  Slots.get?_modify p.rows i _ l

theorem columns_link (value : α) : (p.link i j value).columns.get? k =
    if j = k then
      (p.columns.get? k).map fun column => { column with entries := column.entries ++ [(i, value)] }
    else p.columns.get? k :=
  Slots.get?_modify p.columns j _ k

variable {p i j} in
theorem rows_link_self {row : Row α} (active : p.rows.get? i = some row) (value : α) :
    (p.link i j value).rows.get? i = some { row with entries := row.entries ++ [(j, value)] } := by
  rw [rows_link, if_pos rfl, active, Option.map_some]

variable {p i j} in
theorem columns_link_self {column : Column α} (active : p.columns.get? j = some column) (value : α) :
    (p.link i j value).columns.get? j = some { column with entries := column.entries ++ [(i, value)] } := by
  rw [columns_link, if_pos rfl, active, Option.map_some]

theorem rows_negatedColumn [Neg α] : (p.negatedColumn j).rows.get? l =
    (p.rows.get? l).map fun row => { row with entries := row.entries.negateAt j } :=
  Slots.get?_map _ p.rows l

theorem columns_negatedColumn [Neg α] : (p.negatedColumn j).columns.get? k =
    if j = k then (p.columns.get? k).map fun column => { column with entries := column.entries.negate }
    else p.columns.get? k :=
  Slots.get?_modify p.columns j _ k

end

/-! ## Changes along a list of coefficients -/

/-- Shift the bounds of rows by their share of a constant value. -/
def offset [Scalar α] (p : Program α) (entries : Entries α) (value : α) : Program α :=
  entries.foldl (fun p (i, coefficient) =>
    p.adjustRow i fun row => { row with bounds := row.bounds.shift (coefficient * value) }) p

/-- Take the share of a constant value out of the rows and the cost. -/
def absorbed [Scalar α] (p : Program α) (entries : Entries α) (cost value : α) : Program α :=
  { p.offset entries value with fixedCost := p.fixedCost + cost * value }

section

variable (p : Program α)

theorem rows_offset [Scalar α] {entries : Entries α} (distinct : entries.ordinals.Nodup)
    (value : α) (l : Nat) : (p.offset entries value).rows.get? l =
    (p.rows.get? l).map (·.absorbing (entries.lookup l) value) := by
  induction entries generalizing p with
  | nil => simp [offset, Row.absorbing]
  | cons first rest inductionHypothesis =>
    obtain ⟨i, coefficient⟩ := first
    obtain ⟨absent, distinct⟩ := List.nodup_cons.1 distinct
    change ((p.adjustRow i _).offset rest value).rows.get? l = _
    rw [inductionHypothesis _ distinct]
    change ((p.rows.modify i _).get? l).map _ = _
    rw [Slots.get?_modify, List.lookup_cons]
    -- The first row has no other coefficient in the list, so that its bounds are shifted once.
    by_cases same : i = l
    · subst same
      rw [Entries.lookup_eq_none_iff.2 absent]
      simp [Row.absorbing, Function.comp_def]
    · have apart : (l == i) = false := beq_false_of_ne (Ne.symm same)
      simp [same, apart]

theorem offset_keeps [Scalar α] {β : Type} (f : Program α → β)
    (kept : ∀ p i change, f (p.adjustRow i change) = f p) (entries : Entries α) (value : α) :
    f (p.offset entries value) = f p := by
  induction entries generalizing p with
  | nil => rfl
  | cons first rest inductionHypothesis =>
    exact (inductionHypothesis (p.adjustRow first.1 _)).trans (kept p first.1 _)

@[simp] theorem columns_offset [Scalar α] (entries : Entries α) (value : α) :
    (p.offset entries value).columns = p.columns :=
  offset_keeps p (·.columns) (fun _ _ _ => rfl) entries value

/-- Taking the share of a value out of the rows leaves all columns as they are. -/
theorem columns_absorbed [Scalar α] (p : Program α) (entries : Entries α) (cost value : α) (k : Nat) :
    (p.absorbed entries cost value).columns.get? k = p.columns.get? k :=
  congrArg (Slots.get? · k) (columns_offset p entries value)

@[simp] theorem fixedCost_offset [Scalar α] (entries : Entries α) (value : α) :
    (p.offset entries value).fixedCost = p.fixedCost :=
  offset_keeps p (·.fixedCost) (fun _ _ _ => rfl) entries value

@[simp] theorem sense_offset [Scalar α] (entries : Entries α) (value : α) :
    (p.offset entries value).sense = p.sense :=
  offset_keeps p (·.sense) (fun _ _ _ => rfl) entries value

theorem size_rows_offset [Scalar α] (entries : Entries α) (value : α) :
    (p.offset entries value).rows.size = p.rows.size :=
  offset_keeps p (·.rows.size) (fun p i change => Slots.size_modify p.rows i change) entries value

theorem linkAll_keeps {β : Type} (f : Program α → β) (j : Nat)
    (kept : ∀ p i value, f (p.link i j value) = f p) (entries : Entries α) :
    f (p.linkAll j entries) = f p := by
  induction entries generalizing p with
  | nil => rfl
  | cons first rest inductionHypothesis =>
    exact (inductionHypothesis (p.link first.1 j first.2)).trans (kept p first.1 first.2)

@[simp] theorem sense_linkAll (entries : Entries α) (j : Nat) : (p.linkAll j entries).sense = p.sense :=
  linkAll_keeps p (·.sense) j (fun _ _ _ => rfl) entries

@[simp] theorem occupied_rows_linkAll (entries : Entries α) (j : Nat) :
    (p.linkAll j entries).rows.occupied = p.rows.occupied :=
  linkAll_keeps p (·.rows.occupied) j (fun _ _ _ => rfl) entries

@[simp] theorem occupied_columns_linkAll (entries : Entries α) (j : Nat) :
    (p.linkAll j entries).columns.occupied = p.columns.occupied :=
  linkAll_keeps p (·.columns.occupied) j (fun _ _ _ => rfl) entries

@[simp] theorem fixedCost_linkAll (entries : Entries α) (j : Nat) :
    (p.linkAll j entries).fixedCost = p.fixedCost :=
  linkAll_keeps p (·.fixedCost) j (fun _ _ _ => rfl) entries

theorem size_rows_linkAll (j : Nat) (entries : Entries α) : (p.linkAll j entries).rows.size = p.rows.size :=
  linkAll_keeps p (·.rows.size) j (fun p _ _ => Slots.size_modify p.rows ..) entries

theorem size_columns_linkAll (j : Nat) (entries : Entries α) :
    (p.linkAll j entries).columns.size = p.columns.size :=
  linkAll_keeps p (·.columns.size) j (fun p _ _ => Slots.size_modify p.columns ..) entries

theorem rows_linkAll {entries : Entries α} (distinct : entries.ordinals.Nodup) (j l : Nat) :
    (p.linkAll j entries).rows.get? l = (p.rows.get? l).map (·.extended j (entries.lookup l)) := by
  induction entries generalizing p with
  | nil => simp [linkAll, Row.extended]
  | cons first rest inductionHypothesis =>
    obtain ⟨i, coefficient⟩ := first
    obtain ⟨absent, distinct⟩ := List.nodup_cons.1 distinct
    change ((p.link i j coefficient).linkAll j rest).rows.get? l = _
    rw [inductionHypothesis _ distinct, rows_link, List.lookup_cons]
    -- The first row has no other coefficient in the list, so that it is extended once.
    by_cases same : i = l
    · subst same
      rw [Entries.lookup_eq_none_iff.2 absent]
      simp [Row.extended, Function.comp_def]
    · have apart : (l == i) = false := beq_false_of_ne (Ne.symm same)
      simp [same, apart]

theorem columns_linkAll (entries : Entries α) (j k : Nat) : (p.linkAll j entries).columns.get? k =
    if j = k then (p.columns.get? k).map fun column => { column with entries := column.entries ++ entries }
    else p.columns.get? k := by
  induction entries generalizing p with
  | nil => simp [linkAll]
  | cons first rest inductionHypothesis =>
    change ((p.link first.1 j first.2).linkAll j rest).columns.get? k = _
    rw [inductionHypothesis, columns_link]
    by_cases same : j = k <;> simp [same, Function.comp_def]

end

/-! ## Reduced programs -/

section

variable [Scalar α] (p : Program α) (i j l k : Nat)

/-- A row made an equality by a new column that takes up its range. -/
def withRange (range : Bounds α) (coefficient bound : α) : Program α :=
  ((p.pushColumn range .continuous 0).link i p.columns.size coefficient).boundedRow i (.point bound)

/-- A column with a new column that does the opposite. -/
def splitColumn (column : Column α) : Program α :=
  ((p.boundedColumn j .nonnegative).pushColumn .nonnegative column.domain (-column.cost)).linkAll
    p.columns.size column.entries.negate

/-- A column measured from its lower bound. -/
def shiftedColumn (column : Column α) : Program α :=
  (p.absorbed column.entries column.cost column.bounds.lower).boundedColumn j column.bounds.range

/-- A column measured downwards from its upper bound. -/
def flippedColumn (column : Column α) : Program α :=
  (((p.absorbed column.entries column.cost column.bounds.upper).pricedColumn j (-column.cost)).negatedColumn
    j).boundedColumn j column.bounds.range

/-- A column whose upper bound is kept by a new row with a new column. -/
def cappedColumn (bound : α) : Program α :=
  ((((p.boundedColumn j .nonnegative).pushColumn .nonnegative .continuous 0).pushRow (.point bound)).link
    p.rows.size j 1).link p.rows.size p.columns.size 1

/-- A column without its upper bound, and an empty row and an empty column to keep the bound in its place. -/
def uncapped (bound : α) : Program α :=
  ((p.boundedColumn j .nonnegative).pushColumn .nonnegative .continuous 0).pushRow (.point bound)

/-- A column replaced by its value. -/
def substituted (column : Column α) : Program α :=
  (p.withoutColumn j).absorbed column.entries column.cost column.bounds.lower

/-- A row left out in exchange for a column with a single value. -/
def settledBy (value : α) : Program α :=
  (p.withoutRow i).boundedColumn j (.point value)

variable {p i j}

theorem rows_withRange (range : Bounds α) (coefficient bound : α) :
    (p.withRange i range coefficient bound).rows.get? l = if i = l then
      (p.rows.get? l).map fun row => ⟨.point bound, row.entries ++ [(p.columns.size, coefficient)]⟩
    else p.rows.get? l := by
  rw [withRange, rows_boundedRow, rows_link]
  by_cases same : i = l <;> simp [same, Function.comp_def]

theorem columns_withRange (range : Bounds α) (coefficient bound : α) :
    (p.withRange i range coefficient bound).columns.get? k = if k = p.columns.size then
      some ⟨range, .continuous, 0, [(i, coefficient)]⟩ else p.columns.get? k := by
  rw [withRange, columns_boundedRow, columns_link, columns_pushColumn]
  by_cases same : k = p.columns.size
  · simp [same]
  · simp [same, Ne.symm same]

theorem rows_splitColumn {column : Column α} (distinct : column.entries.ordinals.Nodup) :
    (p.splitColumn j column).rows.get? l =
      (p.rows.get? l).map (·.extended p.columns.size (column.entries.negate.lookup l)) := by
  rw [splitColumn, rows_linkAll _ (by rwa [Entries.ordinals_negate]), rows_pushColumn, rows_boundedColumn]

theorem columns_splitColumn {column : Column α} :
    (p.splitColumn j column).columns.get? k = if k = p.columns.size then
      some ⟨.nonnegative, column.domain, -column.cost, column.entries.negate⟩
    else if j = k then (p.columns.get? k).map ({ · with bounds := .nonnegative }) else p.columns.get? k := by
  rw [splitColumn, columns_linkAll, columns_pushColumn, columns_boundedColumn,
    size_columns_boundedColumn]
  -- Only the new column gets the coefficients, as the bounds are all that changes in the old one.
  by_cases same : k = p.columns.size
  · simp [same]
  · simp [same, Ne.symm same]

theorem rows_shiftedColumn {column : Column α} (distinct : column.entries.ordinals.Nodup) :
    (p.shiftedColumn j column).rows.get? l =
      (p.rows.get? l).map (·.absorbing (column.entries.lookup l) column.bounds.lower) :=
  rows_offset p distinct _ l

theorem columns_shiftedColumn {column : Column α} :
    (p.shiftedColumn j column).columns.get? k =
      if j = k then (p.columns.get? k).map ({ · with bounds := column.bounds.range })
      else p.columns.get? k := by
  rw [shiftedColumn, columns_boundedColumn]
  exact congrArg (fun columns : Slots (Column α) =>
    if j = k then (columns.get? k).map _ else columns.get? k) (columns_offset p _ _)

theorem rows_flippedColumn {column : Column α} (distinct : column.entries.ordinals.Nodup) :
    (p.flippedColumn j column).rows.get? l = (p.rows.get? l).map fun row =>
      { row.absorbing (column.entries.lookup l) column.bounds.upper
          with entries := row.entries.negateAt j } := by
  rw [flippedColumn, rows_boundedColumn, rows_negatedColumn, rows_pricedColumn]
  change ((p.offset _ _).rows.get? l).map _ = _
  rw [rows_offset p distinct, Option.map_map]
  simp [Function.comp_def]

theorem columns_flippedColumn {column : Column α} :
    (p.flippedColumn j column).columns.get? k = if j = k then (p.columns.get? k).map fun other =>
      ⟨column.bounds.range, other.domain, -column.cost, other.entries.negate⟩ else p.columns.get? k := by
  have unchanged : (p.absorbed column.entries column.cost column.bounds.upper).columns = p.columns :=
    columns_offset p _ _
  rw [flippedColumn, columns_boundedColumn, columns_negatedColumn, columns_pricedColumn, unchanged]
  by_cases same : j = k <;> simp [same, Function.comp_def]

theorem rows_uncapped (bound : α) : (p.uncapped j bound).rows.get? p.rows.size = some ⟨.point bound, []⟩ :=
  rows_pushRow_self ..

theorem columns_uncapped {column : Column α} (active : p.columns.get? j = some column) (bound : α) :
    (p.uncapped j bound).columns.get? j = some { column with bounds := .nonnegative } := by
  rw [uncapped, columns_pushRow, columns_pushColumn, size_columns_boundedColumn,
    if_neg (Slots.ne_size active), columns_boundedColumn, if_pos rfl, active, Option.map_some]

theorem companion_uncapped {column : Column α} (active : p.columns.get? j = some column) (bound : α) :
    ((p.uncapped j bound).link p.rows.size j 1).columns.get? p.columns.size =
      some ⟨.nonnegative, .continuous, 0, []⟩ := by
  rw [columns_link, if_neg (Slots.ne_size active), uncapped, columns_pushRow, columns_pushColumn,
    size_columns_boundedColumn, if_pos rfl]

theorem rows_cappedColumn {bound : α} : (p.cappedColumn j bound).rows.get? l = if l = p.rows.size then
      some ⟨.point bound, [(j, 1), (p.columns.size, 1)]⟩ else p.rows.get? l := by
  rw [cappedColumn, rows_link, rows_link, rows_pushRow, rows_pushColumn, rows_boundedColumn]
  by_cases same : l = p.rows.size
  · simp [same]
  · simp [same, Ne.symm same]

theorem columns_cappedColumn {bound : α} (inside : j < p.columns.size) :
    (p.cappedColumn j bound).columns.get? k = if k = p.columns.size then
      some ⟨.nonnegative, .continuous, 0, [(p.rows.size, 1)]⟩
    else if j = k then (p.columns.get? k).map fun column =>
      { column with bounds := .nonnegative, entries := column.entries ++ [(p.rows.size, 1)] }
    else p.columns.get? k := by
  rw [cappedColumn, columns_link, columns_link, columns_pushRow, columns_pushColumn, columns_boundedColumn,
    size_columns_boundedColumn]
  by_cases same : k = p.columns.size
  · simp [same, Nat.ne_of_lt inside]
  · by_cases split : j = k <;> simp [same, Ne.symm same, split, Function.comp_def]

theorem rows_substituted {column : Column α} (distinct : column.entries.ordinals.Nodup) :
    (p.substituted j column).rows.get? l = (p.rows.get? l).map fun row =>
      { row.absorbing (column.entries.lookup l) column.bounds.lower
          with entries := row.entries.erase j } := by
  change ((p.withoutColumn j).offset _ _).rows.get? l = _
  rw [rows_offset _ distinct, rows_withoutColumn, Option.map_map]
  congr 1
  funext row
  -- Taking out the share of a value and leaving out its coefficient can be done in either order.
  cases column.entries.lookup l <;> rfl

theorem columns_substituted {column : Column α} :
    (p.substituted j column).columns.get? k = if j = k then none else p.columns.get? k := by
  rw [← columns_withoutColumn]
  exact congrArg (Slots.get? · k) (columns_offset (p.withoutColumn j) _ _)

omit [Scalar α] in
theorem rows_settledBy (value : α) :
    (p.settledBy i j value).rows.get? l = if i = l then none else p.rows.get? l :=
  rows_withoutRow p i l

omit [Scalar α] in
theorem columns_settledBy (value : α) : (p.settledBy i j value).columns.get? k =
    (p.columns.get? k).map fun column =>
      { column with
        bounds := if j = k then .point value else column.bounds
        entries := column.entries.erase i } := by
  rw [settledBy, columns_boundedColumn, columns_withoutRow]
  by_cases same : j = k <;> simp [same, Function.comp_def]

end

/-! ## Programs that minimize -/

section

variable [Neg α] (p : Program α)

@[simp] theorem rows_asMinimization : p.asMinimization.rows = p.rows := by
  unfold asMinimization
  split <;> rfl

@[simp] theorem sense_asMinimization : p.asMinimization.sense = .minimize := by
  unfold asMinimization
  split
  case h_1 minimizes => exact minimizes
  case h_2 => rfl

@[simp] theorem size_columns_asMinimization : p.asMinimization.columns.size = p.columns.size := by
  unfold asMinimization
  split <;> simp

@[simp] theorem isActive_columns_asMinimization (j : Nat) :
    p.asMinimization.columns.isActive j = p.columns.isActive j := by
  unfold asMinimization
  split <;> simp

end

/-! ## New rows and columns -/

section

variable [Scalar α] {p : Program α}

theorem isActive_withRange (i : Nat) (range : Bounds α) (coefficient bound : α) :
    (p.withRange i range coefficient bound).columns.isActive p.columns.size = true := by
  rw [Slots.isActive, columns_withRange, if_pos rfl, Option.isSome_some]

theorem isActive_splitColumn (j : Nat) (column : Column α) :
    (p.splitColumn j column).columns.isActive p.columns.size = true := by
  rw [Slots.isActive, columns_splitColumn, if_pos rfl, Option.isSome_some]

theorem isActive_cappedColumn {j : Nat} {bound : α} (inside : j < p.columns.size) :
    (p.cappedColumn j bound).columns.isActive p.columns.size = true := by
  rw [Slots.isActive, columns_cappedColumn _ inside, if_pos rfl, Option.isSome_some]

end

end Program

end LinearReduction
