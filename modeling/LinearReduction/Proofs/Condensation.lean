import LinearReduction.Proofs.Program.Ascending

/-!
# Copies are renumberings

A copy has a row for each row and a column for each column of the program, with a new number that respects
their order, and the same coefficients under the new numbers. Main statement: coherent programs can be copied,
the copy is such a renumbering and has its lists in order, and a copy of the copy is the copy itself.
-/

namespace LinearReduction

variable {α : Type} [Scalar α]

/-- A copy that says the same about its rows and columns as the program says about those they were copied
    from. -/
structure Condensed.Renumbers (c : Condensed α) (p : Program α) : Prop where
  rowOrdinals_increase : c.rowOrdinals.Pairwise (· < ·)
  columnOrdinals_increase : c.columnOrdinals.Pairwise (· < ·)
  mem_rowOrdinals : ∀ i, i ∈ c.rowOrdinals ↔ p.rows.isActive i = true
  mem_columnOrdinals : ∀ j, j ∈ c.columnOrdinals ↔ p.columns.isActive j = true
  coherent : c.program.isCoherent = true
  full : c.program.Full
  rows_size : c.program.rows.size = c.rowOrdinals.length
  columns_size : c.program.columns.size = c.columnOrdinals.length
  sense_eq : c.program.sense = p.sense
  fixedCost_eq : c.program.fixedCost = p.fixedCost
  rows : ∀ a i, c.rowOrdinals[a]? = some i →
    (c.program.rows.get? a).map (·.bounds) = (p.rows.get? i).map (·.bounds)
  columns : ∀ b j, c.columnOrdinals[b]? = some j →
    (c.program.columns.get? b).map (fun column => (column.bounds, column.domain, column.cost)) =
      (p.columns.get? j).map fun column => (column.bounds, column.domain, column.cost)
  rowLists : ∀ a i b j value, c.rowOrdinals[a]? = some i → c.columnOrdinals[b]? = some j →
    (c.program.RowLists a b value ↔ p.RowLists i j value)
  columnLists : ∀ a i b j value, c.rowOrdinals[a]? = some i → c.columnOrdinals[b]? = some j →
    (c.program.ColumnLists a b value ↔ p.ColumnLists i j value)
  rows_ascend : c.program.RowsAscend
  columns_ascend : c.program.ColumnsAscend

namespace Program

variable [LawfulScalar α] {p c : Program α}

omit [LawfulScalar α] in
theorem Copied.coherent (copied : p.Copied p.columns.active.length c) (before : p.Coherent) : c.Coherent :=
  ⟨copied.counted, copied.bounded before.bounded, copied.nonzero before.transposed before.nonzero,
    copied.transposed⟩

theorem Copied.renumbers (copied : p.Copied p.columns.active.length c) (before : p.Coherent)
    (rows_ascend : c.RowsAscend) : Condensed.Renumbers ⟨c, p.rows.ordinals, p.columns.ordinals⟩ p where
  rowOrdinals_increase := p.rows.pairwise_ordinals
  columnOrdinals_increase := p.columns.pairwise_ordinals
  mem_rowOrdinals _ := Slots.mem_ordinals
  mem_columnOrdinals _ := Slots.mem_ordinals
  coherent := isCoherent_iff.2 (copied.coherent before)
  full := ⟨copied.rows_full, copied.columns_full⟩
  rows_size := copied.rows_size.trans p.rows.length_ordinals.symm
  columns_size := copied.columns_size.trans p.columns.length_ordinals.symm
  sense_eq := copied.sense_eq
  fixedCost_eq := copied.fixedCost_eq
  rows a i number := by
    obtain ⟨row, listed⟩ := Slots.exists_of_getElem?_ordinals number
    rw [copied.rows, listed, (Slots.getElem?_active_iff.1 listed).1]
    rfl
  columns b j number := by
    obtain ⟨column, listed⟩ := Slots.exists_of_getElem?_ordinals number
    rw [copied.column_eq listed, (Slots.getElem?_active_iff.1 listed).1]
    rfl
  rowLists _ _ _ _ _ row_number column_number :=
    copied.rowLists_iff before.transposed row_number column_number
  columnLists _ _ _ _ _ row_number column_number :=
    copied.columnLists_iff before.transposed row_number column_number
  rows_ascend := rows_ascend
  columns_ascend := copied.columnsAscend before.transposed

theorem Coherent.condense_eq_ok (coherent : p.Coherent) :
    ∃ c, p.condense = .ok ⟨c, p.rows.ordinals, p.columns.ordinals⟩ ∧
      p.Copied p.columns.active.length c ∧ c.RowsAscend := by
  obtain ⟨c, condensed, copied⟩ :=
    Program.condense_eq_ok coherent.transposed coherent.bounded coherent.nonzero
  exact ⟨c, condensed, copied, (p.keptByCopying_rowsAscend.condense condensed).2⟩

/-- Copying renumbers rows and columns in their order, and has nothing left to do for a copy. -/
theorem condense_renumbers (coherent : p.isCoherent = true) : ∃ c, p.condense = .ok c ∧ c.Renumbers p ∧
    c.program.condense = .ok ⟨c.program, List.range c.program.rows.size,
      List.range c.program.columns.size⟩ := by
  have before := isCoherent_iff.1 coherent
  obtain ⟨c, condensed, copied, ascend⟩ := before.condense_eq_ok
  obtain ⟨d, again, copied_again, ascend_again⟩ := (copied.coherent before).condense_eq_ok
  have full : c.Full := ⟨copied.rows_full, copied.columns_full⟩
  -- The second copy has the numbers that the first one has, and its lists are in order already.
  obtain rfl : d = c := copied_again.eq_of_full full copied.transposed copied.counted ascend
    (copied.columnsAscend before.transposed) ascend_again
  rw [Slots.ordinals_of_full full.rows, Slots.ordinals_of_full full.columns] at again
  exact ⟨_, condensed, copied.renumbers before ascend, again⟩

/-- Two rows and two columns with empty slots before and between them, whose lists are in no order. -/
def gapped : Program Float :=
  ⟨.maximize, -0.5,
    ⟨#[none, some ⟨⟨1, 1⟩, [(3, 2), (1, 0.1)]⟩, none, some ⟨⟨Scalar.negInf, 7⟩, [(1, -4)]⟩], 2⟩,
    ⟨#[none, some ⟨⟨0, 9⟩, .integer, 3, [(3, -4), (1, 0.1)]⟩, none,
      some ⟨.nonnegative, .continuous, 0, [(1, 2)]⟩], 2⟩⟩

def gappedCopy : Program Float :=
  ⟨.maximize, -0.5,
    ⟨#[some ⟨⟨1, 1⟩, [(0, 0.1), (1, 2)]⟩, some ⟨⟨Scalar.negInf, 7⟩, [(0, -4)]⟩], 2⟩,
    ⟨#[some ⟨⟨0, 9⟩, .integer, 3, [(0, 0.1), (1, -4)]⟩, some ⟨.nonnegative, .continuous, 0, [(0, 2)]⟩], 2⟩⟩

theorem gapped_renumbers : Condensed.Renumbers ⟨gappedCopy, [1, 3], [1, 3]⟩ gapped ∧
    gappedCopy.condense = .ok ⟨gappedCopy, [0, 1], [0, 1]⟩ := by
  obtain ⟨c, condensed, renumbers, again⟩ := condense_renumbers (p := gapped) (by decide +kernel)
  have copy : gapped.condense = .ok ⟨gappedCopy, [1, 3], [1, 3]⟩ := by decide +kernel
  obtain rfl := Except.ok.inj (condensed.symm.trans copy)
  exact ⟨renumbers, again⟩

end Program

end LinearReduction
