import Piclaw.TableEdits

/-!
# What an edit of a table leaves as it was

Every edit writes a rectangle, and a rectangle without loose pipes is read as it is up to the ends
and line breaks of its cells, so that only what was edited differs afterwards.
-/

namespace Piclaw.TableEditor

open TextRuns

section Plain

variable {model table : EditableTableModel}

theorem plainCells_of {header : List Text} {alignments : List TableAlign} {rows : List (List Text)}
    (hheader : ∀ cell ∈ header, PlainCell cell)
    (hrows : ∀ row ∈ rows, ∀ cell ∈ row, PlainCell cell) :
    PlainCells { header, alignments, rows } := by
  intro cell hcell
  rcases List.mem_append.mp hcell with h | h
  · exact hheader cell h
  · obtain ⟨row, hrow, hmem⟩ := List.mem_flatten.mp h
    exact hrows row hrow cell hmem

theorem PlainCells.insertTableRow (h : PlainCells model) (afterBodyRow : ℤ) :
    PlainCells (insertTableRow model afterBodyRow) := by
  apply plainCells_of h.normalize.header
  intro row hrow cell hcell
  rcases List.eq_or_mem_of_mem_insertIdx hrow with rfl | hmem
  · rw [List.eq_of_mem_replicate hcell]
    exact plainCell_nil
  · exact h.normalize.row row hmem cell hcell

theorem PlainCells.deleteTableRow (h : PlainCells model) (bodyRow : ℤ) :
    PlainCells (deleteTableRow model bodyRow) := by
  unfold TableEditor.deleteTableRow
  dsimp only
  split_ifs
  · exact h.normalize
  · apply plainCells_of h.normalize.header
    intro row hrow
    exact h.normalize.row row (mem_withoutPosition hrow)

theorem PlainCells.setTableColumnAlignment (h : PlainCells model) (column : ℤ)
    (alignment : TableAlign) : PlainCells (setTableColumnAlignment model column alignment) :=
  plainCells_of h.normalize.header h.normalize.row

theorem PlainCells.widened (h : PlainCells table) (insertAt : ℕ) :
    PlainCells (widened table insertAt) := by
  apply plainCells_of
  · intro cell hcell
    rcases List.eq_or_mem_of_mem_insertIdx hcell with rfl | hmem
    · exact plainCell_columnName _
    · exact h.header cell hmem
  · intro row hrow cell hcell
    obtain ⟨cells, hcells, rfl⟩ := List.mem_map.mp hrow
    rcases List.eq_or_mem_of_mem_insertIdx hcell with rfl | hmem
    · exact plainCell_nil
    · exact h.row cells hcells cell hmem

theorem PlainCells.narrowed (h : PlainCells table) (removeAt : ℕ) :
    PlainCells (narrowed table removeAt) := by
  apply plainCells_of
  · intro cell hcell
    exact h.header cell (List.mem_of_mem_eraseIdx hcell)
  · intro row hrow cell hcell
    obtain ⟨cells, hcells, rfl⟩ := List.mem_map.mp hrow
    exact h.row cells hcells cell (List.mem_of_mem_eraseIdx hcell)

theorem reread_rectangle (hrect : Rectangle table) (hplain : PlainCells table)
    (hpipes : NoLoosePipes table) : reread table = some table := by
  rw [hplain.reread_eq hpipes, hrect.normalize_eq]

end Plain

section CellText

variable {model table : EditableTableModel} {row column : ℕ} {text : Text}

/-- A table with another text in one cell, before empty names are filled in. -/
def withCell (table : EditableTableModel) (row column : ℕ) (text : Text) : EditableTableModel :=
  match row with
  | 0 => { table with header := table.header.set column text }
  | bodyRow + 1 => { table with rows := table.rows.modify bodyRow (·.set column text) }

theorem setTableCell_eq (model : EditableTableModel) (row column : ℕ) (text : Text) :
    setTableCell model row column text =
      normalizeTableModel (withCell (normalizeTableModel model) row column text) := by
  cases row <;> rfl

theorem mem_modify {α : Type} {items : List α} {i : ℕ} {f : α → α} {x : α}
    (h : x ∈ items.modify i f) : x ∈ items ∨ ∃ y ∈ items, x = f y := by
  obtain ⟨j, hj, rfl⟩ := List.mem_iff_getElem.mp h
  rw [List.getElem_modify]
  split_ifs
  · exact .inr ⟨_, List.getElem_mem _, rfl⟩
  · exact .inl (List.getElem_mem _)

theorem Rectangle.boxed_withCell (h : Rectangle table) : Boxed (withCell table row column text) := by
  cases row with
  | zero =>
    have hlength : (table.header.set column text).length = table.header.length := List.length_set ..
    refine ⟨?_, h.alignments.trans hlength.symm, fun row hrow => (h.rows row hrow).trans hlength.symm⟩
    intro hnil
    rw [show table.header.set column text = [] from hnil] at hlength
    exact h.header_ne_nil (List.length_eq_zero_iff.mp hlength.symm)
  | succ bodyRow =>
    refine ⟨h.header_ne_nil, h.alignments, ?_⟩
    intro row hrow
    rcases mem_modify hrow with hmem | ⟨cells, hmem, rfl⟩
    · exact h.rows row hmem
    · exact (List.length_set ..).trans (h.rows cells hmem)

theorem boxed_cleanedModel (h : Boxed table) : Boxed (cleanedModel table) where
  header_ne_nil := by simpa [cleanedModel] using h.header_ne_nil
  alignments := by simpa [cleanedModel] using h.alignments
  rows := by
    intro row hrow
    obtain ⟨cells, hcells, rfl⟩ := List.mem_map.mp hrow
    simpa [cleanedModel] using h.rows cells hcells

theorem length_named (header : List Text) : (named header).length = header.length := by
  simp [named]

theorem Boxed.named (h : Boxed table) : Boxed { table with header := named table.header } where
  header_ne_nil := by
    intro hnil
    have hlength := length_named table.header
    rw [show TableEditor.named table.header = [] from hnil] at hlength
    exact h.header_ne_nil (List.length_eq_zero_iff.mp hlength.symm)
  alignments := h.alignments.trans (length_named _).symm
  rows := fun row hrow => (h.rows row hrow).trans (length_named _).symm

/-- The table that is read after one cell has got a new text. -/
theorem reread_setTableCell (hpipes : NoLoosePipes (setTableCell model row column text)) :
    reread (setTableCell model row column text) =
      let edited := withCell (normalizeTableModel model) row column text
      some { edited with
        header := named ((named edited.header).map cleaned)
        rows := edited.rows.map (·.map cleaned) } := by
  have hboxed : Boxed (withCell (normalizeTableModel model) row column text) :=
    (rectangle_normalizeTableModel model).boxed_withCell
  rw [reread_clean (noLoosePipes_normalize.mpr hpipes), setTableCell_eq, normalize_normalize,
    hboxed.normalize_eq, (boxed_cleanedModel hboxed.named).normalize_eq]
  rfl

/-- A named and plain cell of the header is read as it is. -/
theorem named_cleaned {header : List Text} {c : ℕ}
    (h : ∀ cell, header[c]? = some cell → PlainCell cell ∧ cell ≠ []) :
    (named ((named header).map cleaned))[c]? = header[c]? := by
  rw [getElem?_named, List.getElem?_map, getElem?_named]
  cases hcell : header[c]? with
  | none => rfl
  | some cell =>
    obtain ⟨hplain, hne⟩ := h cell hcell
    simp only [Option.map_some, if_neg hne, hplain.cleaned_eq]

theorem keeps_cell (hplain : PlainCells table) (hrect : Rectangle table) :
    (TableEdit.cell row column text).Keeps table
      (let edited := withCell table row column text
      { edited with
        header := named ((named edited.header).map cleaned)
        rows := edited.rows.map (·.map cleaned) }) := by
  have hheader : ∀ {c : ℕ} {cell : Text}, table.header[c]? = some cell →
      PlainCell cell ∧ cell ≠ [] := by
    intro c cell hcell
    have hmem := List.mem_of_getElem? hcell
    exact ⟨hplain.header cell hmem, hrect.names cell hmem⟩
  refine ⟨?_, ?_, ?_, ?_⟩
  · cases row <;> simp [length_named, withCell]
  · cases row <;> simp [withCell]
  · cases row <;> rfl
  · intro r c hne
    cases row with
    | zero =>
      cases r with
      | zero =>
        have hc : column ≠ c := fun heq => hne (by rw [heq])
        change (named ((named (table.header.set column text)).map cleaned))[c]? = table.header[c]?
        rw [named_cleaned, List.getElem?_set_ne hc]
        intro cell hcell
        rw [List.getElem?_set_ne hc] at hcell
        exact hheader hcell
      | succ bodyRow =>
        change (table.rows.map (·.map cleaned))[bodyRow]?.bind (·[c]?) = _
        rw [PlainCells.rows_cleaned hplain.row]
        rfl
    | succ editedRow =>
      cases r with
      | zero => exact named_cleaned fun cell hcell => hheader hcell
      | succ bodyRow =>
        change ((table.rows.modify editedRow (·.set column text)).map
          (·.map cleaned))[bodyRow]?.bind (·[c]?) = table.rows[bodyRow]?.bind (·[c]?)
        rw [List.getElem?_map, List.getElem?_modify]
        cases hrow : table.rows[bodyRow]? with
        | none => rfl
        | some cells =>
          have hcells := hplain.row cells (List.mem_of_getElem? hrow)
          by_cases heq : editedRow = bodyRow
          · have hc : column ≠ c := fun hcol => hne (by rw [heq, hcol])
            simp only [heq, if_true, Option.map_eq_map, Option.map_some, Option.bind_some]
            rw [List.getElem?_map, List.getElem?_set_ne hc, ← List.getElem?_map,
              PlainCells.map_cleaned hcells]
          · simp only [heq, if_false, Option.map_eq_map, Option.map_some, Option.bind_some]
            rw [PlainCells.map_cleaned hcells]

end CellText

section Editing

variable {model : EditableTableModel} {edit : TableEdit}

/-- An edit without loose pipes in the table it writes is read back with everything else kept. -/
theorem keeps_of_noLoosePipes (hplain : PlainCells model) (hpipes : NoLoosePipes (edit.apply model)) :
    ∃ read, reread (edit.apply model) = some read ∧
      edit.Keeps (normalizeTableModel model) read := by
  have hrect := rectangle_normalizeTableModel model
  have hnormal := hplain.normalize
  cases edit with
  | none => exact ⟨_, hplain.reread_eq hpipes, rfl⟩
  | cell row column text =>
    exact ⟨_, reread_setTableCell hpipes, keeps_cell hnormal hrect⟩
  | insertRow afterBodyRow =>
    refine ⟨_, reread_rectangle (rectangle_insertTableRow afterBodyRow)
      (hplain.insertTableRow afterBodyRow) hpipes, rfl, rfl, ?_, ?_⟩
    · exact List.length_insertIdx_of_le_length (clampPosition_le _ _) _
    · exact List.eraseIdx_insertIdx_self _
  | deleteRow bodyRow =>
    refine ⟨_, reread_rectangle (rectangle_deleteTableRow bodyRow)
      (hplain.deleteTableRow bodyRow) hpipes, ?_⟩
    change (TableEdit.deleteRow bodyRow).Keeps _ (deleteTableRow model bodyRow)
    unfold deleteTableRow
    dsimp only
    split_ifs with hfew
    · exact ⟨rfl, rfl, fun _ => rfl, fun hmany => absurd hmany (by omega)⟩
    · exact ⟨rfl, rfl, fun h => absurd h hfew, fun _ => rfl⟩
  | insertColumn afterColumn =>
    have hat := clampPosition_le (normalizeTableModel model).header.length (afterColumn + 1)
    change NoLoosePipes (insertTableColumn model afterColumn) at hpipes
    change ∃ read, reread (insertTableColumn model afterColumn) = _ ∧ _
    rw [insertTableColumn_eq] at hpipes ⊢
    refine ⟨_, reread_rectangle (hrect.widened hat) (hnormal.widened _) hpipes, ?_, ?_, ?_, ?_⟩
    · exact List.length_insertIdx_of_le_length hat _
    · exact List.eraseIdx_insertIdx_self _
    · exact List.eraseIdx_insertIdx_self _
    · unfold widened
      rw [List.map_map]
      conv_rhs => rw [← List.map_id (normalizeTableModel model).rows]
      exact List.map_congr_left fun row _ => List.eraseIdx_insertIdx_self _
  | deleteColumn column =>
    by_cases hfew : (normalizeTableModel model).header.length ≤ 1
    · have hsame : deleteTableColumn model column = normalizeTableModel model := by
        unfold deleteTableColumn
        dsimp only
        rw [if_pos hfew]
      change NoLoosePipes (deleteTableColumn model column) at hpipes
      change ∃ read, reread (deleteTableColumn model column) = _ ∧ _
      rw [hsame] at hpipes ⊢
      exact ⟨_, reread_rectangle hrect hnormal hpipes, fun _ => rfl,
        fun hmany => absurd hmany (by omega)⟩
    · have hmany : 1 < (normalizeTableModel model).header.length := by omega
      have hat := clampPosition_le ((normalizeTableModel model).header.length - 1) column
      change NoLoosePipes (deleteTableColumn model column) at hpipes
      change ∃ read, reread (deleteTableColumn model column) = _ ∧ _
      rw [deleteTableColumn_eq column hmany] at hpipes ⊢
      exact ⟨_, reread_rectangle (hrect.narrowed (by omega) hmany) (hnormal.narrowed _) hpipes,
        fun h => absurd h hfew, fun _ => ⟨rfl, rfl, rfl⟩⟩
  | align column alignment =>
    exact ⟨_, reread_rectangle (rectangle_setTableColumnAlignment column alignment)
      (hplain.setTableColumnAlignment column alignment) hpipes, rfl, rfl, rfl⟩

/-- A table that is read back as kept is as wide as the one that was written. -/
theorem TableEdit.Keeps.width {read : EditableTableModel}
    (h : edit.Keeps (normalizeTableModel model) read) :
    read.header.length = (normalizeTableModel (edit.apply model)).header.length := by
  have hrect := rectangle_normalizeTableModel model
  cases edit with
  | none => rw [show read = normalizeTableModel model from h]; rfl
  | cell row column text =>
    rw [h.1]
    change _ = (normalizeTableModel (setTableCell model row column text)).header.length
    rw [setTableCell_eq, normalize_normalize, hrect.boxed_withCell.normalize_eq]
    cases row <;> simp [length_named, withCell]
  | insertRow afterBodyRow =>
    change _ = (normalizeTableModel (insertTableRow model afterBodyRow)).header.length
    rw [h.1, (rectangle_insertTableRow afterBodyRow).normalize_eq]
    rfl
  | deleteRow bodyRow =>
    change _ = (normalizeTableModel (deleteTableRow model bodyRow)).header.length
    rw [h.1, (rectangle_deleteTableRow bodyRow).normalize_eq]
    unfold deleteTableRow
    dsimp only
    split_ifs <;> rfl
  | insertColumn afterColumn =>
    have hat := clampPosition_le (normalizeTableModel model).header.length (afterColumn + 1)
    change _ = (normalizeTableModel (insertTableColumn model afterColumn)).header.length
    rw [h.1, insertTableColumn_eq, (hrect.widened hat).normalize_eq]
    exact (List.length_insertIdx_of_le_length hat _).symm
  | deleteColumn column =>
    change _ = (normalizeTableModel (deleteTableColumn model column)).header.length
    by_cases hfew : (normalizeTableModel model).header.length ≤ 1
    · rw [h.1 hfew]
      unfold deleteTableColumn
      dsimp only
      rw [if_pos hfew, normalize_normalize]
    · have hat := clampPosition_le ((normalizeTableModel model).header.length - 1) column
      rw [(h.2 (by omega)).1, deleteTableColumn_eq column (by omega),
        (hrect.narrowed (by omega) (by omega)).normalize_eq]
      rfl
  | align column alignment =>
    change _ = (normalizeTableModel (setTableColumnAlignment model column alignment)).header.length
    rw [h.1, (rectangle_setTableColumnAlignment column alignment).normalize_eq]
    rfl

/-- A table whose cells are plain is read back from what an edit writes, with every other cell and
the columns as they were, exactly when no pipe that is written stands behind an odd number of
backslashes of its cell. -/
theorem edit_keeps_cells (model : EditableTableModel) (edit : TableEdit)
    (hplain : PlainCells model) :
    (∃ read, reread (edit.apply model) = some read ∧
        edit.Keeps (normalizeTableModel model) read) ↔
      NoLoosePipes (edit.apply model) := by
  constructor
  · rintro ⟨read, hread, hkeeps⟩
    by_contra hloose
    obtain ⟨other, hother, hwider⟩ := reread_wider (mt noLoosePipes_normalize.mp hloose)
    have hsame : read = other := Option.some.inj (hread.symm.trans hother)
    subst hsame
    exact absurd hkeeps.width (by omega)
  · exact keeps_of_noLoosePipes hplain

/-- One column whose body has a cell of a pipe and one of a backslash, edited to hold both. -/
def backslashTable : EditableTableModel := ⟨[['a']], [.left], [[['|']], [['\\']]]⟩

theorem edit_keeps_cells_backslash : ∃ read,
    reread ((TableEdit.cell 1 0 ['\\', '\\', '|']).apply backslashTable) = some read ∧
      (TableEdit.cell 1 0 ['\\', '\\', '|']).Keeps (normalizeTableModel backslashTable) read :=
  (edit_keeps_cells backslashTable (.cell 1 0 ['\\', '\\', '|']) (by decide)).mpr (by decide)

theorem escaped_pipe_splits :
    ¬ ∀ model : EditableTableModel, PlainCells model →
      reread model = some (normalizeTableModel model) := by
  intro h
  exact absurd (h ⟨[['a', '\\', '|', 'b']], [.left], []⟩ (by decide)) (by decide)

end Editing

end Piclaw.TableEditor
