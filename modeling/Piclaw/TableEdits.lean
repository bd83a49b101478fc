import Piclaw.TableRoundTrip

/-!
# Edits of a table and what is read back

Normalising a model makes it a rectangle with a non-empty header, and the lines of a rectangle are
read as the same rectangle with its cells cleaned, or as a wider one when a cell holds a loose pipe.
-/

namespace Piclaw.TableEditor

open TextRuns

section Rectangles

variable {model : EditableTableModel} {α : Type}

structure Rectangle (model : EditableTableModel) : Prop where
  header_ne_nil : model.header ≠ []
  names : ∀ cell ∈ model.header, cell ≠ []
  alignments : model.alignments.length = model.header.length
  rows : ∀ row ∈ model.rows, row.length = model.header.length

theorem foldl_max (lengths : List ℕ) (n : ℕ) :
    n ≤ lengths.foldl max n ∧ ∀ k ∈ lengths, k ≤ lengths.foldl max n := by
  induction lengths generalizing n with
  | nil => simp
  | cons k lengths ih =>
    obtain ⟨hstart, hall⟩ := ih (max n k)
    rw [List.foldl_cons]
    refine ⟨by omega, ?_⟩
    intro j hj
    rcases List.mem_cons.mp hj with rfl | hj
    · omega
    · exact hall j hj

theorem foldl_max_le {lengths : List ℕ} {n : ℕ} (h : ∀ k ∈ lengths, k ≤ n) :
    lengths.foldl max n = n := by
  induction lengths with
  | nil => rfl
  | cons k lengths ih =>
    rw [List.foldl_cons, max_eq_left (h k (by simp)), ih fun j hj => h j (List.mem_cons_of_mem _ hj)]

theorem tableWidth_header (model : EditableTableModel) :
    max 1 model.header.length ≤ tableWidth model := (foldl_max _ _).1

theorem tableWidth_row {row : List Text} (h : row ∈ model.rows) :
    row.length ≤ tableWidth model :=
  (foldl_max _ (max 1 model.header.length)).2 _ (List.mem_map_of_mem h)

theorem length_normalizeRow (fill : α) {row : List α} {width : ℕ} :
    (normalizeRow fill row width).length = width := by
  unfold normalizeRow
  rw [List.length_append, List.length_take, List.length_replicate]
  omega

theorem normalizeRow_self (fill : α) {row : List α} {width : ℕ} (h : row.length = width) :
    normalizeRow fill row width = row := by
  unfold normalizeRow
  rw [List.take_of_length_le h.le, h, Nat.sub_self]
  exact List.append_nil _

theorem columnName_ne_nil (index : ℕ) : columnName index ≠ [] :=
  List.append_ne_nil_of_left_ne_nil (by decide) _

theorem length_normalized_header (model : EditableTableModel) :
    (normalizeTableModel model).header.length = tableWidth model := by
  simp [normalizeTableModel, length_normalizeRow]

theorem rectangle_normalizeTableModel (model : EditableTableModel) :
    Rectangle (normalizeTableModel model) where
  header_ne_nil := by
    intro hnil
    have hlength := length_normalized_header model
    have hwidth := tableWidth_header model
    rw [hnil, List.length_nil] at hlength
    omega
  names := by
    intro cell hcell
    obtain ⟨i, hi, rfl⟩ := List.mem_iff_getElem.mp hcell
    simp only [normalizeTableModel, List.getElem_mapIdx]
    split_ifs with h
    · exact columnName_ne_nil i
    · exact h
  alignments := by
    rw [length_normalized_header]
    exact length_normalizeRow _
  rows := by
    intro row hrow
    rw [length_normalized_header]
    obtain ⟨cells, _, rfl⟩ := List.mem_map.mp hrow
    exact length_normalizeRow _

/-- The header with a name for each empty cell. -/
def named (header : List Text) : List Text :=
  header.mapIdx fun index cell => if cell = [] then columnName index else cell

theorem getElem?_named (header : List Text) (i : ℕ) :
    (named header)[i]? = header[i]?.map fun cell => if cell = [] then columnName i else cell :=
  List.getElem?_mapIdx

theorem named_self {header : List Text} (h : ∀ cell ∈ header, cell ≠ []) :
    named header = header := by
  apply List.ext_getElem
  · simp [named]
  · intro i hi hi'
    simp only [named, List.getElem_mapIdx]
    rw [if_neg (h _ (List.getElem_mem _))]

/-- A model whose rows are all as long as its header. -/
structure Boxed (model : EditableTableModel) : Prop where
  header_ne_nil : model.header ≠ []
  alignments : model.alignments.length = model.header.length
  rows : ∀ row ∈ model.rows, row.length = model.header.length

theorem Boxed.tableWidth_eq (h : Boxed model) : tableWidth model = model.header.length := by
  have hpos : 0 < model.header.length := List.length_pos_iff.mpr h.header_ne_nil
  unfold tableWidth
  rw [max_eq_right hpos]
  apply foldl_max_le
  intro k hk
  obtain ⟨row, hrow, rfl⟩ := List.mem_map.mp hk
  exact (h.rows row hrow).le

theorem Boxed.normalize_eq (h : Boxed model) :
    normalizeTableModel model = { model with header := named model.header } := by
  unfold normalizeTableModel
  rw [h.tableWidth_eq]
  dsimp only
  rw [normalizeRow_self _ rfl, normalizeRow_self _ h.alignments]
  have hrows : model.rows.map (normalizeRow [] · model.header.length) = model.rows := by
    rw [List.map_congr_left fun row hrow => normalizeRow_self [] (h.rows row hrow)]
    exact List.map_id _
  rw [hrows]
  rfl

theorem Rectangle.boxed (h : Rectangle model) : Boxed model :=
  ⟨h.header_ne_nil, h.alignments, h.rows⟩

theorem Rectangle.normalize_eq (h : Rectangle model) : normalizeTableModel model = model := by
  rw [h.boxed.normalize_eq, named_self h.names]

theorem normalize_normalize (model : EditableTableModel) :
    normalizeTableModel (normalizeTableModel model) = normalizeTableModel model :=
  (rectangle_normalizeTableModel model).normalize_eq

end Rectangles

section ReadingBack

variable {model : EditableTableModel}

def tableCells (model : EditableTableModel) : List Text := model.header ++ model.rows.flatten

/-- No pipe of the table stands behind an odd number of backslashes. -/
def NoLoosePipes (model : EditableTableModel) : Prop :=
  ∀ cell ∈ tableCells model, loosePipes false cell = 0

instance (model : EditableTableModel) : Decidable (NoLoosePipes model) :=
  inferInstanceAs (Decidable (∀ cell ∈ tableCells model, loosePipes false cell = 0))

/-- The table as it is shown once its document has been read again. -/
def reread (model : EditableTableModel) : Option EditableTableModel :=
  parseMarkdownTableLines (documentLines (serializeMarkdownTable model))

def cleanedModel (model : EditableTableModel) : EditableTableModel :=
  { model with
    header := model.header.map cleaned
    rows := model.rows.map (·.map cleaned) }

theorem parseTableAlignments_line (alignments : List TableAlign) (h : alignments ≠ []) :
    parseTableAlignments (tableLine (alignments.map delimiterForAlignment)) = alignments := by
  have hline : tableLine (alignments.map delimiterForAlignment) =
      rowLine (alignments.map delimiterForAlignment) := by
    unfold rowLine
    rw [List.map_map]
    congr 1
    apply List.map_congr_left
    intro align _
    cases align <;> decide
  unfold parseTableAlignments
  rw [hline, split_rowLine (by simpa using h), List.map_map, List.map_map]
  · conv_rhs => rw [← List.map_id alignments]
    apply List.map_congr_left
    intro align _
    cases align <;> decide
  · intro cell hcell
    obtain ⟨align, _, rfl⟩ := List.mem_map.mp hcell
    cases align <;> decide

theorem trim_rowLine (cells : List Text) : trim (rowLine cells) ≠ [] := by
  intro hnil
  have hbar : '|' ∈ trim (rowLine cells) := by
    unfold trim stripEnds
    rw [show rowLine cells = '|' :: ' ' :: (joinCells (cells.map escapeMarkdownTableCell) ++
      [' ', '|']) from rfl, List.dropWhile_cons_of_neg (by decide)]
    have hne : ('|' :: ' ' :: (joinCells (cells.map escapeMarkdownTableCell) ++
        [' ', '|'])).rdropWhile isTrimmed = '|' :: ' ' ::
          (joinCells (cells.map escapeMarkdownTableCell) ++ [' ', '|']) := by
      rw [List.rdropWhile_eq_self_iff]
      intro hl
      simp only [List.getLast_cons_cons, List.getLast_cons (List.append_ne_nil_of_right_ne_nil _
        (List.cons_ne_nil _ _)), List.getLast_append_of_ne_nil _ (List.cons_ne_nil _ _)]
      decide
    rw [hne]
    exact List.mem_cons_self
  rw [hnil] at hbar
  cases hbar

/-- The cells that the lines of a table are split into. -/
def splitModel (model : EditableTableModel) : EditableTableModel :=
  { model with
    header := splitMarkdownTableRow (rowLine model.header)
    rows := model.rows.map fun row => splitMarkdownTableRow (rowLine row) }

theorem reread_eq (model : EditableTableModel) :
    reread model = some (normalizeTableModel (splitModel (normalizeTableModel model))) := by
  have hrect := rectangle_normalizeTableModel model
  have halign : (normalizeTableModel model).alignments ≠ [] := by
    rw [← List.length_pos_iff, hrect.alignments]
    exact List.length_pos_iff.mpr hrect.header_ne_nil
  have hheader : (splitMarkdownTableRow (rowLine (normalizeTableModel model).header)).length ≠ 0 := by
    rw [split_rowLine_length hrect.header_ne_nil]
    have := List.length_pos_iff.mpr hrect.header_ne_nil
    omega
  unfold reread
  rw [documentLines_serialize]
  unfold serializedLines parseMarkdownTableLines
  dsimp only
  rw [parseTableAlignments_line _ halign, if_neg]
  · have hkept : ((normalizeTableModel model).rows.map fun row =>
        tableLine (row.map escapeMarkdownTableCell)).filter (fun line => trim line ≠ []) =
        (normalizeTableModel model).rows.map rowLine := by
      apply List.filter_eq_self.mpr
      intro line hline
      obtain ⟨row, _, rfl⟩ := List.mem_map.mp hline
      exact decide_eq_true (trim_rowLine row)
    rw [hkept, List.map_map]
    rfl
  · rintro (hzero | hzero)
    · exact hheader hzero
    · exact halign (List.length_eq_zero_iff.mp hzero)

theorem reread_clean (h : NoLoosePipes (normalizeTableModel model)) :
    reread model = some (normalizeTableModel (cleanedModel (normalizeTableModel model))) := by
  have hrect := rectangle_normalizeTableModel model
  rw [reread_eq]
  congr 2
  unfold cleanedModel splitModel
  rw [split_rowLine hrect.header_ne_nil fun cell hcell => h cell (List.mem_append_left _ hcell)]
  congr 1
  apply List.map_congr_left
  intro row hrow
  apply split_rowLine
  · intro hnil
    have hlength := hrect.rows row hrow
    rw [hnil] at hlength
    exact hrect.header_ne_nil (List.length_eq_zero_iff.mp hlength.symm)
  · intro cell hcell
    exact h cell (List.mem_append_right _ (List.mem_flatten_of_mem hrow hcell))

/-- A loose pipe makes the table wider. -/
theorem reread_wider (h : ¬ NoLoosePipes (normalizeTableModel model)) :
    ∃ read, reread model = some read ∧
      (normalizeTableModel model).header.length < read.header.length := by
  have hrect := rectangle_normalizeTableModel model
  refine ⟨_, reread_eq model, lt_of_lt_of_eq ?_ (length_normalized_header _).symm⟩
  have hsum : ∀ {cells : List Text} {cell : Text}, cell ∈ cells → loosePipes false cell ≠ 0 →
      0 < (cells.map (loosePipes false)).sum := by
    intro cells cell hcell hloose
    exact lt_of_lt_of_le (Nat.pos_of_ne_zero hloose)
      (List.single_le_sum (by simp) _ (List.mem_map_of_mem hcell))
  unfold NoLoosePipes at h
  push Not at h
  obtain ⟨cell, hcell, hloose⟩ := h
  rcases List.mem_append.mp hcell with hheader | hrow
  · have hwide := tableWidth_header (splitModel (normalizeTableModel model))
    have hlength := split_rowLine_length hrect.header_ne_nil
    have hpos := hsum hheader hloose
    change max 1 (splitMarkdownTableRow _).length ≤ _ at hwide
    omega
  · obtain ⟨row, hrow, hcell⟩ := List.mem_flatten.mp hrow
    have hwide := @tableWidth_row (splitModel (normalizeTableModel model)) _
      (List.mem_map_of_mem hrow)
    have hlength := split_rowLine_length (List.ne_nil_of_mem hcell)
    have hpos := hsum hcell hloose
    have hrow := hrect.rows row hrow
    omega

end ReadingBack

section Cells

variable {model : EditableTableModel} {P : Text → Prop}

/-- A text without line breaks and without whitespace at its ends. -/
def PlainCell (cell : Text) : Prop := trim cell = cell ∧ '\n' ∉ cell ∧ '\r' ∉ cell

instance (cell : Text) : Decidable (PlainCell cell) :=
  inferInstanceAs (Decidable (_ ∧ _ ∧ _))

theorem PlainCell.cleaned_eq {cell : Text} (h : PlainCell cell) : cleaned cell = cell := by
  have hbreaks : ∀ text : Text, '\n' ∉ text → replaceBreaks text = text := by
    intro text
    induction text using replaceBreaks.induct with
    | case1 rest ih => intro hmem; exact absurd (by simp) hmem
    | case2 rest ih => intro hmem; exact absurd (by simp) hmem
    | case3 char rest hreturn hbreak ih =>
      intro hmem
      rw [replaceBreaks, ih fun hrest => hmem (List.mem_cons_of_mem _ hrest)]
      all_goals assumption
    | case4 => intro _; rfl
  unfold cleaned
  rw [hbreaks cell h.2.1, h.1]

theorem columnName_char {index : ℕ} {c : Char} (h : c ∈ columnName index) :
    c ∈ "Column ".toList ∨ c.isDigit = true := by
  rcases List.mem_append.mp h with h | h
  · exact .inl h
  · exact .inr (Nat.isDigit_of_mem_toDigits (by decide) (by decide) h)

theorem columnName_mem {index : ℕ} {c : Char} (h : c ∈ columnName index) :
    c ≠ '\n' ∧ c ≠ '\r' ∧ c ≠ '|' := by
  rcases columnName_char h with h | h
  · have hall : ∀ c ∈ ['C', 'o', 'l', 'u', 'm', 'n', ' '], c ≠ '\n' ∧ c ≠ '\r' ∧ c ≠ '|' := by
      simp
    exact hall c h
  · refine ⟨?_, ?_, ?_⟩ <;> rintro rfl <;> exact absurd h (by decide)

theorem plainCell_nil : PlainCell [] := by decide

theorem isDigit_not_trimmed {c : Char} (h : c.isDigit = true) : isTrimmed c = false := by
  have hrange : 48 ≤ c.toNat ∧ c.toNat ≤ 57 := by
    simp only [Char.isDigit, Bool.and_eq_true, decide_eq_true_eq] at h
    exact h
  unfold isTrimmed
  simp only [Bool.or_eq_false_iff, Bool.and_eq_false_iff, decide_eq_false_iff_not]
  omega

theorem plainCell_columnName (index : ℕ) : PlainCell (columnName index) := by
  refine ⟨?_, fun h => (columnName_mem h).1 rfl, fun h => (columnName_mem h).2.1 rfl⟩
  apply stripEnds_eq_self
  · intro x hx
    cases hx
    decide
  · intro x hx
    have hne : Nat.toDigits 10 (index + 1) ≠ [] := Nat.toDigits_ne_nil
    unfold columnName at hx
    rw [List.getLast?_append_of_ne_nil _ hne] at hx
    exact isDigit_not_trimmed
      (Nat.isDigit_of_mem_toDigits (by decide) (by decide) (List.mem_of_getLast? hx))

theorem loosePipes_of_no_pipe {odd : Bool} {cell : Text} (h : '|' ∉ cell) :
    loosePipes odd cell = 0 := by
  induction cell generalizing odd with
  | nil => rfl
  | cons c cell ih =>
    have hc : c ≠ '|' := fun heq => h (by simp [heq])
    have hrest : ∀ odd, loosePipes odd cell = 0 := fun odd =>
      @ih odd fun hmem => h (List.mem_cons_of_mem _ hmem)
    simp [loosePipes, hc, hrest]

theorem loosePipes_columnName (index : ℕ) : loosePipes false (columnName index) = 0 :=
  loosePipes_of_no_pipe fun h => (columnName_mem h).2.2 rfl

theorem mem_normalizeRow {α : Type} {fill x : α} {row : List α} {width : ℕ}
    (h : x ∈ normalizeRow fill row width) : x ∈ row ∨ x = fill := by
  rcases List.mem_append.mp h with h | h
  · exact .inl (List.mem_of_mem_take h)
  · exact .inr (List.eq_of_mem_replicate h)

theorem mem_named {header : List Text} {cell : Text} (h : cell ∈ named header) :
    cell ∈ header ∨ ∃ i, cell = columnName i := by
  obtain ⟨i, hi, rfl⟩ := List.mem_iff_getElem.mp h
  simp only [named, List.getElem_mapIdx]
  split_ifs
  · exact .inr ⟨i, rfl⟩
  · exact .inl (List.getElem_mem _)

theorem mem_tableCells_normalize {cell : Text}
    (h : cell ∈ tableCells (normalizeTableModel model)) :
    cell ∈ tableCells model ∨ cell = [] ∨ ∃ i, cell = columnName i := by
  rcases List.mem_append.mp h with h | h
  · rcases mem_named h with h | h
    · rcases mem_normalizeRow h with h | h
      · exact .inl (List.mem_append_left _ h)
      · exact .inr (.inl h)
    · exact .inr (.inr h)
  · obtain ⟨row, hrow, hcell⟩ := List.mem_flatten.mp h
    obtain ⟨cells, hcells, rfl⟩ := List.mem_map.mp hrow
    rcases mem_normalizeRow hcell with h | h
    · exact .inl (List.mem_append_right _ (List.mem_flatten_of_mem hcells h))
    · exact .inr (.inl h)

/-- Normalising a table keeps each of its cells but the empty ones of the header. -/
theorem mem_normalize_of_mem {cell : Text} (h : cell ∈ tableCells model) :
    cell = [] ∨ cell ∈ tableCells (normalizeTableModel model) := by
  have hkept : ∀ {row : List Text}, row.length ≤ tableWidth model → cell ∈ row →
      cell ∈ normalizeRow [] row (tableWidth model) := by
    intro row hlength hcell
    unfold normalizeRow
    rw [List.take_of_length_le hlength]
    exact List.mem_append_left _ hcell
  rcases List.mem_append.mp h with h | h
  · have hmem := hkept (le_trans (le_max_right 1 _) (tableWidth_header model)) h
    by_cases hnil : cell = []
    · exact .inl hnil
    · refine .inr (List.mem_append_left _ ?_)
      obtain ⟨i, hi, heq⟩ := List.mem_iff_getElem.mp hmem
      refine List.mem_iff_getElem.mpr ⟨i, by simpa [normalizeTableModel] using hi, ?_⟩
      simp only [normalizeTableModel, List.getElem_mapIdx, heq, if_neg hnil]
  · obtain ⟨row, hrow, hcell⟩ := List.mem_flatten.mp h
    refine .inr (List.mem_append_right _ ?_)
    exact List.mem_flatten_of_mem (List.mem_map_of_mem hrow) (hkept (tableWidth_row hrow) hcell)

theorem noLoosePipes_normalize : NoLoosePipes (normalizeTableModel model) ↔ NoLoosePipes model := by
  constructor
  · intro h cell hcell
    rcases mem_normalize_of_mem hcell with rfl | hmem
    · rfl
    · exact h cell hmem
  · intro h cell hcell
    rcases mem_tableCells_normalize hcell with hmem | rfl | ⟨i, rfl⟩
    · exact h cell hmem
    · rfl
    · exact loosePipes_columnName i

def PlainCells (model : EditableTableModel) : Prop := ∀ cell ∈ tableCells model, PlainCell cell

instance (model : EditableTableModel) : Decidable (PlainCells model) :=
  inferInstanceAs (Decidable (∀ cell ∈ tableCells model, PlainCell cell))

theorem PlainCells.normalize (h : PlainCells model) : PlainCells (normalizeTableModel model) := by
  intro cell hcell
  rcases mem_tableCells_normalize hcell with hmem | rfl | ⟨i, rfl⟩
  · exact h cell hmem
  · exact plainCell_nil
  · exact plainCell_columnName i

theorem PlainCells.map_cleaned {cells : List Text} (h : ∀ cell ∈ cells, PlainCell cell) :
    cells.map cleaned = cells := by
  rw [List.map_congr_left fun cell hcell => (h cell hcell).cleaned_eq]
  exact List.map_id _

theorem PlainCells.rows_cleaned {rows : List (List Text)}
    (h : ∀ row ∈ rows, ∀ cell ∈ row, PlainCell cell) : rows.map (·.map cleaned) = rows := by
  rw [List.map_congr_left fun row hrow => map_cleaned (h row hrow)]
  exact List.map_id _

theorem PlainCells.header (h : PlainCells model) : ∀ cell ∈ model.header, PlainCell cell :=
  fun cell hcell => h cell (List.mem_append_left _ hcell)

theorem PlainCells.row (h : PlainCells model) :
    ∀ row ∈ model.rows, ∀ cell ∈ row, PlainCell cell := fun _ hrow cell hcell =>
  h cell (List.mem_append_right _ (List.mem_flatten_of_mem hrow hcell))

theorem PlainCells.cleanedModel_eq (h : PlainCells model) : cleanedModel model = model := by
  unfold cleanedModel
  rw [map_cleaned h.header, rows_cleaned h.row]

theorem PlainCells.reread_eq (h : PlainCells model) (hpipes : NoLoosePipes model) :
    reread model = some (normalizeTableModel model) := by
  rw [reread_clean (noLoosePipes_normalize.mpr hpipes), h.normalize.cleanedModel_eq,
    normalize_normalize]

end Cells

section Edits

/-- What can be done to a table: nothing, a new text for one cell, or one of the table's actions. -/
inductive TableEdit
  | none
  | cell (row column : ℕ) (text : Text)
  | insertRow (afterBodyRow : ℤ)
  | deleteRow (bodyRow : ℤ)
  | insertColumn (afterColumn : ℤ)
  | deleteColumn (column : ℤ)
  | align (column : ℤ) (alignment : TableAlign)

def TableEdit.apply (model : EditableTableModel) : TableEdit → EditableTableModel
  | .none => model
  | .cell row column text => setTableCell model row column text
  | .insertRow afterBodyRow => insertTableRow model afterBodyRow
  | .deleteRow bodyRow => deleteTableRow model bodyRow
  | .insertColumn afterColumn => insertTableColumn model afterColumn
  | .deleteColumn column => deleteTableColumn model column
  | .align column alignment => setTableColumnAlignment model column alignment

/-- The cell at a place of the drawn table; row 0 is the header. -/
def cellAt (model : EditableTableModel) (row column : ℕ) : Option Text :=
  match row with
  | 0 => model.header[column]?
  | bodyRow + 1 => model.rows[bodyRow]?.bind (·[column]?)

/-- The table before an edit and the one that is read afterwards: only the edited cell, the new or
deleted row or column, or the set alignment differs. -/
def TableEdit.Keeps (before after : EditableTableModel) : TableEdit → Prop
  | .none => after = before
  | .cell row column _ =>
    after.header.length = before.header.length ∧ after.rows.length = before.rows.length ∧
      after.alignments = before.alignments ∧
      ∀ r c, (r, c) ≠ (row, column) → cellAt after r c = cellAt before r c
  | .insertRow afterBodyRow =>
    after.header = before.header ∧ after.alignments = before.alignments ∧
      after.rows.length = before.rows.length + 1 ∧
      after.rows.eraseIdx (clampPosition before.rows.length (afterBodyRow + 1)) = before.rows
  | .deleteRow bodyRow =>
    after.header = before.header ∧ after.alignments = before.alignments ∧
      (before.rows.length ≤ 1 → after.rows = before.rows) ∧
      (1 < before.rows.length → after.rows = withoutPosition before.rows bodyRow)
  | .insertColumn afterColumn =>
    let insertAt := clampPosition before.header.length (afterColumn + 1)
    after.header.length = before.header.length + 1 ∧
      after.header.eraseIdx insertAt = before.header ∧
      after.alignments.eraseIdx insertAt = before.alignments ∧
      after.rows.map (·.eraseIdx insertAt) = before.rows
  | .deleteColumn column =>
    let removeAt := clampPosition (before.header.length - 1) column
    (before.header.length ≤ 1 → after = before) ∧
      (1 < before.header.length →
        after.header = before.header.eraseIdx removeAt ∧
          after.alignments = before.alignments.eraseIdx removeAt ∧
          after.rows = before.rows.map (·.eraseIdx removeAt))
  | .align column alignment =>
    after.header = before.header ∧ after.rows = before.rows ∧
      after.alignments =
        before.alignments.set (clampPosition (before.header.length - 1) column) alignment

variable {model table : EditableTableModel} {cell text : Text}

theorem clampPosition_le (length : ℕ) (position : ℤ) : clampPosition length position ≤ length := by
  unfold clampPosition
  omega

theorem mem_withoutPosition {α : Type} {items : List α} {position : ℤ} {x : α}
    (h : x ∈ withoutPosition items position) : x ∈ items := by
  unfold withoutPosition at h
  split_ifs at h
  · exact List.mem_of_mem_eraseIdx h
  · exact h

theorem rectangle_insertTableRow (afterBodyRow : ℤ) :
    Rectangle (insertTableRow model afterBodyRow) := by
  have hrect := rectangle_normalizeTableModel model
  refine ⟨hrect.header_ne_nil, hrect.names, hrect.alignments, ?_⟩
  intro row hrow
  rcases List.eq_or_mem_of_mem_insertIdx hrow with rfl | hmem
  · exact List.length_replicate
  · exact hrect.rows row hmem

theorem rectangle_deleteTableRow (bodyRow : ℤ) : Rectangle (deleteTableRow model bodyRow) := by
  have hrect := rectangle_normalizeTableModel model
  unfold deleteTableRow
  dsimp only
  split_ifs
  · exact hrect
  · exact ⟨hrect.header_ne_nil, hrect.names, hrect.alignments, fun row hrow =>
      hrect.rows row (mem_withoutPosition hrow)⟩

theorem rectangle_setTableColumnAlignment (column : ℤ) (alignment : TableAlign) :
    Rectangle (setTableColumnAlignment model column alignment) := by
  have hrect := rectangle_normalizeTableModel model
  refine ⟨hrect.header_ne_nil, hrect.names, ?_, hrect.rows⟩
  exact (List.length_set ..).trans hrect.alignments

/-- The columns of a rectangle with one more at a place. -/
def widened (table : EditableTableModel) (insertAt : ℕ) : EditableTableModel where
  header := table.header.insertIdx insertAt (columnName insertAt)
  alignments := table.alignments.insertIdx insertAt .left
  rows := table.rows.map (·.insertIdx insertAt [])

theorem Rectangle.widened (h : Rectangle table) {insertAt : ℕ}
    (hat : insertAt ≤ table.header.length) : Rectangle (widened table insertAt) where
  header_ne_nil := by
    intro hnil
    have hlength := List.length_insertIdx_of_le_length hat (a := columnName insertAt)
    change table.header.insertIdx insertAt _ = [] at hnil
    rw [hnil] at hlength
    cases hlength
  names := by
    intro cell hcell
    rcases List.eq_or_mem_of_mem_insertIdx hcell with rfl | hmem
    · exact columnName_ne_nil _
    · exact h.names cell hmem
  alignments := by
    change (table.alignments.insertIdx _ _).length = (table.header.insertIdx _ _).length
    rw [List.length_insertIdx_of_le_length hat,
      List.length_insertIdx_of_le_length (hat.trans h.alignments.ge), h.alignments]
  rows := by
    intro row hrow
    obtain ⟨cells, hcells, rfl⟩ := List.mem_map.mp hrow
    change (cells.insertIdx _ _).length = (table.header.insertIdx _ _).length
    rw [List.length_insertIdx_of_le_length hat,
      List.length_insertIdx_of_le_length (hat.trans (h.rows cells hcells).ge), h.rows cells hcells]

/-- The columns of a rectangle without the one at a place. -/
def narrowed (table : EditableTableModel) (removeAt : ℕ) : EditableTableModel where
  header := table.header.eraseIdx removeAt
  alignments := table.alignments.eraseIdx removeAt
  rows := table.rows.map (·.eraseIdx removeAt)

theorem Rectangle.narrowed (h : Rectangle table) {removeAt : ℕ}
    (hat : removeAt < table.header.length) (hmany : 1 < table.header.length) :
    Rectangle (narrowed table removeAt) where
  header_ne_nil := by
    intro hnil
    have hlength := List.length_eraseIdx_of_lt hat
    change table.header.eraseIdx removeAt = [] at hnil
    rw [hnil, List.length_nil] at hlength
    omega
  names := fun cell hcell => h.names cell (List.mem_of_mem_eraseIdx hcell)
  alignments := by
    change (table.alignments.eraseIdx _).length = (table.header.eraseIdx _).length
    rw [List.length_eraseIdx_of_lt hat, List.length_eraseIdx_of_lt (hat.trans_eq h.alignments.symm),
      h.alignments]
  rows := by
    intro row hrow
    obtain ⟨cells, hcells, rfl⟩ := List.mem_map.mp hrow
    change (cells.eraseIdx _).length = (table.header.eraseIdx _).length
    rw [List.length_eraseIdx_of_lt hat,
      List.length_eraseIdx_of_lt (hat.trans_eq (h.rows cells hcells).symm), h.rows cells hcells]

theorem insertTableColumn_eq (afterColumn : ℤ) :
    insertTableColumn model afterColumn = widened (normalizeTableModel model)
      (clampPosition (normalizeTableModel model).header.length (afterColumn + 1)) :=
  ((rectangle_normalizeTableModel model).widened (clampPosition_le _ _)).normalize_eq

theorem deleteTableColumn_eq (column : ℤ) (hmany : 1 < (normalizeTableModel model).header.length) :
    deleteTableColumn model column = narrowed (normalizeTableModel model)
      (clampPosition ((normalizeTableModel model).header.length - 1) column) := by
  unfold deleteTableColumn
  dsimp only
  rw [if_neg (by omega)]
  have hat := clampPosition_le ((normalizeTableModel model).header.length - 1) column
  exact ((rectangle_normalizeTableModel model).narrowed (by omega) hmany).normalize_eq

end Edits

end Piclaw.TableEditor
