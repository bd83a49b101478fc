import Piclaw.TextRuns
import Piclaw.Values

/-!
# The table editor's model and its Markdown

`table-editor.ts`: a table is edited as a model of header, alignments and rows, and every edit
writes the whole table back as Markdown lines, which are read again when the document is drawn.
A pipe of a cell is written with a backslash before it; a backslash of a cell is written as it is.
-/

namespace Piclaw.TableEditor

open TextRuns

abbrev Text := List Char

section Model

inductive TableAlign
  | left
  | center
  | right
  deriving DecidableEq, Repr

structure EditableTableModel where
  header : List Text
  alignments : List TableAlign
  rows : List (List Text)
  deriving DecidableEq, Repr

def trim (value : Text) : Text := stripEnds isTrimmed value

def stripOuterPipes (line : Text) : Text :=
  let value := trim line
  let value := if value.head? = some '|' then value.tail else value
  if value.getLast? = some '|' then value.dropLast else value

/-- The loop of `splitMarkdownTableRow`, with what it has collected of the current cell. -/
def splitCells (buffer : Text) : Text → List Text
  | [] => [trim buffer]
  | '\\' :: next :: rest =>
    splitCells (buffer ++ if next = '|' then ['|'] else ['\\', next]) rest
  | '|' :: rest => trim buffer :: splitCells [] rest
  | char :: rest => splitCells (buffer ++ [char]) rest

def splitMarkdownTableRow (line : Text) : List Text := splitCells [] (stripOuterPipes line)

def parseTableAlignments (line : Text) : List TableAlign :=
  (splitMarkdownTableRow line).map fun cell =>
    let value := trim cell
    let starts := value.head? = some ':'
    let ends := value.getLast? = some ':'
    if starts ∧ ends then .center else if ends then .right else .left

def delimiterForAlignment : TableAlign → Text
  | .center => ":---:".toList
  | .right => "---:".toList
  | .left => "---".toList

/-- `value.replace(/\r?\n/g, ' ')`. -/
def replaceBreaks : Text → Text
  | '\r' :: '\n' :: rest => ' ' :: replaceBreaks rest
  | '\n' :: rest => ' ' :: replaceBreaks rest
  | char :: rest => char :: replaceBreaks rest
  | [] => []

def escapePipe (char : Char) : Text := if char = '|' then ['\\', '|'] else [char]

def escapeMarkdownTableCell (value : Text) : Text :=
  trim ((replaceBreaks value).flatMap escapePipe)

def normalizeRow {α : Type} (fill : α) (row : List α) (width : ℕ) : List α :=
  row.take width ++ List.replicate (width - row.length) fill

def columnName (index : ℕ) : Text := "Column ".toList ++ Nat.toDigits 10 (index + 1)

def tableWidth (model : EditableTableModel) : ℕ :=
  (model.rows.map List.length).foldl max (max 1 model.header.length)

def normalizeTableModel (model : EditableTableModel) : EditableTableModel :=
  let width := tableWidth model
  { header := (normalizeRow [] model.header width).mapIdx fun index cell =>
      if cell = [] then columnName index else cell
    alignments := normalizeRow .left model.alignments width
    rows := model.rows.map (normalizeRow [] · width) }

def parseMarkdownTableLines (lines : List Text) : Option EditableTableModel :=
  match lines with
  | header :: delimiters :: body =>
    let header := splitMarkdownTableRow header
    let alignments := parseTableAlignments delimiters
    if header.length = 0 ∨ alignments.length = 0 then none
    else
      let rows := (body.filter fun line => trim line ≠ []).map splitMarkdownTableRow
      some (normalizeTableModel { header, alignments, rows })
  | _ => none

/-- `cells.join(' | ')`. -/
def joinCells (cells : List Text) : Text := [' ', '|', ' '].intercalate cells

def tableLine (cells : List Text) : Text := '|' :: ' ' :: (joinCells cells ++ [' ', '|'])

def serializedLines (model : EditableTableModel) : List Text :=
  let normalized := normalizeTableModel model
  tableLine (normalized.header.map escapeMarkdownTableCell) ::
    tableLine (normalized.alignments.map delimiterForAlignment) ::
    normalized.rows.map fun row => tableLine (row.map escapeMarkdownTableCell)

def serializeMarkdownTable (model : EditableTableModel) : Text :=
  ['\n'].intercalate (serializedLines model)

/-- The document's lines that the serialised table stands on. -/
def documentLines (text : Text) : List Text := text.splitOn '\n'

end Model

section Edits

/-- `Math.max(0, Math.min(length, position))`. -/
def clampPosition (length : ℕ) (position : ℤ) : ℕ := (max 0 (min (length : ℤ) position)).toNat

/-- `items.filter((_, index) => index !== position)`. -/
def withoutPosition {α : Type} (items : List α) (position : ℤ) : List α :=
  if 0 ≤ position then items.eraseIdx position.toNat else items

def insertTableRow (model : EditableTableModel) (afterBodyRow : ℤ) : EditableTableModel :=
  let normalized := normalizeTableModel model
  let insertAt := clampPosition normalized.rows.length (afterBodyRow + 1)
  { normalized with
    rows := normalized.rows.insertIdx insertAt (List.replicate normalized.header.length []) }

def deleteTableRow (model : EditableTableModel) (bodyRow : ℤ) : EditableTableModel :=
  let normalized := normalizeTableModel model
  if normalized.rows.length ≤ 1 then normalized
  else { normalized with rows := withoutPosition normalized.rows bodyRow }

def insertTableColumn (model : EditableTableModel) (afterColumn : ℤ) : EditableTableModel :=
  let normalized := normalizeTableModel model
  let insertAt := clampPosition normalized.header.length (afterColumn + 1)
  normalizeTableModel
    { header := normalized.header.insertIdx insertAt (columnName insertAt)
      alignments := normalized.alignments.insertIdx insertAt .left
      rows := normalized.rows.map (·.insertIdx insertAt []) }

def deleteTableColumn (model : EditableTableModel) (column : ℤ) : EditableTableModel :=
  let normalized := normalizeTableModel model
  if normalized.header.length ≤ 1 then normalized
  else
    let removeAt := clampPosition (normalized.header.length - 1) column
    normalizeTableModel
      { header := normalized.header.eraseIdx removeAt
        alignments := normalized.alignments.eraseIdx removeAt
        rows := normalized.rows.map (·.eraseIdx removeAt) }

def setTableColumnAlignment (model : EditableTableModel) (column : ℤ) (alignment : TableAlign) :
    EditableTableModel :=
  let normalized := normalizeTableModel model
  let target := clampPosition (normalized.header.length - 1) column
  { normalized with alignments := normalized.alignments.set target alignment }

/-- `readModelFromTable` after the text of one cell of the drawn table has been changed; row 0 is
the header. -/
def setTableCell (model : EditableTableModel) (row column : ℕ) (text : Text) :
    EditableTableModel :=
  let normalized := normalizeTableModel model
  normalizeTableModel <| match row with
    | 0 => { normalized with header := normalized.header.set column text }
    | bodyRow + 1 =>
      { normalized with rows := normalized.rows.modify bodyRow (·.set column text) }

end Edits

end Piclaw.TableEditor
