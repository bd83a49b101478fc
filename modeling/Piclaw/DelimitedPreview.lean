import Piclaw.CanonicalText
import Piclaw.TextRuns
import Piclaw.Values

/-!
# Delimited previews

The reader of delimited text behind the attachment preview, and the encoding it is to read. A text
is the list of its UTF-16 units.
-/

namespace Piclaw.DelimitedPreview

open CanonicalText TextRuns

inductive DelimitedPreviewDelimiter
  | comma
  | tab
  | semicolon
  | bar
deriving DecidableEq

def DelimitedPreviewDelimiter.unit : DelimitedPreviewDelimiter → ℕ
  | .comma => 44
  | .tab => 9
  | .semicolon => 59
  | .bar => 124

abbrev Row := List Units

structure DelimitedPreviewOptions where
  maxRows : Option ℕ
  maxColumns : Option ℕ

structure DelimitedPreviewResult where
  delimiter : DelimitedPreviewDelimiter
  headers : Row
  rows : List Row
  columnCount : ℕ
  rowCount : ℕ
  truncatedRows : Bool
  truncatedColumns : Bool
deriving DecidableEq

/-- The variables of the loop of `parseRows`. -/
structure Reader where
  rows : List Row
  row : Row
  field : Units
  quoted : Bool

def pushField (s : Reader) : Reader := { s with row := s.row ++ [s.field], field := [] }

def pushRow (s : Reader) : Reader :=
  let s := pushField s
  let isTrailingEmptyRow := decide (s.row = [[]]) && !s.rows.isEmpty
  { s with rows := if isTrailingEmptyRow then s.rows else s.rows ++ [s.row], row := [] }

/-- The loop, with the unit at hand and the rest of the text. After `skip` the next unit has been
read already. The result says whether the loop was left because of the row limit. -/
def readUnits (delimiter rowLimit : ℕ) : Bool → Reader → Units → Reader × Bool
  | _, s, [] => (s, false)
  | true, s, _ :: rest => readUnits delimiter rowLimit false s rest
  | false, s, ch :: rest =>
    if ch = 34 then
      if s.quoted && rest.head? = some 34 then
        readUnits delimiter rowLimit true { s with field := s.field ++ [34] } rest
      else readUnits delimiter rowLimit false { s with quoted := !s.quoted } rest
    else if !s.quoted && ch = delimiter then readUnits delimiter rowLimit false (pushField s) rest
    else if !s.quoted && (ch = 10 || ch = 13) then
      let s := pushRow s
      if rowLimit ≤ s.rows.length then (s, true)
      else readUnits delimiter rowLimit (decide (ch = 13 ∧ rest.head? = some 10)) s rest
    else readUnits delimiter rowLimit false { s with field := s.field ++ [ch] } rest

def parseRows (text : Units) (delimiter rowLimit : ℕ) : List Row × Bool :=
  let (s, truncatedRows) := readUnits delimiter rowLimit false ⟨[], [], [], false⟩ text
  if !truncatedRows && (decide (0 < s.field.length) || decide (0 < s.row.length)) then
    let s := pushRow s
    (s.rows, decide (rowLimit ≤ s.rows.length))
  else (s.rows, truncatedRows)

def normalizeRowsToWidth (rows : List Row) (width : ℕ) : List Row :=
  rows.map (fun row => row.take width ++ List.replicate (width - row.length) [])

def isSpaceUnit (u : ℕ) : Bool := isTrimmed (Char.ofNat u)

def trim (text : Units) : Units := stripEnds isSpaceUnit text

def columnName (index : ℕ) : Units := units "Column " ++ natText (index + 1)

/-- The visible rows as they are laid out. -/
@[ext]
structure Layout where
  columnCount : ℕ
  truncatedColumns : Bool
  normalized : List Row
deriving DecidableEq

def layout (visibleRows : List Row) (maxColumns : ℕ) : Layout :=
  let naturalColumnCount := visibleRows.foldl (fun count row => max count row.length) 0
  let columnCount := min (max 1 naturalColumnCount) maxColumns
  ⟨columnCount, decide (maxColumns < naturalColumnCount),
    normalizeRowsToWidth visibleRows columnCount⟩

/-- The result for rows that are laid out. -/
def present (delimiter : DelimitedPreviewDelimiter) (l : Layout) (truncatedRows : Bool) :
    DelimitedPreviewResult :=
  let firstRow := l.normalized.headD []
  let dataRows := l.normalized.tail
  let hasHeader := firstRow.any (fun cell => decide (0 < (trim cell).length)) &&
    decide (0 < dataRows.length)
  let headers :=
    if hasHeader then
      firstRow.mapIdx (fun index cell => if trim cell ≠ [] then trim cell else columnName index)
    else (List.range l.columnCount).map columnName
  let rows := if hasHeader then dataRows else l.normalized
  ⟨delimiter, headers, rows, l.columnCount, rows.length, truncatedRows, l.truncatedColumns⟩

def rowLimitOf (options : DelimitedPreviewOptions) : ℕ := max 1 (options.maxRows.getD 500)

def columnLimitOf (options : DelimitedPreviewOptions) : ℕ := max 1 (options.maxColumns.getD 80)

/-- `parseDelimitedPreview` with the delimiter given in the options. -/
def parseDelimitedPreview (text : Units) (delimiter : DelimitedPreviewDelimiter)
    (options : DelimitedPreviewOptions) : DelimitedPreviewResult :=
  let maxRows := rowLimitOf options
  let parsed := parseRows text delimiter.unit (maxRows + 1)
  let visibleRows := parsed.1.take maxRows
  present delimiter (layout visibleRows (columnLimitOf options))
    (parsed.2 || decide (maxRows < parsed.1.length))

section Encoding

inductive LineEnd
  | crlf
  | lf
deriving DecidableEq

def LineEnd.units : LineEnd → Units
  | .crlf => [13, 10]
  | .lf => [10]

def needsQuotes (delimiter : ℕ) (field : Units) : Bool :=
  field.any (fun u => u = delimiter || u = 34 || u = 13 || u = 10)

def encodeField (delimiter : ℕ) (field : Units) : Units :=
  if needsQuotes delimiter field then
    34 :: (field.flatMap (fun u => if u = 34 then [34, 34] else [u]) ++ [34])
  else field

def encodeRow (delimiter : ℕ) (row : Row) : Units :=
  List.intercalate [delimiter] (row.map (encodeField delimiter))

/-- A table as it is written: rows with their line ends, and possibly a last row without one. -/
structure Table where
  lines : List (Row × LineEnd)
  unterminated : Option Row

def Table.rows (t : Table) : List Row := t.lines.map Prod.fst ++ t.unterminated.toList

def encode (delimiter : ℕ) (t : Table) : Units :=
  t.lines.flatMap (fun line => encodeRow delimiter line.1 ++ line.2.units) ++
    (t.unterminated.map (encodeRow delimiter)).getD []

/-- What the preview of a table is to show: the leading rows and columns, and what was cut. -/
def previewOf (delimiter : DelimitedPreviewDelimiter) (rows : List Row)
    (options : DelimitedPreviewOptions) : DelimitedPreviewResult :=
  present delimiter (layout (rows.take (rowLimitOf options)) (columnLimitOf options))
    (decide (rowLimitOf options < rows.length))

end Encoding

end Piclaw.DelimitedPreview
