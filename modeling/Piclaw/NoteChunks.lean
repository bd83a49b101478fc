import Piclaw.TextRuns
import Piclaw.Utf8Decoding
import Piclaw.Values

/-!
# The chunks of a note

`note-retrieval/chunker.ts`: a Markdown file is cut into lines, the lines into blocks, the blocks
into the sections of its headings, and a section that is too large into units. A text is the list of
its characters, of which the expressions of the source see no halves; a byte is a number below 256.
-/

namespace Piclaw.NoteChunks

open TextRuns Utf8Decoding

section Limits

abbrev Text := List Char

def maxFileBytes : ℕ := 512 * 1024
def maxChunkBytes : ℕ := 16 * 1024
def maxChunks : ℕ := 128

def chunkerVersion : String := "nr1-md-v1"

inductive NoteChunkerExclusionCode
  | invalidUtf8OrNul
  | fileTooLarge
  | lineOrFenceTooLarge
  | tooManyChunks
  deriving DecidableEq

/-- `TextDecoder` with `fatal`: no text where bytes form no character, since a replacement is not
encoded by what it replaces. -/
def decodeFatal (bytes : Bytes) : Option Text :=
  if encode (decode bytes) = bytes then some (decode bytes) else none

def byteLength (text : Text) : ℕ := (encode text).length

end Limits

section Lines

structure Line where
  lineNumber : ℕ
  firstByte : ℕ
  afterLastByte : ℕ
  rawText : Text
  contentText : Text
  deriving Inhabited

def lineAt (lines : List Line) (i : ℕ) : Line := lines.getD i default

/-- `rawText.replace(/\r?\n$/, "")`. -/
def withoutLineEnd (rawText : Text) : Text :=
  if rawText.getLast? = some '\n' then
    if rawText.dropLast.getLast? = some '\r' then rawText.dropLast.dropLast else rawText.dropLast
  else rawText

def lineOf (lineNumber byteOffset : ℕ) (rawText : Text) : Except NoteChunkerExclusionCode Line :=
  if maxChunkBytes < byteLength rawText then .error .lineOrFenceTooLarge
  else .ok
    { lineNumber
      firstByte := byteOffset
      afterLastByte := byteOffset + byteLength rawText
      rawText
      contentText := withoutLineEnd rawText }

/-- The lines behind `byteOffset`, of which `current` is already read. -/
def parseLinesFrom (lineNumber byteOffset : ℕ) (current : Text) :
    Text → Except NoteChunkerExclusionCode (List Line)
  | [] =>
    if current = [] then .ok []
    else (lineOf lineNumber byteOffset current).map fun line => [line]
  | c :: text =>
    if c = '\n' then do
      let line ← lineOf lineNumber byteOffset (current ++ [c])
      let lines ← parseLinesFrom (lineNumber + 1) line.afterLastByte [] text
      .ok (line :: lines)
    else parseLinesFrom lineNumber byteOffset (current ++ [c]) text

def parseLines (text : Text) : Except NoteChunkerExclusionCode (List Line) :=
  parseLinesFrom 1 0 [] text

/-- Without the byte order mark of the file. -/
def parsingText (line : Line) : Text :=
  if line.lineNumber = 1 ∧ line.contentText.head? = some (Char.ofNat 0xFEFF) then
    line.contentText.tail
  else line.contentText

def isSpaceOrTab (c : Char) : Bool := c = ' ' || c = '\t'

/-- What `.` does not match. -/
def isLineTerminator (c : Char) : Bool :=
  c = '\n' || c = '\r' || c = Char.ofNat 0x2028 || c = Char.ofNat 0x2029

/-- `^(?: {0,3})`, before a character that is no space. -/
def afterIndent (text : Text) : Option Text :=
  if (text.takeWhile (· = ' ')).length ≤ 3 then some (text.dropWhile (· = ' ')) else none

/-- `/^[ \t]*$/`. -/
def isBlank (line : Line) : Bool := (parsingText line).all isSpaceOrTab

/-- `text.replace(/[ \t]+#+[ \t]*$/, "")`. -/
def withoutClosingHashes (text : Text) : Text :=
  let front := text.rdropWhile isSpaceOrTab
  let before := front.rdropWhile (· = '#')
  if before.length < front.length ∧ before.getLast?.any isSpaceOrTab then
    before.rdropWhile isSpaceOrTab
  else text

structure Heading where
  level : ℕ
  text : Text
  deriving DecidableEq

/-- `/^(?: {0,3})(#{1,6})(?:[ \t]+|$)(.*)$/`. -/
def atxHeading (line : Line) : Option Heading := do
  let text ← afterIndent (parsingText line)
  let level := (text.takeWhile (· = '#')).length
  let rest := text.dropWhile (· = '#')
  let title := rest.dropWhile isSpaceOrTab
  if 1 ≤ level ∧ level ≤ 6 ∧ (rest = [] ∨ rest.head?.any isSpaceOrTab) ∧
      !title.any isLineTerminator then
    some ⟨level, stripEnds isTrimmed (withoutClosingHashes title)⟩
  else none

/-- The run of one of two markers behind the indentation, and what follows it. -/
def markerRunIn (first second : Char) (text : Text) : Option (Char × ℕ × Text) := do
  let text ← afterIndent text
  let marker ← text.head?
  if marker = first ∨ marker = second then
    some (marker, (text.takeWhile (· = marker)).length, text.dropWhile (· = marker))
  else none

def markerRun (first second : Char) (line : Line) : Option (Char × ℕ × Text) :=
  markerRunIn first second (parsingText line)

/-- `/^(?: {0,3})(=+|-+)[ \t]*$/`. -/
def setextLevelIn (text : Text) : Option ℕ := do
  let (marker, _, rest) ← markerRunIn '=' '-' text
  if rest.all isSpaceOrTab then some (if marker = '=' then 1 else 2) else none

def setextLevel (line : Line) : Option ℕ := setextLevelIn (parsingText line)

structure Fence where
  marker : Char
  length : ℕ
  deriving DecidableEq

/-- `/^(?: {0,3})(`{3,}|~{3,})(.*)$/`. -/
def fenceOpenIn (text : Text) : Option Fence := do
  let (marker, length, rest) ← markerRunIn (Char.ofNat 96) '~' text
  if 3 ≤ length ∧ !rest.any isLineTerminator then some ⟨marker, length⟩ else none

def fenceOpen (line : Line) : Option Fence := fenceOpenIn (parsingText line)

/-- `/^(?: {0,3})(`+|~+)[ \t]*$/`. -/
def isFenceCloseIn (text : Text) (fence : Fence) : Bool :=
  match markerRunIn (Char.ofNat 96) '~' text with
  | none => false
  | some (marker, length, rest) =>
    rest.all isSpaceOrTab && marker = fence.marker && fence.length ≤ length

def isFenceClose (line : Line) (fence : Fence) : Bool := isFenceCloseIn (parsingText line) fence

end Lines

section Blocks

inductive BlockType
  | heading (heading : Heading)
  | fence
  | text
  | blank
  deriving DecidableEq

structure Block where
  type : BlockType
  firstLine : ℕ
  lastLine : ℕ
  firstByte : ℕ
  afterLastByte : ℕ
  byteLength : ℕ

def blockOf (type : BlockType) (lines : List Line) (firstLine lastLine : ℕ) : Block where
  type
  firstLine
  lastLine
  firstByte := (lineAt lines firstLine).firstByte
  afterLastByte := (lineAt lines lastLine).afterLastByte
  byteLength := (lineAt lines lastLine).afterLastByte - (lineAt lines firstLine).firstByte

/-- How many lines a fence takes behind its first. -/
def fencedLines (fence : Fence) : List Line → ℕ
  | [] => 0
  | line :: rest => if isFenceClose line fence then 1 else fencedLines fence rest + 1

/-- How many lines a paragraph takes behind its first, and the level that the next one gives to the
last of them. -/
def paragraphLines : List Line → ℕ × Option ℕ
  | [] => (0, none)
  | line :: rest =>
    match setextLevel line with
    | some level => (0, some level)
    | none =>
      if isBlank line || (fenceOpen line).isSome || (atxHeading line).isSome then (0, none)
      else ((paragraphLines rest).1 + 1, (paragraphLines rest).2)

/-- The blocks from `index` on; each takes a line, so the number of lines is fuel enough. -/
def parseBlocksFrom (lines : List Line) :
    ℕ → ℕ → Except NoteChunkerExclusionCode (List Block)
  | 0, _ => .ok []
  | fuel + 1, index =>
    match lines.drop index with
    | [] => .ok []
    | line :: rest =>
      match fenceOpen line with
      | some fence =>
        let last := index + fencedLines fence rest
        let block := blockOf .fence lines index last
        if maxChunkBytes < block.byteLength then .error .lineOrFenceTooLarge
        else (parseBlocksFrom lines fuel (last + 1)).map (block :: ·)
      | none =>
        match atxHeading line with
        | some heading =>
          (parseBlocksFrom lines fuel (index + 1)).map
            (blockOf (.heading heading) lines index index :: ·)
        | none =>
          if isBlank line then
            let last := index + (rest.takeWhile isBlank).length
            (parseBlocksFrom lines fuel (last + 1)).map (blockOf .blank lines index last :: ·)
          else
            let last := index + (paragraphLines rest).1
            match (paragraphLines rest).2 with
            | none => (parseBlocksFrom lines fuel (last + 1)).map (blockOf .text lines index last :: ·)
            | some level =>
              let heading :=
                Heading.mk level (stripEnds isTrimmed (parsingText (lineAt lines last)))
              let text := if index < last then [blockOf .text lines index (last - 1)] else []
              (parseBlocksFrom lines fuel (last + 2)).map
                (text ++ blockOf (.heading heading) lines last (last + 1) :: ·)

def parseBlocks (lines : List Line) : Except NoteChunkerExclusionCode (List Block) :=
  parseBlocksFrom lines lines.length 0

def Block.heading? (block : Block) : Option Heading :=
  match block.type with
  | .heading heading => some heading
  | _ => none

structure Section where
  headingPath : List Text
  blocks : List Block

/-- The sections from `pending` on, below the headings of the stack. -/
def buildSectionsFrom (stack : List Heading) (pending : List Block) : List Block → List Section
  | [] => if pending = [] then [] else [⟨stack.map Heading.text, pending⟩]
  | block :: blocks =>
    match block.heading? with
    | none => buildSectionsFrom stack (pending ++ [block]) blocks
    | some heading =>
      (if pending = [] then [] else [⟨stack.map Heading.text, pending⟩]) ++
        buildSectionsFrom ((stack.filter fun h => h.level < heading.level) ++ [heading]) [block]
          blocks

def buildSections (blocks : List Block) : List Section := buildSectionsFrom [] [] blocks

structure Unit where
  rootType : BlockType
  firstLine : ℕ
  lastLine : ℕ
  firstByte : ℕ
  afterLastByte : ℕ
  byteLength : ℕ
  containsFence : Bool

def unitOf (first last : Block) : Unit where
  rootType := first.type
  firstLine := first.firstLine
  lastLine := last.lastLine
  firstByte := first.firstByte
  afterLastByte := last.afterLastByte
  byteLength := last.afterLastByte - first.firstByte
  containsFence := first.type = .fence || last.type = .fence

/-- A block takes the blank lines behind it along, where they fit. -/
def buildUnits : List Block → List Unit
  | [] => []
  | [first] => [unitOf first first]
  | first :: second :: blocks =>
    if first.type ≠ .blank ∧ second.type = .blank ∧
        second.afterLastByte - first.firstByte ≤ maxChunkBytes then
      unitOf first second :: buildUnits blocks
    else unitOf first first :: buildUnits (second :: blocks)

end Blocks

section Chunks

structure MarkdownChunk where
  chunkId : Text
  firstByte : ℕ
  afterLastByte : ℕ
  lineStart : ℕ
  lineEnd : ℕ
  headingPath : List Text
  kind : String
  text : Text

structure ChunkMarkdownResult where
  sourceRevision : Text
  chunks : List MarkdownChunk

/-- The hash of bytes, and the id that a revision gives to a range of bytes. -/
structure Hashes where
  sha256 : Bytes → Text
  chunkIdOf : Text → ℕ → ℕ → Text

variable (hashes : Hashes) (sourceRevision : Text) (lines : List Line)

def chunkOf (kind : String) (firstLine lastLine : ℕ) (headingPath : List Text) : MarkdownChunk where
  chunkId := hashes.chunkIdOf sourceRevision (lineAt lines firstLine).firstByte
    (lineAt lines lastLine).afterLastByte
  firstByte := (lineAt lines firstLine).firstByte
  afterLastByte := (lineAt lines lastLine).afterLastByte
  lineStart := (lineAt lines firstLine).lineNumber
  lineEnd := (lineAt lines lastLine).lineNumber
  headingPath
  kind
  text := ((lines.drop firstLine).take (lastLine + 1 - firstLine)).flatMap Line.rawText

def pushChunk (kind : String) (firstLine lastLine : ℕ) (headingPath : List Text)
    (chunks : List MarkdownChunk) : Except NoteChunkerExclusionCode (List MarkdownChunk) :=
  if maxChunks < chunks.length + 1 then .error .tooManyChunks
  else .ok (chunks ++ [chunkOf hashes sourceRevision lines kind firstLine lastLine headingPath])

/-- The last of at most `room` more lines that fit into a chunk from `first` on. -/
def lastFitting (first : ℕ) : ℕ → ℕ → ℕ
  | 0, last => last
  | room + 1, last =>
    if (lineAt lines (last + 1)).afterLastByte - (lineAt lines first).firstByte ≤ maxChunkBytes then
      lastFitting first room (last + 1)
    else last

/-- The lines from `first` on; each chunk takes a line, so their number is fuel enough. -/
def splitLinesFrom (headingPath : List Text) (lastLine : ℕ) :
    ℕ → ℕ → List MarkdownChunk → Except NoteChunkerExclusionCode (List MarkdownChunk)
  | 0, _, chunks => .ok chunks
  | fuel + 1, first, chunks =>
    if first ≤ lastLine then do
      let last := lastFitting lines first (lastLine - first) first
      let chunks ← pushChunk hashes sourceRevision lines "lines" first last headingPath chunks
      splitLinesFrom headingPath lastLine fuel (last + 1) chunks
    else .ok chunks

def splitUnitIntoLineChunks (unit : Unit) (headingPath : List Text) (chunks : List MarkdownChunk) :
    Except NoteChunkerExclusionCode (List MarkdownChunk) :=
  if unit.containsFence then .error .lineOrFenceTooLarge
  else splitLinesFrom hashes sourceRevision lines headingPath unit.lastLine
    (unit.lastLine + 1 - unit.firstLine) unit.firstLine chunks

def kindOf (units : List Unit) : String :=
  if units.length = 1 ∧ units.any fun unit => unit.rootType = .fence then "fence"
  else if units.all fun unit => unit.rootType = .blank then "lines"
  else "paragraph"

def emitUnits (units : List Unit) (headingPath : List Text) (chunks : List MarkdownChunk) :
    Except NoteChunkerExclusionCode (List MarkdownChunk) :=
  match units.head?, units.getLast? with
  | some first, some last =>
    pushChunk hashes sourceRevision lines (kindOf units) first.firstLine last.lastLine headingPath
      chunks
  | _, _ => .ok chunks

def unitChunks (headingPath : List Text) (pending : List Unit) (pendingBytes : ℕ) :
    List Unit → List MarkdownChunk → Except NoteChunkerExclusionCode (List MarkdownChunk)
  | [], chunks => emitUnits hashes sourceRevision lines pending headingPath chunks
  | unit :: units, chunks =>
    if maxChunkBytes < unit.byteLength then do
      let chunks ← emitUnits hashes sourceRevision lines pending headingPath chunks
      let chunks ← splitUnitIntoLineChunks hashes sourceRevision lines unit headingPath chunks
      unitChunks headingPath [] 0 units chunks
    else if pendingBytes ≠ 0 ∧ maxChunkBytes < pendingBytes + unit.byteLength then do
      let chunks ← emitUnits hashes sourceRevision lines pending headingPath chunks
      unitChunks headingPath [unit] unit.byteLength units chunks
    else unitChunks headingPath (pending ++ [unit]) (pendingBytes + unit.byteLength) units chunks

def sectionChunks (part : Section) (chunks : List MarkdownChunk) :
    Except NoteChunkerExclusionCode (List MarkdownChunk) :=
  match part.blocks.head?, part.blocks.getLast? with
  | some first, some last =>
    if last.afterLastByte - first.firstByte ≤ maxChunkBytes then
      pushChunk hashes sourceRevision lines "section" first.firstLine last.lastLine part.headingPath
        chunks
    else unitChunks hashes sourceRevision lines part.headingPath [] 0 (buildUnits part.blocks) chunks
  | _, _ => .ok chunks

def allChunks : List Section → List MarkdownChunk →
    Except NoteChunkerExclusionCode (List MarkdownChunk)
  | [], chunks => .ok chunks
  | part :: parts, chunks => do
    let chunks ← sectionChunks hashes sourceRevision lines part chunks
    allChunks parts chunks

def chunkMarkdown (hashes : Hashes) (bytes : Bytes) :
    Except NoteChunkerExclusionCode ChunkMarkdownResult :=
  if maxFileBytes < bytes.length then .error .fileTooLarge
  else if 0 ∈ bytes then .error .invalidUtf8OrNul
  else
    match decodeFatal bytes with
    | none => .error .invalidUtf8OrNul
    | some text => do
      let sourceRevision := hashes.sha256 bytes
      if text = [] then .ok ⟨sourceRevision, []⟩
      else
        let lines ← parseLines text
        let blocks ← parseBlocks lines
        let chunks ← allChunks hashes sourceRevision lines (buildSections blocks) []
        .ok ⟨sourceRevision, chunks⟩

end Chunks

end Piclaw.NoteChunks
