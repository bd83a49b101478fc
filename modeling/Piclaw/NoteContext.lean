import Piclaw.NoteChunks
import Piclaw.Tilings
import Piclaw.Utf16

/-!
# The context of retrieved notes

`note-retrieval/context.ts`: the matched lines of a note are widened to the paragraphs around them,
without clipping a fence, and passages that meet become one. The hash and the id of a chunk are
parameters; what the source caches for each path is computed again for each match.
-/

namespace Piclaw.NoteContext

open CanonicalText NoteChunks TextRuns Utf8Decoding Utf16

section Inputs

abbrev Text := List Char

def candidateLimit : ℕ := 50
def fileLimit : ℕ := 16
def fileBytesLimit : ℕ := 512 * 1024
def sourceBytesLimit : ℕ := 8 * 1024 * 1024
def linesPerSource : ℕ := 8192
def totalLines : ℕ := 32768
def passageBytes : ℕ := 1024
def resultLimit : ℕ := 5
def responseBytes : ℕ := 4096

structure NoteContextSource where
  path : Units
  bytes : Bytes

structure NoteContextMatch where
  path : Units
  chunkId : Units
  sourceRevision : Units
  chunkerVersion : Units
  firstByte : ℕ
  afterLastByte : ℕ
  lineStart : ℕ
  lineEnd : ℕ
  matchLineStart : ℕ
  matchLineEnd : ℕ

structure NoteContextReference where
  chunkId : Units
  sourceRevision : Units
  firstByte : ℕ
  afterLastByte : ℕ
  lineStart : ℕ
  lineEnd : ℕ
  deriving DecidableEq

structure NoteContextPassage where
  path : Units
  sourceRevision : Units
  firstByte : ℕ
  afterLastByte : ℕ
  lineStart : ℕ
  lineEnd : ℕ
  text : Text
  references : List NoteContextReference

inductive Reason
  | sourceMissing
  | sourceRevisionChanged
  | contextLimit
  | resultLimit
  | responseLimit
  deriving DecidableEq

inductive Status
  | assembled
  | invalidReference
  | inputLimit
  deriving DecidableEq

structure NoteContextResult where
  status : Status
  limited : Bool
  reasons : List Reason
  passages : List NoteContextPassage

def empty (status : Status) : NoteContextResult := ⟨status, status ≠ .assembled, [], []⟩

/-- The hash of bytes, and the id of a range of bytes of a revision in a namespace. -/
structure Hashes where
  sha256 : Bytes → Units
  chunkIdOf : Units → Units → Units → ℕ → ℕ → Units

def maxSafeInteger : ℕ := 2 ^ 53 - 1

/-- The parts of a text between slashes. -/
def pathParts (path : Units) : List Units := path.splitOn 47

def admittedNotePath (path : Units) : Bool :=
  let parts := pathParts path
  !path.contains 92 && !path.contains 0 && parts.head? = some (units "notes") &&
    decide (1 < parts.length) &&
    !(parts.tail.head?.any fun part => part = units "users" || part = units "family") &&
    (parts.all fun part => part ≠ [] && part.head? ≠ some 46 && part ≠ units "node_modules" &&
      part ≠ units "generated") &&
    (units ".md").isSuffixOf path

def isHexText (text : Units) : Bool :=
  decide (text.length = 64) && text.all fun u => (48 ≤ u && u ≤ 57) || (97 ≤ u && u ≤ 102)

def validShape (hashes : Hashes) (noteSpace : Units) (candidate : NoteContextMatch) : Bool :=
  admittedNotePath candidate.path && candidate.chunkerVersion = units chunkerVersion &&
    isHexText candidate.sourceRevision && (units "nr1:").isPrefixOf candidate.chunkId &&
    isHexText (candidate.chunkId.drop 4) &&
    ([candidate.firstByte, candidate.afterLastByte, candidate.lineStart, candidate.lineEnd,
      candidate.matchLineStart, candidate.matchLineEnd].all fun n => decide (n ≤ maxSafeInteger)) &&
    decide (candidate.firstByte < candidate.afterLastByte) &&
    decide (candidate.afterLastByte - candidate.firstByte ≤ 16 * 1024) &&
    decide (1 ≤ candidate.lineStart) && decide (candidate.lineStart ≤ candidate.matchLineStart) &&
    decide (candidate.matchLineStart ≤ candidate.matchLineEnd) &&
    decide (candidate.matchLineEnd ≤ candidate.lineEnd) &&
    decide (candidate.chunkId = hashes.chunkIdOf noteSpace candidate.path candidate.sourceRevision
      candidate.firstByte candidate.afterLastByte)

def countLines (bytes : Bytes) : ℕ :=
  (if bytes ≠ [] ∧ bytes.getLast? ≠ some 10 then 1 else 0) + bytes.count 10

end Inputs

section Sources

/-- A line, its bytes up to `stop`, and its text without the end of the line. -/
structure SourceLine where
  first : ℕ
  stop : ℕ
  text : Text
  deriving Inhabited

inductive BlockKind
  | blank
  | heading
  | paragraph
  | fence
  deriving DecidableEq, Inhabited

structure SourceBlock where
  first : ℕ
  last : ℕ
  kind : BlockKind
  deriving DecidableEq, Inhabited

structure SourceState where
  bytes : Bytes
  lines : List SourceLine
  blocks : List SourceBlock

/-- The lines behind `start`, of which `current` is already read. -/
def cutLines (start : ℕ) (current : Bytes) : Bytes → List SourceLine
  | [] => if current = [] then [] else [⟨start, start + current.length, decode current⟩]
  | b :: bytes =>
    if b = 10 then
      ⟨start, start + (current ++ [b]).length, withoutLineEnd (decode (current ++ [b]))⟩ ::
        cutLines (start + (current ++ [b]).length) [] bytes
    else cutLines start (current ++ [b]) bytes

def isTick (c : Char) : Bool := c = Char.ofNat 96 || c = '~'

/-- Three ticks are at the front. -/
def startsTicks (text : Text) : Bool := 3 ≤ (text.takeWhile isTick).length

def isDigitChar (c : Char) : Bool := '0' ≤ c && c ≤ '9'

/-- What follows `[ \t]*(?:[-+*]|\d+[.)])[ \t]+`. -/
def afterListMarker (text : Text) : Option Text :=
  let front := text.dropWhile isSpaceOrTab
  let rest :=
    match front with
    | [] => none
    | c :: rest =>
      if c = '-' || c = '+' || c = '*' then some rest
      else if isDigitChar c then
        match front.dropWhile isDigitChar with
        | [] => none
        | d :: rest => if d = '.' || d = ')' then some rest else none
      else none
  rest.bind fun rest =>
    if rest.head?.any isSpaceOrTab then some (rest.dropWhile isSpaceOrTab) else none

/-- Three ticks follow somewhere in a quoted line, before a line terminator. -/
def quotedTicks (text : Text) : Bool :=
  match text.dropWhile isSpaceOrTab with
  | [] => false
  | c :: rest => c = '>' && rest.tails.any fun suffix =>
      startsTicks suffix && !(rest.take (rest.length - suffix.length)).any isLineTerminator

/-- A fence of backticks with a backtick in its information. -/
def ambiguousFence (text : Text) : Bool :=
  match markerRunIn (Char.ofNat 96) (Char.ofNat 96) text with
  | none => false
  | some (_, length, rest) =>
    decide (3 ≤ length) && !rest.any isLineTerminator && rest.contains (Char.ofNat 96)

def unsupportedLine (hasList : Bool) (text : Text) : Bool :=
  quotedTicks text ||
    (decide (4 ≤ (text.takeWhile isSpaceOrTab).length) &&
      startsTicks (text.dropWhile isSpaceOrTab)) ||
    (decide (text.head? = some '\t') && startsTicks text.tail) ||
    (afterListMarker text).any startsTicks ||
    (hasList && text.head?.any isSpaceOrTab && startsTicks (text.dropWhile isSpaceOrTab)) ||
    ambiguousFence text

/-- `UnsupportedContextFence`. -/
def unsupported (lines : List SourceLine) : Bool :=
  lines.any fun line =>
    unsupportedLine (lines.any fun line => (afterListMarker line.text).isSome) line.text

/-- The texts of the lines, the first without the byte order mark. -/
def plainTexts : List SourceLine → List Text
  | [] => []
  | line :: lines =>
    (if line.text.head? = some (Char.ofNat 0xFEFF) then line.text.tail else line.text) ::
      lines.map SourceLine.text

/-- `!plain(i).trim()`. -/
def isBlankText (text : Text) : Bool := stripEnds isTrimmed text = []

/-- `/^ {0,3}#{1,6}(?:[ \t]|$)/`. -/
def headingIn (text : Text) : Bool :=
  match afterIndent text with
  | none => false
  | some text =>
    let level := (text.takeWhile (· = '#')).length
    let rest := text.dropWhile (· = '#')
    decide (1 ≤ level) && decide (level ≤ 6) && (decide (rest = []) || rest.head?.any isSpaceOrTab)

def fencedTexts (fence : Fence) : List Text → ℕ
  | [] => 0
  | text :: rest => if isFenceCloseIn text fence then 1 else fencedTexts fence rest + 1

def underlined (rest : List Text) : Bool := rest.head?.any fun text => (setextLevelIn text).isSome

def paragraphTexts : List Text → ℕ
  | [] => 0
  | text :: rest =>
    if isBlankText text || headingIn text || (fenceOpenIn text).isSome || underlined rest then 0
    else paragraphTexts rest + 1

/-- The block at the front of the texts, which begins with line `index`. -/
def blockAt (index : ℕ) (text : Text) (rest : List Text) : SourceBlock :=
  match fenceOpenIn text with
  | some fence => ⟨index, index + fencedTexts fence rest, .fence⟩
  | none =>
    if isBlankText text then ⟨index, index + (rest.takeWhile isBlankText).length, .blank⟩
    else if headingIn text then ⟨index, index, .heading⟩
    else if underlined rest then ⟨index, index + 1, .heading⟩
    else ⟨index, index + paragraphTexts rest, .paragraph⟩

/-- The blocks from `index` on; each takes a line, so the number of lines is fuel enough. -/
def sourceBlocks (texts : List Text) : ℕ → ℕ → List SourceBlock
  | 0, _ => []
  | fuel + 1, index =>
    match texts.drop index with
    | [] => []
    | text :: rest =>
      blockAt index text rest :: sourceBlocks texts fuel ((blockAt index text rest).last + 1)

inductive ReadSource
  | invalid
  | unsupported
  | source (state : SourceState)

def readSource (bytes : Bytes) : ReadSource :=
  if 0 ∈ bytes then .invalid
  else if decodeFatal bytes = none then .invalid
  else
    let lines := cutLines 0 [] bytes
    if unsupported lines then .unsupported
    else
      let texts := plainTexts lines
      .source ⟨bytes, lines, sourceBlocks texts texts.length 0⟩

def SourceState.lineAt (source : SourceState) (i : ℕ) : SourceLine := source.lines.getD i default

end Sources

section Selecting

variable (source : SourceState)

def fitting (low high a b : ℕ) : Bool :=
  decide (low ≤ a) && decide (b ≤ high) &&
    decide ((source.lineAt b).stop - (source.lineAt a).first ≤ passageBytes)

def blockIndex (line : ℕ) : ℕ :=
  source.blocks.findIdx fun block => decide (block.first ≤ line) && decide (line ≤ block.last)

def startLine (block : SourceBlock) (line : ℕ) : ℕ := if block.kind = .fence then block.first else line
def endLine (block : SourceBlock) (line : ℕ) : ℕ := if block.kind = .fence then block.last else line

/-- The block before or after one, past blank lines. -/
def nearest (blocks : List SourceBlock) : Option SourceBlock :=
  blocks.find? fun block => block.kind ≠ .blank

def widenStart (low high first last : ℕ) : Option SourceBlock → ℕ
  | none => first
  | some before =>
    if low ≤ before.last ∧ fitting source low high (max low before.first) last then
      max low before.first
    else first

/-- A result is not widened past a new heading. -/
def widenEnd (low high first last : ℕ) : Option SourceBlock → ℕ
  | none => last
  | some after =>
    if after.kind ≠ .heading ∧ after.first ≤ high ∧
        fitting source low high first (min high after.last) then
      min high after.last
    else last

def selectContext (candidate : NoteContextMatch) : Option (ℕ × ℕ) :=
  let low := candidate.lineStart - 1
  let high := candidate.lineEnd - 1
  let startIndex := blockIndex source (candidate.matchLineStart - 1)
  let endIndex := blockIndex source (candidate.matchLineEnd - 1)
  let startBlock := source.blocks.getD startIndex default
  let endBlock := source.blocks.getD endIndex default
  let first := startLine startBlock (candidate.matchLineStart - 1)
  let last := endLine endBlock (candidate.matchLineEnd - 1)
  if !fitting source low high first last then none
  else
    let paragraphFirst := max low startBlock.first
    let paragraphLast := min high endBlock.last
    let whole := fitting source low high paragraphFirst paragraphLast
    let first := if whole then paragraphFirst else first
    let last := if whole then paragraphLast else last
    let first := widenStart source low high first last
      (nearest (source.blocks.take startIndex).reverse)
    let last := widenEnd source low high first last (nearest (source.blocks.drop (endIndex + 1)))
    some (first, last)

end Selecting

section Encoding

def reasonText : Reason → Units
  | .sourceMissing => units "source_missing"
  | .sourceRevisionChanged => units "source_revision_changed"
  | .contextLimit => units "context_limit"
  | .resultLimit => units "result_limit"
  | .responseLimit => units "response_limit"

def allReasons : List Reason :=
  [.sourceMissing, .sourceRevisionChanged, .contextLimit, .resultLimit, .responseLimit]

def statusText : Status → Units
  | .assembled => units "assembled"
  | .invalidReference => units "invalid_reference"
  | .inputLimit => units "input_limit"

def field (name : String) (value : Units) : Units := quote (units name) ++ 58 :: value

def encodedReference (reference : NoteContextReference) : Units :=
  enclosed 123 125 [field "chunk_id" (quote reference.chunkId),
    field "source_revision" (quote reference.sourceRevision),
    field "first_byte" (natText reference.firstByte),
    field "after_last_byte" (natText reference.afterLastByte),
    field "line_start" (natText reference.lineStart), field "line_end" (natText reference.lineEnd)]

def encodedPassage (passage : NoteContextPassage) : Units :=
  enclosed 123 125 [field "path" (quote passage.path),
    field "source_revision" (quote passage.sourceRevision),
    field "first_byte" (natText passage.firstByte),
    field "after_last_byte" (natText passage.afterLastByte),
    field "line_start" (natText passage.lineStart), field "line_end" (natText passage.lineEnd),
    field "text" (quote (utf16 passage.text)),
    field "references" (enclosed 91 93 (passage.references.map encodedReference))]

/-- `JSON.stringify` of a result. -/
def encodedResult (result : NoteContextResult) : Units :=
  enclosed 123 125 [field "status" (quote (statusText result.status)),
    field "limited" (units (if result.limited then "true" else "false")),
    field "reasons" (enclosed 91 93 (result.reasons.map fun reason => quote (reasonText reason))),
    field "passages" (enclosed 91 93 (result.passages.map encodedPassage))]

def encodedBytes (result : NoteContextResult) : ℕ := Utf16.byteLength (encodedResult result)

def fitsResponse (passages : List NoteContextPassage) : Bool :=
  encodedBytes ⟨.assembled, true, allReasons, passages⟩ ≤ responseBytes

end Encoding

section Assembling

variable (hashes : Hashes)

def referenceOf (candidate : NoteContextMatch) : NoteContextReference :=
  ⟨candidate.chunkId, candidate.sourceRevision, candidate.firstByte, candidate.afterLastByte,
    candidate.lineStart, candidate.lineEnd⟩

/-- The first reference of each chunk. -/
def distinctReferences (references : List NoteContextReference) : List NoteContextReference :=
  references.foldl (fun kept reference =>
    if kept.any fun other => other.chunkId = reference.chunkId then kept else kept ++ [reference]) []

/-- A passage meets the lines of a selection, which are counted from nought. -/
def overlapping (candidate : NoteContextMatch) (first last : ℕ) (passage : NoteContextPassage) :
    Bool :=
  decide (passage.path = candidate.path) &&
    decide (passage.sourceRevision = candidate.sourceRevision) &&
    decide (passage.lineStart ≤ last + 1) && decide (first + 1 ≤ passage.lineEnd)

/-- The selection with the passages it meets. -/
def mergedPassage (source : SourceState) (candidate : NoteContextMatch) (first last : ℕ)
    (overlaps : List NoteContextPassage) : NoteContextPassage :=
  let first := overlaps.foldl (fun first passage => min first (passage.lineStart - 1)) first
  let last := overlaps.foldl (fun last passage => max last (passage.lineEnd - 1)) last
  { path := candidate.path
    sourceRevision := candidate.sourceRevision
    firstByte := (source.lineAt first).first
    afterLastByte := (source.lineAt last).stop
    lineStart := first + 1
    lineEnd := last + 1
    text := decode ((source.bytes.take (source.lineAt last).stop).drop (source.lineAt first).first)
    references := distinctReferences
      (overlaps.flatMap NoteContextPassage.references ++ [referenceOf candidate]) }

/-- The passage in the place of the first that it takes up, or behind the others. -/
def putPassage (overlaps : NoteContextPassage → Bool) (passage : NoteContextPassage) :
    List NoteContextPassage → List NoteContextPassage
  | [] => [passage]
  | other :: passages =>
    if overlaps other then passage :: passages.filter fun other => !overlaps other
    else other :: putPassage overlaps passage passages

structure Assembly where
  passages : List NoteContextPassage
  reasons : List Reason

def Assembly.because (assembly : Assembly) (reason : Reason) : Assembly :=
  { assembly with reasons := assembly.reasons ++ [reason] }

/-- The range of the match is not one of lines, or a fence crosses one of its ends. -/
def misplaced (source : SourceState) (candidate : NoteContextMatch) : Bool :=
  let low := candidate.lineStart - 1
  let high := candidate.lineEnd - 1
  decide ((source.lines[low]?).map SourceLine.first ≠ some candidate.firstByte) ||
    decide ((source.lines[high]?).map SourceLine.stop ≠ some candidate.afterLastByte) ||
    source.blocks.any fun block => decide (block.kind = .fence) &&
      ((decide (block.first < low) && decide (low ≤ block.last)) ||
        (decide (block.first ≤ high) && decide (high < block.last)))

/-- What a selection adds to the passages, within the limits. -/
def addSelection (source : SourceState) (candidate : NoteContextMatch) (first last : ℕ)
    (assembly : Assembly) : Assembly :=
  let overlaps := overlapping candidate first last
  let passage := mergedPassage source candidate first last (assembly.passages.filter overlaps)
  if passageBytes < (encode passage.text).length then assembly.because .contextLimit
  else
    let next := putPassage overlaps passage assembly.passages
    if resultLimit < next.length then assembly.because .resultLimit
    else if !fitsResponse next then assembly.because .responseLimit
    else { assembly with passages := next }

/-- One match; nothing where it makes the result an invalid reference. -/
def assembleMatch (sources : List NoteContextSource) (assembly : Assembly)
    (candidate : NoteContextMatch) : Option Assembly :=
  match sources.find? fun source => source.path = candidate.path with
  | none => some (assembly.because .sourceMissing)
  | some supplied =>
    if hashes.sha256 supplied.bytes ≠ candidate.sourceRevision then
      some (assembly.because .sourceRevisionChanged)
    else
      match readSource supplied.bytes with
      | .invalid => none
      | .unsupported => some (assembly.because .contextLimit)
      | .source source =>
        if misplaced source candidate then none
        else
          match selectContext source candidate with
          | none => some (assembly.because .contextLimit)
          | some (first, last) => some (addSelection source candidate first last assembly)

def assembleMatches (sources : List NoteContextSource) (assembly : Assembly) :
    List NoteContextMatch → Option Assembly
  | [] => some assembly
  | candidate :: candidates =>
    (assembleMatch hashes sources assembly candidate).bind fun assembly =>
      assembleMatches sources assembly candidates

def assembledResult (assembly : Assembly) : NoteContextResult :=
  let reasons := allReasons.filter (· ∈ assembly.reasons)
  ⟨.assembled, reasons ≠ [], reasons, assembly.passages⟩

def assembleNoteContext (noteSpace : Units) (sources : List NoteContextSource)
    (candidates : List NoteContextMatch) : NoteContextResult :=
  let lineCounts := sources.map fun source => countLines source.bytes
  if noteSpace = [] ∨ 256 < noteSpace.length then empty .invalidReference
  else if fileLimit < sources.length ∨ candidateLimit < candidates.length ∨
      (sources.any fun source => fileBytesLimit < source.bytes.length) ∨
      sourceBytesLimit < (sources.map fun source => source.bytes.length).sum then empty .inputLimit
  else if (sources.any fun source => !admittedNotePath source.path) ∨
      ¬(sources.map NoteContextSource.path).Nodup ∨
      (candidates.any fun candidate => !validShape hashes noteSpace candidate) then
    empty .invalidReference
  else if (lineCounts.any fun n => linesPerSource < n) ∨ totalLines < lineCounts.sum then
    empty .inputLimit
  else
    match assembleMatches hashes sources ⟨[], []⟩ candidates with
    | none => empty .invalidReference
    | some assembly => assembledResult assembly

end Assembling

end Piclaw.NoteContext
