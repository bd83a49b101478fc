import Piclaw.CanonicalText
import Piclaw.Values

/-!
# The Markdown of a table cell

`table-editor.ts`: a cell's text is parsed into inline tokens, the tokens are rendered as elements
with the delimiters kept as text, and after every keystroke the text is read back from them. A text
is the list of its UTF-16 code units; a parse that throws has no result.
-/

namespace Piclaw.TableCells

open CanonicalText

section Entities

def isDecimal (u : ℕ) : Bool := 48 ≤ u && u ≤ 57

/-- The value of a digit of `[0-9a-f]` without regard to case. -/
def hexValue (u : ℕ) : Option ℕ :=
  if isDecimal u then some (u - 48)
  else if 97 ≤ u ∧ u ≤ 102 then some (u - 87)
  else if 65 ≤ u ∧ u ≤ 70 then some (u - 55)
  else none

def isLetter (u : ℕ) : Bool := (97 ≤ u && u ≤ 122) || (65 ≤ u && u ≤ 90)

def digitsValue (base : ℕ) (digits : List ℕ) : ℕ :=
  digits.foldl (fun value digit => value * base + digit) 0

/-- The least number that `Number.parseInt` rounds to infinity. -/
def infinityFrom : ℕ := 2 ^ 1024 - 2 ^ 970

/-- `decodeTableCellEntity`: a text, nothing, or an error. -/
inductive DecodedEntity
  | text (text : Units)
  | null
  | rangeError

/-- `Number.isFinite(codePoint) ? String.fromCodePoint(codePoint) : null`. -/
def fromCodePoint (codePoint : ℕ) : DecodedEntity :=
  if infinityFrom ≤ codePoint then .null
  else if 0x10FFFF < codePoint then .rangeError
  else if codePoint < 0x10000 then .text [codePoint]
  else .text [0xD800 + (codePoint - 0x10000) / 0x400, 0xDC00 + (codePoint - 0x10000) % 0x400]

def namedEntities : List (Units × Units) :=
  [("amp", "&"), ("lt", "<"), ("gt", ">"), ("quot", "\""), ("apos", "'"), ("nbsp", "\u00a0"),
    ("copy", "©"), ("reg", "®"), ("trade", "™"), ("hellip", "…"), ("mdash", "—"), ("ndash", "–"),
    ("laquo", "«"), ("raquo", "»"), ("lsquo", "‘"), ("rsquo", "’"), ("ldquo", "“"),
    ("rdquo", "”"), ("euro", "€"), ("pound", "£"), ("yen", "¥"), ("cent", "¢"), ("deg", "°"),
    ("plusmn", "±"), ("times", "×"), ("divide", "÷"), ("middot", "·"), ("bull", "•")].map
    fun entity => (units entity.1, units entity.2)

/-- The names that every object literal inherits. -/
def inheritedNames : List Units :=
  ["constructor", "toString", "valueOf", "toLocaleString", "hasOwnProperty", "isPrototypeOf",
    "propertyIsEnumerable"].map units

/-- What stands between the ampersand and the semicolon; `source` is the text of a function. -/
def decodeTableCellEntity (source : Units → Units) (raw : Units) : DecodedEntity :=
  match raw with
  | 35 :: 120 :: digits => fromCodePoint (digitsValue 16 (digits.filterMap hexValue))
  | 35 :: 88 :: digits => fromCodePoint (digitsValue 16 (digits.filterMap hexValue))
  | 35 :: digits => fromCodePoint (digitsValue 10 (digits.map (· - 48)))
  | name =>
    match namedEntities.find? fun entity => entity.1 = name with
    | some entity => .text entity.2
    | none => if inheritedNames.contains name then .text (source name) else .null

/-- `#x[0-9a-f]+|#[0-9]+|[a-z][a-z0-9]+` without regard to case. -/
def isEntityName (name : Units) : Bool :=
  match name with
  | 35 :: u :: digits =>
    if u = 120 ∨ u = 88 then digits ≠ [] && digits.all fun u => (hexValue u).isSome
    else isDecimal u && digits.all isDecimal
  | first :: rest => isLetter first && rest ≠ [] && rest.all fun u => isLetter u || isDecimal u
  | [] => false

end Entities

section Matching

def afterPrefix (opener text : Units) : Option Units :=
  if opener <+: text then some (text.drop opener.length) else none

/-- The longest run of allowed units, which has `least` of them or more, and what follows. -/
def takeRun (allowed : ℕ → Bool) (least : ℕ) (text : Units) : Option (Units × Units) :=
  if least ≤ (text.takeWhile allowed).length then
    some (text.takeWhile allowed, text.dropWhile allowed)
  else none

/-- `([\s\S]+?)` up to the first closing delimiter behind one unit or more. -/
def takeUpTo (closer : Units) : Units → Option Units
  | [] => none
  | u :: rest =>
    if closer <+: rest then some [u] else (takeUpTo closer rest).map (u :: ·)

def isSpaceUnit (u : ℕ) : Bool := isTrimmed (Char.ofNat u)

def isWordUnit (u : ℕ) : Bool := isLetter u || isDecimal u || u = 95

/-- `[^\s)"'\n]`. -/
def isUrlUnit (u : ℕ) : Bool := !isSpaceUnit u && u ≠ 41 && u ≠ 34 && u ≠ 39

def lowerUnit (u : ℕ) : ℕ := if 65 ≤ u ∧ u ≤ 90 then u + 32 else u

/-- `(?:https?:\/\/|mailto:)[^\s<>]+` without regard to case, for a text without spaces. -/
def hasScheme (url : Units) : Bool :=
  ["http://", "https://", "mailto:"].any fun scheme =>
    (units scheme).isPrefixOf (url.map lowerUnit) && (units scheme).length < url.length

/-- What wraps a nested text. -/
inductive Wrap
  | strongEmphasis (delimiter : ℕ)
  | strong (delimiter : ℕ)
  | strike
  | link (url : Units)
  | emphasis (delimiter : ℕ)

/-- What a pattern matches before its children are parsed. -/
inductive InlineMatch
  | code (text : Units)
  | image (alt url : Units)
  | autolink (url : Units)
  | entity (name : Units)
  | nested (wrap : Wrap) (inner : Units)

def Wrap.opener : Wrap → Units
  | .strongEmphasis delimiter => [delimiter, delimiter, delimiter]
  | .strong delimiter => [delimiter, delimiter]
  | .strike => units "~~"
  | .link _ => units "["
  | .emphasis delimiter => [delimiter]

def Wrap.closer : Wrap → Units
  | .strongEmphasis delimiter => [delimiter, delimiter, delimiter]
  | .strong delimiter => [delimiter, delimiter]
  | .strike => units "~~"
  | .link url => units "](" ++ url ++ units ")"
  | .emphasis delimiter => [delimiter]

/-- `match[0]`. -/
def InlineMatch.raw : InlineMatch → Units
  | .code text => units "\x60" ++ text ++ units "\x60"
  | .image alt url => units "![" ++ alt ++ units "](" ++ url ++ units ")"
  | .autolink url => units "<" ++ url ++ units ">"
  | .entity name => units "&" ++ name ++ units ";"
  | .nested wrap inner => wrap.opener ++ inner ++ wrap.closer

def matchCode (rest : Units) : Option InlineMatch := do
  let rest ← afterPrefix (units "\x60") rest
  let (text, rest) ← takeRun (fun u => u ≠ 96 && u ≠ 10) 1 rest
  let _ ← afterPrefix (units "\x60") rest
  some (.code text)

def matchImage (rest : Units) : Option InlineMatch := do
  let rest ← afterPrefix (units "![") rest
  let (alt, rest) ← takeRun (fun u => u ≠ 93 && u ≠ 10) 0 rest
  let rest ← afterPrefix (units "](") rest
  let (url, rest) ← takeRun isUrlUnit 1 rest
  let _ ← afterPrefix (units ")") rest
  some (.image alt url)

def matchAutolink (rest : Units) : Option InlineMatch := do
  let rest ← afterPrefix (units "<") rest
  let (url, rest) ← takeRun (fun u => !isSpaceUnit u && u ≠ 60 && u ≠ 62) 1 rest
  let _ ← afterPrefix (units ">") rest
  if hasScheme url then some (.autolink url) else none

/-- An entity that decodes to nothing is no match. -/
def matchEntity (source : Units → Units) (rest : Units) : Option InlineMatch := do
  let rest ← afterPrefix (units "&") rest
  let (name, rest) ← takeRun (· ≠ 59) 1 rest
  let _ ← afterPrefix (units ";") rest
  if isEntityName name then
    match decodeTableCellEntity source name with
    | .null => none
    | _ => some (.entity name)
  else none

/-- The patterns with a delimiter of their own on both sides of any text. -/
def matchWrapped (wrap : Wrap) (rest : Units) : Option InlineMatch := do
  let rest ← afterPrefix wrap.opener rest
  let inner ← takeUpTo wrap.closer rest
  some (.nested wrap inner)

def matchLink (rest : Units) : Option InlineMatch := do
  let rest ← afterPrefix (units "[") rest
  let (inner, rest) ← takeRun (fun u => u ≠ 93 && u ≠ 10) 1 rest
  let rest ← afterPrefix (units "](") rest
  let (url, rest) ← takeRun isUrlUnit 1 rest
  let _ ← afterPrefix (units ")") rest
  some (.nested (.link url) inner)

def matchEmphasis (delimiter : ℕ) (rest : Units) : Option InlineMatch := do
  let rest ← afterPrefix [delimiter] rest
  let (inner, rest) ← takeRun (fun u => u ≠ delimiter && u ≠ 10) 1 rest
  let _ ← afterPrefix [delimiter] rest
  some (.nested (.emphasis delimiter) inner)

/-- The patterns in their order; `previous` is the unit before `rest`. -/
def matchInline (source : Units → Units) (previous : Option ℕ) (rest : Units) :
    Option InlineMatch :=
  matchCode rest <|> matchImage rest <|> matchAutolink rest <|> matchEntity source rest <|>
    matchWrapped (.strongEmphasis 42) rest <|> matchWrapped (.strongEmphasis 95) rest <|>
    matchWrapped (.strong 42) rest <|> matchWrapped (.strong 95) rest <|>
    matchWrapped .strike rest <|> matchLink rest <|> matchEmphasis 42 rest <|>
    if (previous.map isWordUnit).getD false then none else matchEmphasis 95 rest

end Matching

section Parsing

inductive TableCellInlineToken
  | text (text : Units)
  | strong (delimiter : Units) (children : List TableCellInlineToken)
  | emphasis (delimiter : Units) (children : List TableCellInlineToken)
  | strike (children : List TableCellInlineToken)
  | code (text : Units)
  | entity (raw text : Units)
  | image (raw alt url : Units)
  | link (children : List TableCellInlineToken) (url : Units) (raw : Option Units)
    (autolink : Bool)

/-- The token of a match, with the parse of its children. -/
def matchTableCellInlineToken (source : Units → Units)
    (parse : Units → Option (List TableCellInlineToken)) (inline : InlineMatch) :
    Option TableCellInlineToken :=
  match inline with
  | .code text => some (.code text)
  | .image alt url => some (.image inline.raw alt url)
  | .autolink url => some (.link [.text url] url (some inline.raw) true)
  | .entity name =>
    match decodeTableCellEntity source name with
    | .text text => some (.entity inline.raw text)
    | _ => none
  | .nested (.strongEmphasis delimiter) inner =>
    (parse inner).map fun children =>
      .strong [delimiter, delimiter] [.emphasis [delimiter] children]
  | .nested (.strong delimiter) inner => (parse inner).map (.strong [delimiter, delimiter])
  | .nested .strike inner => (parse inner).map .strike
  | .nested (.link url) inner => (parse inner).map fun children => .link children url none false
  | .nested (.emphasis delimiter) inner => (parse inner).map (.emphasis [delimiter])

def flush (buffer : Units) : List TableCellInlineToken :=
  if buffer = [] then [] else [.text buffer]

/-- The ASCII punctuation. -/
def isPunctuation (u : ℕ) : Bool :=
  (33 ≤ u && u ≤ 47) || (58 ≤ u && u ≤ 64) || (91 ≤ u && u ≤ 96) || (123 ≤ u && u ≤ 126)

/-- The character that a backslash at the head of the text escapes. -/
def escapedUnit : Units → Option ℕ
  | 92 :: u :: _ => if isPunctuation u then some u else none
  | _ => none

/-- The loop of the parse, with the text that it has collected. Every round takes a unit, and a
child is shorter than its parent, so that one round for each unit and one more are enough. -/
def parseFrom (source : Units → Units) : ℕ → Option ℕ → Units → Units →
    Option (List TableCellInlineToken)
  | 0, _, _, _ => none
  | _ + 1, _, buffer, [] => some (flush buffer)
  | fuel + 1, previous, buffer, u :: rest =>
    match escapedUnit (u :: rest) with
    | some escaped => parseFrom source fuel (some escaped) (buffer ++ [escaped]) rest.tail
    | none =>
      match matchInline source previous (u :: rest) with
      | some inline => do
        let token ← matchTableCellInlineToken source (parseFrom source fuel none []) inline
        let tokens ← parseFrom source fuel inline.raw.getLast? []
          ((u :: rest).drop inline.raw.length)
        some (flush buffer ++ token :: tokens)
      | none => parseFrom source fuel (some u) (buffer ++ [u]) rest

def parseTableCellInlineMarkdown (source : Units → Units) (raw : Units) :
    Option (List TableCellInlineToken) :=
  parseFrom source (raw.length + 1) none [] raw

end Parsing

section Rendering

/-- A text, or an element with its classes, the data it carries and its children. -/
inductive CellNode
  | text (text : Units)
  | element (classes : List String) (raw href : Option Units) (children : List CellNode)

def markSpan (text : Units) : CellNode :=
  .element ["cm-md-table-cell-mark"] none none [.text text]

def wrapped (wrap inner : String) (delimiter : Units) (children : List CellNode) : CellNode :=
  .element [wrap] none none
    [markSpan delimiter, .element [inner] none none children, markSpan delimiter]

mutual

def renderTableCellToken (normalizeLinkHref : Units → Option Units) :
    TableCellInlineToken → CellNode
  | .text text => .text text
  | .entity raw text => .element ["cm-md-table-cell-entity"] (some raw) none [.text text]
  | .code text => .element ["cm-md-table-cell-code"] none none [.text text]
  | .image raw _ url =>
    match (normalizeLinkHref url).filter (· ≠ []) with
    | none => .text raw
    | some _ =>
      .element ["cm-md-table-cell-image-wrap"] (some raw) none
        [.element ["cm-md-table-cell-image"] none none []]
  | .strong delimiter children =>
    wrapped "cm-md-table-cell-strong-wrap" "cm-md-table-cell-strong" delimiter
      (appendTableCellTokens normalizeLinkHref children)
  | .emphasis delimiter children =>
    wrapped "cm-md-table-cell-em-wrap" "cm-md-table-cell-em" delimiter
      (appendTableCellTokens normalizeLinkHref children)
  | .strike children =>
    wrapped "cm-md-table-cell-strike-wrap" "cm-md-table-cell-strike" (units "~~")
      (appendTableCellTokens normalizeLinkHref children)
  | .link children url _ autolink =>
    let href := (normalizeLinkHref url).filter (· ≠ [])
    let inner := CellNode.element ["cm-md-table-cell-link"] none none
      (appendTableCellTokens normalizeLinkHref children)
    let icon :=
      if href.isSome then [CellNode.element ["cm-md-table-cell-link-icon"] none none []] else []
    .element ["cm-md-table-cell-link-wrap"] none href
      ((if autolink then [markSpan (units "<"), inner, markSpan (units ">")]
        else
          [markSpan (units "["), inner, markSpan (units "]"), markSpan (units "("),
            .element ["cm-md-table-cell-mark", "cm-md-table-cell-link-url"] none none [.text url],
            markSpan (units ")")]) ++ icon)

def appendTableCellTokens (normalizeLinkHref : Units → Option Units) :
    List TableCellInlineToken → List CellNode
  | [] => []
  | token :: tokens =>
    renderTableCellToken normalizeLinkHref token :: appendTableCellTokens normalizeLinkHref tokens

end

mutual

def textContent : CellNode → Units
  | .text text => text
  | .element _ _ _ children => textContents children

def textContents : List CellNode → Units
  | [] => []
  | node :: nodes => textContent node ++ textContents nodes

end

mutual

def readDecoratedSourceRaw : CellNode → Units
  | .text text => text
  | .element classes raw _ children =>
    if "cm-md-table-cell-link-icon" ∈ classes then []
    else if "cm-md-table-cell-entity" ∈ classes ∨ "cm-md-table-cell-image-wrap" ∈ classes then
      raw.getD (textContents children)
    else readAll children

def readAll : List CellNode → Units
  | [] => []
  | node :: nodes => readDecoratedSourceRaw node ++ readAll nodes

end

/-- What `commitDecoratedCellSource` reads of the tokens that are rendered. -/
def readTokens (normalizeLinkHref : Units → Option Units) (tokens : List TableCellInlineToken) :
    Units :=
  readAll (appendTableCellTokens normalizeLinkHref tokens)

/-- A cell as it is read back after it has been rendered; nothing where the rendering throws. -/
def renderedCell (source : Units → Units) (normalizeLinkHref : Units → Option Units) (raw : Units) :
    Option Units :=
  (parseTableCellInlineMarkdown source raw).map (readTokens normalizeLinkHref)

end Rendering

end Piclaw.TableCells
