import Piclaw.BranchHandles
import Piclaw.TextRuns
import Piclaw.Values

/-!
# Prompt transcripts

`formatMessages`, which writes the messages of a chat into one prompt, and
`parseTranscriptPromptEnvelope`, which reads the records of such a prompt. Texts are lists of
characters here, and `\s` is the class of the characters that `trim` removes.
-/

namespace Piclaw
namespace Transcript
open TextRuns

abbrev Chars := List Char

section Lines

/-- What `.` does not match in a regular expression. -/
def isTerminator (c : Char) : Bool :=
  c = '\n' || c = '\r' || c.toNat = 0x2028 || c.toNat = 0x2029

/-- CRLF and CR become LF. -/
def normalizeBreaks : Chars → Chars
  | [] => []
  | '\r' :: '\n' :: rest => '\n' :: normalizeBreaks rest
  | '\r' :: rest => '\n' :: normalizeBreaks rest
  | c :: rest => c :: normalizeBreaks rest

def splitLines (text : Chars) : List Chars := text.splitOn '\n'

def joinLines (lines : List Chars) : Chars := ['\n'].intercalate lines

def trimText (text : Chars) : Chars := stripEnds isTrimmed text

def blank (line : Chars) : Bool := line.all isTrimmed

end Lines

structure NewMessage where
  senderName : Option Chars
  sender : Option Chars
  timestamp : Option Chars
  screenHint : Option Chars
  chatJid : Option Chars
  content : Option Chars

/-- `isAbsolute`, and `resolve` against the workspace directory. -/
structure Paths where
  isAbsolute : Chars → Bool
  resolve : Chars → Chars

section Formatting

def normalizePromptHeaderValue (value : Option Chars) : Chars :=
  trimText (replaceRuns isTrimmed ' ' false
    (replaceRuns (fun c => c = '\r' || c = '\n' || c = '\t') ' ' false (value.getD [])))

def normalizePromptSenderName (message : NewMessage) : Chars :=
  let senderName := normalizePromptHeaderValue message.senderName
  let sender := normalizePromptHeaderValue message.sender
  if senderName ≠ [] then senderName else if sender ≠ [] then sender else "User".toList

def normalizePromptScreenHint (message : NewMessage) : Chars :=
  let raw := (normalizePromptHeaderValue message.screenHint).flatMap lowerCharacter
  match raw with
  | [] => []
  | first :: rest =>
    if ('a' ≤ first && first ≤ 'z') && rest.all handleCharacter && decide (rest.length ≤ 31) then
      raw
    else []

/-- `slice(0, units)`. A pair that the end divides is left out. -/
def sliceUnits : ℕ → Chars → Chars
  | _, [] => []
  | units, c :: rest =>
    if utf16Units c ≤ units then c :: sliceUnits (units - utf16Units c) rest else []

def normalizePromptChatJid (value : Option Chars) : Chars :=
  let raw := normalizePromptHeaderValue value
  if raw.any isTrimmed then [] else sliceUnits 200 raw

def inferPromptChatJid (messages : List NewMessage) : Chars :=
  match ((messages.map (fun message => normalizePromptChatJid message.chatJid)).filter
    (· ≠ [])).eraseDups with
  | [chatJid] => chatJid
  | _ => []

def schemeCharacter (c : Char) : Bool :=
  ('a' ≤ c.toLower && c.toLower ≤ 'z') || ('0' ≤ c && c ≤ '9') || c = '+' || c = '.' || c = '-'

/-- A text that starts with a scheme and a colon. -/
def hasScheme (text : Chars) : Bool :=
  match text with
  | first :: _ => 'a' ≤ first.toLower && first.toLower ≤ 'z' &&
      (text.dropWhile schemeCharacter).head? = some ':'
  | [] => false

def absolutizeWorkspaceReference (paths : Paths) (value : Chars) : Chars :=
  let trimmed := trimText value
  if trimmed = [] then trimmed
  else if hasScheme trimmed then trimmed
  else if paths.isAbsolute trimmed then trimmed
  else paths.resolve (if "./".toList.isPrefixOf trimmed then trimmed.drop 2 else trimmed)

/-- The mark of a list item and its text, without the white space behind it. White space alone
behind the mark leaves its last character as the text. -/
def listItem (line : Chars) : Option (Chars × Chars) :=
  let rest := line.dropWhile isTrimmed
  match rest with
  | '-' :: after =>
    let lead := line.takeWhile isTrimmed ++ '-' :: after.takeWhile isTrimmed
    let text := (after.dropWhile isTrimmed).rdropWhile isTrimmed
    if after.takeWhile isTrimmed = [] then none
    else if text ≠ [] then if text.any isTerminator then none else some (lead, text)
    else match (after.rdropWhile isTerminator).getLast? with
      | some last =>
        if 2 ≤ (after.rdropWhile isTerminator).length then
          some (line.takeWhile isTrimmed ++ '-' :: (after.rdropWhile isTerminator).dropLast, [last])
        else none
      | none => none
  | _ => none

def absolutizeLines (paths : Paths) : Bool → List Chars → List Chars
  | _, [] => []
  | inReferenceBlock, line :: rest =>
    let header := trimText line
    if header.map Char.toLower = "files:".toList ∨ header.map Char.toLower = "folders:".toList then
      line :: absolutizeLines paths true rest
    else if inReferenceBlock then
      match listItem line with
      | some (lead, text) =>
        (lead ++ absolutizeWorkspaceReference paths text) :: absolutizeLines paths true rest
      | none => line :: absolutizeLines paths (header = []) rest
    else line :: absolutizeLines paths false rest

def absolutizePromptFileReferenceBlocks (paths : Paths) (content : Chars) : Chars :=
  joinLines (absolutizeLines paths false (splitLines (normalizeBreaks content)))

/-- A formatted message before it is written: its sender, its time with the screen suffix and its
content. -/
structure Block where
  sender : Chars
  time : Chars
  content : Chars
  deriving DecidableEq

def screenSuffix (message : NewMessage) : Chars :=
  let screenHint := normalizePromptScreenHint message
  if screenHint ≠ [] then " (from ".toList ++ screenHint ++ [')'] else []

def NewMessage.formattedContent (paths : Paths) (message : NewMessage) : Chars :=
  match message.content with
  | some content => absolutizePromptFileReferenceBlocks paths content
  | none => []

def NewMessage.block (paths : Paths) (message : NewMessage) : Block where
  sender := normalizePromptSenderName message
  time := normalizePromptHeaderValue message.timestamp ++ screenSuffix message
  content := message.formattedContent paths

def indent (line : Chars) : Chars := ' ' :: ' ' :: line

def indentText (content : Chars) : Chars := joinLines ((splitLines content).map indent)

def formatBody (header content : Chars) : Chars :=
  if content = [] then header else header ++ '\n' :: indentText content

def formatPromptMessage (paths : Paths) (message : NewMessage) : Chars :=
  let sender := normalizePromptSenderName message
  let timestamp := normalizePromptHeaderValue message.timestamp
  let header :=
    if timestamp ≠ [] then sender ++ " @ ".toList ++ (timestamp ++ screenSuffix message) ++ [':']
    else sender ++ screenSuffix message ++ [':']
  formatBody header (message.formattedContent paths)

def sectionBreak : Chars := ['\n', '\n']

/-- The channel is not written where it is empty or `unknown`. -/
def knownChannel (channel : Option Chars) : Option Chars :=
  channel.filter fun channel => channel ≠ [] ∧ channel ≠ "unknown".toList

def knownChatJid (messages : List NewMessage) (chatJid : Option Chars) : Chars :=
  if normalizePromptChatJid chatJid ≠ [] then normalizePromptChatJid chatJid
  else inferPromptChatJid messages

def formatMessages (paths : Paths) (messages : List NewMessage) (channel : Option Chars)
    (chatJid : Option Chars) : Chars :=
  let body := sectionBreak.intercalate (messages.map (formatPromptMessage paths))
  sectionBreak.intercalate
    ((match knownChannel channel with
      | some channel => ["Channel: ".toList ++ channel]
      | none => []) ++
    (if knownChatJid messages chatJid ≠ [] then ["Chat: ".toList ++ knownChatJid messages chatJid]
      else []) ++
    (if messages = [] then []
      else if 1 < messages.length then ["Messages:\n".toList ++ body] else [body]))

end Formatting

section Parsing

structure PromptEnvelopeMessage where
  sender : Chars
  time : Chars
  text : Chars
  deriving DecidableEq

/-- The places where an at sign stands between two blanks, from the left. -/
def atSplits : Chars → List (Chars × Chars)
  | [] => []
  | c :: rest =>
    (match rest with
      | '@' :: d :: behind => if isTrimmed c && isTrimmed d then [([], behind)] else []
      | _ => []) ++ (atSplits rest).map (fun split => (c :: split.1, split.2))

def plain (text : Chars) : Bool := text.all fun c => !isTerminator c

/-- The ways to read a line as `sender @ time:`. -/
def headerSplits (line : Chars) : List (Chars × Chars) :=
  ((atSplits line).filter fun split =>
    plain split.1 && split.2.getLast? == some ':' && plain split.2.dropLast).map
      fun split => (split.1, split.2.dropLast)

/-- `/^.+\s@\s.+:$/` -/
def headerLike (line : Chars) : Bool :=
  (headerSplits line).any fun split => split.1 ≠ [] && split.2 ≠ []

def endsInBreak : Bool → Chars → Bool
  | _, [] => false
  | seen, c :: rest =>
    (seen && c = ':' && rest.head? = some '\n') || (!isTerminator c && endsInBreak true rest)

/-- `/^.+\s@\s.+:\n/m` -/
def headerSomewhere : Bool → Chars → Bool
  | _, [] => false
  | atStart, c :: rest =>
    (atStart && (atSplits (c :: rest)).any fun split =>
      split.1 ≠ [] && plain split.1 && endsInBreak false split.2) ||
    headerSomewhere (isTerminator c) rest

structure OpenRecord where
  sender : Chars
  time : Chars
  bodyLines : List Chars

def OpenRecord.push (o : OpenRecord) (line : Chars) : OpenRecord :=
  { o with bodyLines := o.bodyLines ++ [line] }

def OpenRecord.close (o : OpenRecord) : PromptEnvelopeMessage :=
  ⟨o.sender, o.time, trimText (joinLines o.bodyLines)⟩

/-- What the outer loop makes of a line: nothing, or a record with this header. -/
def opens (line : Chars) : Option OpenRecord :=
  if blank line then none
  else if "Channel:".toList.isPrefixOf line || "Chat:".toList.isPrefixOf line then none
  else if line = "Messages:".toList then none
  else match (headerSplits line).head? with
    | none => none
    | some split => some ⟨trimText split.1, trimText split.2, []⟩

def indented (line : Chars) : Bool := "  ".toList.isPrefixOf line

/-- The outer loop runs while no record is open, the inner one while one is. -/
def parseLines : Option OpenRecord → List Chars → List PromptEnvelopeMessage
  | none, [] => []
  | some o, [] => [o.close]
  | none, line :: rest => parseLines (opens line) rest
  | some o, current :: rest =>
    if blank current then
      if headerLike (rest.headD []) then o.close :: parseLines none rest
      else parseLines (some (o.push [])) rest
    else if headerLike current && !indented current then
      o.close :: parseLines (opens current) rest
    else parseLines (some (o.push (if indented current then current.drop 2 else current))) rest

def parseTranscriptPromptEnvelope (raw : Chars) : Option (List PromptEnvelopeMessage) :=
  let normalized := trimText (normalizeBreaks raw)
  if normalized = [] then none
  else if !"Channel:".toList.isPrefixOf normalized && !"Chat:".toList.isPrefixOf normalized &&
      !"Messages:".toList.isPrefixOf normalized && !headerSomewhere true normalized then none
  else
    let messages := parseLines none (splitLines normalized)
    if messages = [] then none else some messages

end Parsing

end Transcript
end Piclaw
