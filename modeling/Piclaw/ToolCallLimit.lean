import Piclaw.CanonicalText
import Piclaw.TextRuns
import Piclaw.Values

/-!
# Trimming the tool calls of a request

`azure-tool-call-limit.ts`: the items of a response-input history are collected into one entry for
each call; duplicates, the calls over the limit and the oldest calls over the token budget are
marked, and the marked calls with their outputs and reasoning items give way to one summary. A text
is the list of its UTF-16 code units.
-/

namespace Piclaw.ToolCallLimit

open CanonicalText TextRuns

section Json

abbrev JsonValue := CanonicalText.CanonicalJsonValue

/-- What is read of a value: strings, objects, and that something else is there. -/
inductive ParsedJson
  | string (s : Units)
  | object (fields : List (Units × ParsedJson))
  | array
  | scalar

def isJsonSpace (u : ℕ) : Bool := u = 9 || u = 10 || u = 13 || u = 32

def skipSpace (text : Units) : Units := text.dropWhile isJsonSpace

def isDigit (u : ℕ) : Bool := 48 ≤ u && u ≤ 57

def hexValue (u : ℕ) : Option ℕ :=
  if isDigit u then some (u - 48)
  else if 97 ≤ u ∧ u ≤ 102 then some (u - 87)
  else if 65 ≤ u ∧ u ≤ 70 then some (u - 55)
  else none

def escapedUnit (u : ℕ) : Option ℕ :=
  if u = 34 ∨ u = 47 ∨ u = 92 then some u
  else if u = 98 then some 8
  else if u = 102 then some 12
  else if u = 110 then some 10
  else if u = 114 then some 13
  else if u = 116 then some 9
  else none

/-- A string after its opening quote, and what follows its closing one. -/
def parseStringBody : Units → Option (Units × Units)
  | [] => none
  | 34 :: rest => some ([], rest)
  | 92 :: 117 :: a :: b :: c :: d :: rest => do
    let a ← hexValue a
    let b ← hexValue b
    let c ← hexValue c
    let d ← hexValue d
    let (body, rest) ← parseStringBody rest
    some ((a * 4096 + b * 256 + c * 16 + d) :: body, rest)
  | 92 :: u :: rest => do
    let u ← escapedUnit u
    let (body, rest) ← parseStringBody rest
    some (u :: body, rest)
  | u :: rest =>
    if u < 32 ∨ u = 92 then none
    else do
      let (body, rest) ← parseStringBody rest
      some (u :: body, rest)

/-- One digit or more. -/
def skipDigits (text : Units) : Option Units :=
  if (text.takeWhile isDigit) = [] then none else some (text.dropWhile isDigit)

/-- What follows a number. -/
def skipNumber (text : Units) : Option Units := do
  let text := if text.head? = some 45 then text.tail else text
  let text ← if text.head? = some 48 then some text.tail else skipDigits text
  let text ← if text.head? = some 46 then skipDigits text.tail else some text
  if text.head? = some 101 ∨ text.head? = some 69 then
    let text := text.tail
    skipDigits (if text.head? = some 43 ∨ text.head? = some 45 then text.tail else text)
  else some text

def skipWord (word text : Units) : Option Units :=
  if word <+: text then some (text.drop word.length) else none

mutual

/-- A value and what follows it; every step takes a unit or is followed by one that does, so that
twice the length of the text is enough. -/
def parseValue : ℕ → Units → Option (ParsedJson × Units)
  | 0, _ => none
  | fuel + 1, text =>
    match skipSpace text with
    | 34 :: rest => (parseStringBody rest).map fun (body, rest) => (.string body, rest)
    | 91 :: rest =>
      if (skipSpace rest).head? = some 93 then some (.array, (skipSpace rest).tail)
      else (parseItems fuel rest).map fun rest => (.array, rest)
    | 123 :: rest =>
      if (skipSpace rest).head? = some 125 then some (.object [], (skipSpace rest).tail)
      else (parseMembers fuel rest).map fun (fields, rest) => (.object fields, rest)
    | text =>
      ((skipWord (units "null") text <|> skipWord (units "true") text <|>
        skipWord (units "false") text <|> skipNumber text)).map fun rest => (.scalar, rest)

def parseItems : ℕ → Units → Option Units
  | 0, _ => none
  | fuel + 1, text => do
    let (_, rest) ← parseValue fuel text
    match skipSpace rest with
    | 44 :: rest => parseItems fuel rest
    | 93 :: rest => some rest
    | _ => none

def parseMembers : ℕ → Units → Option (List (Units × ParsedJson) × Units)
  | 0, _ => none
  | fuel + 1, text => do
    match skipSpace text with
    | 34 :: rest =>
      let (key, rest) ← parseStringBody rest
      match skipSpace rest with
      | 58 :: rest =>
        let (value, rest) ← parseValue fuel rest
        match skipSpace rest with
        | 44 :: rest =>
          let (fields, rest) ← parseMembers fuel rest
          some ((key, value) :: fields, rest)
        | 125 :: rest => some ([(key, value)], rest)
        | _ => none
      | _ => none
    | _ => none

end

/-- `JSON.parse`; nothing where it throws. -/
def parseJson (text : Units) : Option ParsedJson := do
  let (value, rest) ← parseValue (2 * text.length + 2) text
  if skipSpace rest = [] then some value else none

mutual

/-- `JSON.stringify` of plain data. -/
def stringify : JsonValue → Units
  | .null => units "null"
  | .boolean b => if b then units "true" else units "false"
  | .number x => numberText x
  | .string s => quote s
  | .array items => enclosed 91 93 (stringifyItems items)
  | .object entries => enclosed 123 125 (stringifyEntries entries)

def stringifyItems : List JsonValue → List Units
  | [] => []
  | v :: items => stringify v :: stringifyItems items

def stringifyEntries : List (Units × Option JsonValue) → List Units
  | [] => []
  | (_, none) :: entries => stringifyEntries entries
  | (k, some v) :: entries => (quote k ++ 58 :: stringify v) :: stringifyEntries entries

end

end Json

section Numbers

/-- A JavaScript number of the configuration. -/
inductive ConfigNumber
  | notANumber
  | finite (x : ℚ)
  | infinite (negative : Bool)
  deriving DecidableEq

namespace ConfigNumber

/-- `n < x`. -/
def above (n : ℕ) : ConfigNumber → Bool
  | .notANumber => false
  | .finite x => decide ((n : ℚ) < x)
  | .infinite negative => !negative

/-- `x < n`. -/
def below (n : ℕ) : ConfigNumber → Bool
  | .notANumber => false
  | .finite x => decide (x < (n : ℚ))
  | .infinite negative => negative

/-- `n <= x`. -/
def atLeast (n : ℕ) : ConfigNumber → Bool
  | .notANumber => false
  | .finite x => decide ((n : ℚ) ≤ x)
  | .infinite negative => !negative

/-- `Math.max(n, x)`. -/
def maxWith (n : ℕ) (x : ConfigNumber) : ConfigNumber := if below n x then .finite n else x

/-- `x - 1`. -/
def minusOne : ConfigNumber → ConfigNumber
  | .finite x => .finite (x - 1)
  | x => x

/-- `items.slice(0, x)`, for an `x` that is not negative. -/
def slice {α : Type} (items : List α) : ConfigNumber → List α
  | .notANumber => []
  | .finite x => items.take ⌊x⌋.toNat
  | .infinite _ => items

/-- How many `i` of a loop from 0 satisfy `i < length - x`. -/
def excess (length : ℕ) : ConfigNumber → ℕ
  | .notANumber => 0
  | .finite x => (⌈(length : ℚ) - x⌉).toNat
  | .infinite _ => 0

end ConfigNumber

end Numbers

section Items

inductive RemovalReason
  | dedupe
  | limit
  | budget
  deriving DecidableEq, Repr

/-- An entry of the collection; `removed` and `deduped` are set with the reason. -/
structure ToolCallEntry where
  callId : Units
  name : Option Units
  args : Option Units
  output : Option Units
  callIndex : Option ℕ
  outputIndex : Option ℕ
  reasoningIndex : Option ℕ
  removalReason : Option RemovalReason
  deriving DecidableEq

structure ToolCallLimitConfig where
  limit : ConfigNumber
  summaryMax : ConfigNumber
  outputChars : ConfigNumber
  dedupeToolOutputSearch : Bool
  maxEstimatedTokens : Option ConfigNumber

abbrev Fields := List (Units × Option JsonValue)

/-- An item that is an object; an array is one without the fields that are asked for. -/
def asToolCallMessage : JsonValue → Option Fields
  | .object fields => some fields
  | .array _ => some []
  | _ => none

def getField (message : Fields) (key : Units) : Option JsonValue :=
  (message.find? fun field => field.1 = key).bind Prod.snd

def asString : JsonValue → Option Units
  | .string s => some s
  | _ => none

def getStringField (message : Fields) (key : Units) : Option Units :=
  (getField message key).bind asString

/-- `a || b` where a missing text and the empty one are both falsy. -/
def firstText (a b : Option Units) : Option Units := if a.getD [] = [] then b else a

def isSpaceUnit (u : ℕ) : Bool := isTrimmed (Char.ofNat u)

def trim (text : Units) : Units := stripEnds isSpaceUnit text

/-- `truncateWithEllipsis` of `preview.ts`. -/
def truncateWithEllipsis (text : Units) (maxLength : ConfigNumber) : Units :=
  if !maxLength.above 0 || maxLength.atLeast text.length then text
  else
    let truncated := maxLength.slice text
    let truncated :=
      if (truncated.getLast?.map highSurrogate).getD false then truncated.dropLast else truncated
    truncated ++ [0x2026]

def formatToolCallSnippet (text : Units) (maxChars : ConfigNumber) : Units :=
  let collapsed := trim (replaceRuns isSpaceUnit 32 false text)
  if collapsed = [] then units "(no output)"
  else if maxChars.atLeast collapsed.length then collapsed
  else truncateWithEllipsis collapsed (.maxWith 1 maxChars.minusOne)

def parsedStringField (fields : List (Units × ParsedJson)) (key : Units) : Option Units :=
  match fields.reverse.find? fun field => field.1 = key with
  | some (_, .string s) => some s
  | _ => none

/-- The handle and the query, empty where they are missing. -/
def parseToolOutputSearchArgs (args : Option Units) : Option (Units × Units) :=
  if args.getD [] = [] then none
  else
    match parseJson (args.getD []) with
    | some (.object fields) =>
      let handle := trim ((parsedStringField fields (units "handle")).getD [])
      let query := trim ((parsedStringField fields (units "query")).getD [])
      if handle = [] ∧ query = [] then none else some (handle, query)
    | _ => none

end Items

section Collection

structure ReasoningEntry where
  index : ℕ
  id : Option Units
  paired : Bool
  deriving DecidableEq

def pair (index : ℕ) (entry : ReasoningEntry) : ReasoningEntry :=
  if entry.index = index then { entry with paired := true } else entry

/-- The reasoning id that a call asks for; empty when it asks for none. -/
def reasoningCandidate (item : Fields) : Units :=
  let reasoningField := getField item (units "reasoning")
  let record := (reasoningField.bind asToolCallMessage).getD []
  let explicit := firstText (firstText (reasoningField.bind asString)
    (getStringField item (units "reasoning_id"))) (getStringField record (units "id"))
  let itemId := (getStringField item (units "id")).getD []
  if explicit.getD [] ≠ [] then explicit.getD []
  else if units "fc_" <+: itemId then units "rs_" ++ itemId.drop 3
  else if units "fc-" <+: itemId then units "rs-" ++ itemId.drop 3
  else []

/-- The reasoning item a call is paired with: the one it names, else the latest unpaired one. -/
def findReasoningForCall (item : Fields) (reasoningItems : List ReasoningEntry) :
    Option ℕ :=
  let candidate := reasoningCandidate item
  let named :=
    if candidate = [] then none
    else reasoningItems.find? fun entry => entry.id = some candidate
  match named with
  | some entry => some entry.index
  | none => (reasoningItems.reverse.find? fun entry => !entry.paired).map ReasoningEntry.index

def pairAt (reasoningIndex : Option ℕ) (reasoningItems : List ReasoningEntry) :
    List ReasoningEntry :=
  match reasoningIndex with
  | some index => reasoningItems.map (pair index)
  | none => reasoningItems

structure Collection where
  entries : List ToolCallEntry
  /-- For each call id the position of its entry, the latest setting first. -/
  entryByCallId : List (Units × ℕ)
  reasoningItems : List ReasoningEntry

def Collection.find (c : Collection) (callId : Units) : Option ℕ :=
  (c.entryByCallId.find? fun entry => entry.1 = callId).map Prod.snd

def Collection.add (c : Collection) (entry : ToolCallEntry) : Collection :=
  { c with
    entries := c.entries ++ [entry]
    entryByCallId := (entry.callId, c.entries.length) :: c.entryByCallId }

def callIdOf (item : Fields) : Units :=
  trim ((firstText (getStringField item (units "call_id"))
    (getStringField item (units "id"))).getD [])

def outputCallIdOf (item : Fields) : Units :=
  trim ((getStringField item (units "call_id")).getD [])

def collectCall (c : Collection) (item : Fields) (index : ℕ) : Collection :=
  let callId := callIdOf item
  if callId = [] then c
  else
    let reasoningIndex := findReasoningForCall item c.reasoningItems
    Collection.add { c with reasoningItems := pairAt reasoningIndex c.reasoningItems }
      { callId
        name := getStringField item (units "name")
        args := getStringField item (units "arguments")
        output := none
        callIndex := some index
        outputIndex := none
        reasoningIndex
        removalReason := none }

def collectOutput (c : Collection) (item : Fields) (index : ℕ) : Collection :=
  let callId := outputCallIdOf item
  if callId = [] then c
  else
    let output := getStringField item (units "output")
    match c.find callId with
    | some position =>
      { c with
        entries := c.entries.modify position fun entry =>
          { entry with outputIndex := some index, output } }
    | none =>
      c.add
        { callId
          name := none
          args := none
          output
          callIndex := none
          outputIndex := some index
          reasoningIndex := none
          removalReason := none }

def itemType (rawItem : JsonValue) : Option Units :=
  (asToolCallMessage rawItem).bind fun item => getStringField item (units "type")

def collectItem (c : Collection) (rawItem : JsonValue) (index : ℕ) : Collection :=
  match asToolCallMessage rawItem with
  | none => c
  | some item =>
    let type := getStringField item (units "type")
    if type = some (units "reasoning") then
      { c with
        reasoningItems := c.reasoningItems ++ [⟨index, getStringField item (units "id"), false⟩] }
    else if type = some (units "function_call") then collectCall c item index
    else if type = some (units "function_call_output") then collectOutput c item index
    else c

/-- `messages.forEach`, from an index on. -/
def collectFrom (c : Collection) (index : ℕ) : List JsonValue → Collection
  | [] => c
  | rawItem :: messages => collectFrom (collectItem c rawItem index) (index + 1) messages

def collectEntries (messages : List JsonValue) : List ToolCallEntry :=
  (collectFrom ⟨[], [], []⟩ 0 messages).entries

end Collection

section Summary

def joinTexts (separator : Units) (texts : List Units) : Units := separator.intercalate texts

def describeToolCall (entry : ToolCallEntry) (outputChars : ConfigNumber) : Units :=
  let name := if entry.name.getD [] = [] then units "tool" else entry.name.getD []
  let outputPreview := formatToolCallSnippet (entry.output.getD []) outputChars
  let bullet := units "• "
  if name = units "search_tool_output" then
    let (handle, query) := (parseToolOutputSearchArgs entry.args).getD ([], [])
    let handle := if handle = [] then [] else units "handle=" ++ handle
    let query := if query = [] then [] else units "query=\"" ++ query ++ units "\""
    let details := joinTexts (units ", ") ([handle, query].filter (· ≠ []))
    let suffix := if details = [] then [] else units " (" ++ details ++ units ")"
    bullet ++ name ++ suffix ++ units ": " ++ outputPreview
  else if entry.args.getD [] ≠ [] then
    let argsPreview := formatToolCallSnippet (entry.args.getD []) (.finite 80)
    let suffix :=
      if argsPreview ≠ [] ∧ argsPreview ≠ units "(no output)" then
        units " (" ++ argsPreview ++ units ")"
      else []
    bullet ++ name ++ suffix ++ units ": " ++ outputPreview
  else bullet ++ name ++ units ": " ++ outputPreview

/-- `Math.ceil(JSON.stringify(value).length / 4)`. -/
def estimateAzureRequestTokens (messages : List JsonValue) : ℕ :=
  ((stringify (.array messages)).length + 3) / 4

def buildSummaryIntro (removedToolCalls : ℕ) (budgetTrimApplied : Bool) : Units :=
  units "Earlier tool calls (" ++ natText removedToolCalls ++
    if budgetTrimApplied then
      units (") were summarised to reduce Azure request size and stay under the estimated " ++
        "token budget.")
    else units ") were summarised to stay under the Azure 128 tool-call limit."

def removedCalls (entries : List ToolCallEntry) : List ToolCallEntry :=
  entries.filter fun entry => entry.removalReason.isSome && entry.callIndex.isSome

def lineBreaks : Units := [10, 10]

def buildSummaryText (entries : List ToolCallEntry) (config : ToolCallLimitConfig) : Units :=
  let removedToolCalls := (removedCalls entries).length
  let budgetTrimApplied := entries.any fun entry => entry.removalReason = some .budget
  let ordered := (removedCalls entries).insertionSort fun a b =>
    a.callIndex.getD 0 ≤ b.callIndex.getD 0
  let summaryLines := ((ConfigNumber.maxWith 0 config.summaryMax).slice ordered).map
    (describeToolCall · config.outputChars)
  let summaryText := buildSummaryIntro removedToolCalls budgetTrimApplied
  let summaryText :=
    if 0 < summaryLines.length then summaryText ++ lineBreaks ++ joinTexts [10] summaryLines
    else summaryText
  if summaryLines.length < removedToolCalls then
    summaryText ++ lineBreaks ++ units "(" ++ natText (removedToolCalls - summaryLines.length) ++
      units " more tool call(s) omitted.)"
  else summaryText

/-- The id of a summary, from what the clock and the random numbers make of it. -/
def summaryIdOf (base : Units) : Units :=
  if base.length ≤ 64 then base else (base.take 64).rdropWhile (· = 95)

def field (name : String) (value : JsonValue) : Units × Option JsonValue :=
  (units name, some value)

def text (s : String) : JsonValue := .string (units s)

def summaryMessage (base summaryText : Units) : JsonValue :=
  .object
    [field "type" (text "message"),
      field "role" (text "assistant"),
      field "content" (.array [.object
        [field "type" (text "output_text"),
          field "text" (.string summaryText),
          field "annotations" (.array [])]]),
      field "status" (text "completed"),
      field "id" (.string (summaryIdOf base))]

end Summary

section Trimming

/-- The indexes of the items that go with the removed calls. -/
def removeIndexes (entries : List ToolCallEntry) : List ℕ :=
  let kept := (entries.filter fun entry => entry.removalReason.isNone).filterMap
    ToolCallEntry.reasoningIndex
  (entries.filter fun entry => entry.removalReason.isSome).flatMap fun entry =>
    entry.callIndex.toList ++ entry.outputIndex.toList ++
      entry.reasoningIndex.toList.filter (· ∉ kept)

/-- The items from an index on that are not removed. -/
def retainFrom {α : Type} (removed : List ℕ) (index : ℕ) : List α → List α
  | [] => []
  | item :: items =>
    if index ∈ removed then retainFrom removed (index + 1) items
    else item :: retainFrom removed (index + 1) items

/-- The items that are not removed, with one more where the first removed one was. -/
def replaceRemoved {α : Type} (removed : List ℕ) (summary : α) (items : List α) : List α :=
  let insertIndex := removed.foldl min items.length
  let insertAt := ((List.range insertIndex).filter (· ∉ removed)).length
  (retainFrom removed 0 items).insertIdx insertAt summary

def hasRemoved (entries : List ToolCallEntry) : Bool :=
  entries.any fun entry => entry.removalReason.isSome

/-- The messages of the result; `base` is the clock and the random part of the summary's id. -/
def buildTrimmedMessages (messages : List JsonValue) (entries : List ToolCallEntry)
    (config : ToolCallLimitConfig) (base : Units) : List JsonValue :=
  if hasRemoved entries then
    replaceRemoved (removeIndexes entries)
      (summaryMessage base (buildSummaryText entries config)) messages
  else messages

/-- Sets the reason of the call at an index. -/
def mark (reason : RemovalReason) (index : ℕ) (entry : ToolCallEntry) : ToolCallEntry :=
  if entry.callIndex = some index then { entry with removalReason := some reason } else entry

def markAll (reason : RemovalReason) (indexes : List ℕ) (entries : List ToolCallEntry) :
    List ToolCallEntry :=
  indexes.foldl (fun entries index => entries.map (mark reason index)) entries

/-- `handle|query` of a search call that has both. -/
def searchKey (name args : Option Units) : Option Units :=
  if name = some (units "search_tool_output") then
    match parseToolOutputSearchArgs args with
    | some (handle, query) =>
      if handle = [] ∨ query = [] then none else some (handle ++ 124 :: query)
    | none => none
  else none

def dedupeKey (entry : ToolCallEntry) : Option Units := searchKey entry.name entry.args

/-- The loop over the entries, with the keys that have been seen. -/
def dedupeEntries (seen : List Units) : List ToolCallEntry → List ToolCallEntry
  | [] => []
  | entry :: entries =>
    match dedupeKey entry with
    | none => entry :: dedupeEntries seen entries
    | some key =>
      if key ∈ seen then
        { entry with removalReason := some .dedupe } :: dedupeEntries seen entries
      else entry :: dedupeEntries (key :: seen) entries

/-- The calls that are not removed, the oldest first. -/
def orderedCalls (entries : List ToolCallEntry) : List ℕ :=
  ((entries.filter fun entry => entry.removalReason.isNone).filterMap
    ToolCallEntry.callIndex).insertionSort (· ≤ ·)

/-- The number of calls that the limit removes. -/
def limitCount (ordered : List ℕ) (limit : ConfigNumber) : ℕ :=
  if limit.above 0 && limit.below ordered.length then limit.excess ordered.length else 0

/-- The loop of the token budget over the calls that remain, with the summary ids it draws. -/
def trimToBudget (messages : List JsonValue) (config : ToolCallLimitConfig)
    (maxEstimatedTokens : ConfigNumber) (bases : ℕ → Units) (round : ℕ)
    (entries : List ToolCallEntry) (remaining : List ℕ) : List ToolCallEntry × ℕ :=
  let candidate := buildTrimmedMessages messages entries config (bases round)
  if maxEstimatedTokens.atLeast (estimateAzureRequestTokens candidate) then (entries, round + 1)
  else
    match remaining with
    | [] => (entries, round + 1)
    | oldestRemaining :: remaining =>
      trimToBudget messages config maxEstimatedTokens bases (round + 1)
        (entries.map (mark .budget oldestRemaining)) remaining

/-- The entries after the collection and the duplicates. -/
def dedupedEntries (messages : List JsonValue) (config : ToolCallLimitConfig) :
    List ToolCallEntry :=
  let entries := collectEntries messages
  if config.dedupeToolOutputSearch then dedupeEntries [] entries else entries

/-- The entries as the last call of `buildTrimmedMessages` finds them, and the number of the
summary id that it draws. -/
def trimmedEntries (messages : List JsonValue) (config : ToolCallLimitConfig)
    (bases : ℕ → Units) : List ToolCallEntry × ℕ :=
  let entries := dedupedEntries messages config
  let ordered := orderedCalls entries
  let removeCount := limitCount ordered config.limit
  let entries := markAll .limit (ordered.take removeCount) entries
  match config.maxEstimatedTokens with
  | some maxEstimatedTokens =>
    if maxEstimatedTokens.above 0 then
      trimToBudget messages config maxEstimatedTokens bases 0 entries (ordered.drop removeCount)
    else (entries, 0)
  | none => (entries, 0)

structure ToolCallLimitResult where
  messages : List JsonValue
  toolCallTotal : ℕ
  toolCallKept : ℕ
  toolCallRemoved : ℕ
  toolCallDeduped : ℕ
  toolCallBudgetRemoved : ℕ
  summaryText : Option Units
  estimatedTokensBeforeTrim : ℕ
  estimatedTokensAfterTrim : ℕ
  maxEstimatedTokens : Option ConfigNumber
  budgetTrimApplied : Bool

def callCount (entries : List ToolCallEntry) : ℕ :=
  (entries.filter fun entry => entry.callIndex.isSome).length

def applyToolCallLimit (messages : List JsonValue) (config : ToolCallLimitConfig)
    (bases : ℕ → Units) : ToolCallLimitResult :=
  let toolCallTotal := callCount (collectEntries messages)
  let deduped := dedupedEntries messages config
  let toolCallDeduped := (deduped.filter fun entry => entry.removalReason = some .dedupe).length
  let (entries, round) := trimmedEntries messages config bases
  let trimmedMessages := buildTrimmedMessages messages entries config (bases round)
  let estimatedTokensBeforeTrim := estimateAzureRequestTokens messages
  if hasRemoved entries then
    let toolCallRemoved := (removedCalls entries).length
    let toolCallBudgetRemoved := ((removedCalls entries).filter fun entry =>
      entry.removalReason = some .budget).length
    { messages := trimmedMessages
      toolCallTotal
      toolCallKept := toolCallTotal - toolCallRemoved
      toolCallRemoved
      toolCallDeduped
      toolCallBudgetRemoved
      summaryText := some (buildSummaryText entries config)
      estimatedTokensBeforeTrim
      estimatedTokensAfterTrim := estimateAzureRequestTokens trimmedMessages
      maxEstimatedTokens := config.maxEstimatedTokens
      budgetTrimApplied := 0 < toolCallBudgetRemoved }
  else
    { messages
      toolCallTotal
      toolCallKept := toolCallTotal
      toolCallRemoved := 0
      toolCallDeduped
      toolCallBudgetRemoved := 0
      summaryText := none
      estimatedTokensBeforeTrim
      estimatedTokensAfterTrim := estimatedTokensBeforeTrim
      maxEstimatedTokens := config.maxEstimatedTokens
      budgetTrimApplied := false }

end Trimming

end Piclaw.ToolCallLimit
