import Piclaw.BranchHandles
import Piclaw.OrderedMap
import Piclaw.Transactions

/-!
# Pruning tool results from the context

The extension `context-prune`: batches of tool calls captured from the session branch, the index of
their results with its aliases, the flush that records one batch after another, and the two
functions that drop a recorded result. The summarizer and the host that appends an entry are the
environment; `β` is the type of tool arguments.
-/

namespace Piclaw
namespace ContextPrune

inductive Block (β : Type)
  | text (text : String)
  | toolCall (id toolCallId name : Option String) (arguments : Option β)
  | other
  deriving DecidableEq

inductive Role
  | user
  | assistant
  | toolResult
  | other
  deriving DecidableEq

/-- `content` is absent where it is not an array. -/
structure Message (β : Type) where
  role : Role
  content : Option (List (Block β))
  toolCallId : Option String
  isError : Bool
  deriving DecidableEq

structure CapturedToolCall (β : Type) where
  toolCallId : String
  toolName : String
  args : Option β
  resultText : String
  isError : Bool
  deriving DecidableEq

structure CapturedBatch (β : Type) where
  turnIndex : ℕ
  timestamp : ℕ
  assistantText : String
  toolCalls : List (CapturedToolCall β)
  userTurnGroup : ℕ
  deriving DecidableEq

structure ToolCallRecord (β : Type) extends CapturedToolCall β where
  turnIndex : ℕ
  timestamp : ℕ
  deriving DecidableEq

structure SummaryToolCallRef where
  shortId : String
  toolCallId : String
  deriving DecidableEq

structure SummaryMessageDetails where
  toolCallRefs : List SummaryToolCallRef
  toolNames : List String
  turnIndex : ℕ
  timestamp : ℕ
  deriving DecidableEq

inductive Entry (β : Type)
  | message (message : Message β) (timestamp : ℕ)
  | index (toolCalls : List (ToolCallRecord β))
  | summary (content : String) (details : SummaryMessageDetails)
  | other
  deriving DecidableEq

section Capture
variable {β : Type}

/-- The texts of the text blocks, one a line. -/
def textOf (content : Option (List (Block β))) : String :=
  "\n".intercalate ((content.getD []).filterMap fun
    | .text text => some text
    | _ => none)

def Block.callId : Block β → String
  | .toolCall id toolCallId _ _ => (id.or toolCallId).getD ""
  | _ => ""

def Block.isToolCall : Block β → Bool
  | .toolCall .. => true
  | _ => false

/-- `String(name || fallback)`. -/
def Block.nameOr (fallback : String) : Block β → String
  | .toolCall _ _ name _ => if name.getD "" = "" then fallback else name.getD ""
  | _ => fallback

def Block.args : Block β → Option β
  | .toolCall _ _ _ arguments => arguments
  | _ => none

def captureToolCall (toolResults : List (Message β)) (block : Block β) : CapturedToolCall β :=
  let found := toolResults.find? (fun result => result.toolCallId = some block.callId)
  { toolCallId := block.callId
    toolName := block.nameOr "tool"
    args := block.args
    resultText := match found with
      | some result => textOf result.content
      | none => "(no result)"
    isError := match found with
      | some result => result.isError
      | none => false }

def captureBatch (message : Message β) (toolResults : List (Message β))
    (turnIndex timestamp userTurnGroup : ℕ) : CapturedBatch β where
  turnIndex
  timestamp
  assistantText := trim (textOf message.content)
  toolCalls := (((message.content.getD []).filter Block.isToolCall).map
    (captureToolCall toolResults)).filter (fun tc => tc.toolCallId ≠ "")
  userTurnGroup

/-- The results of the branch by call id, the last one where an id is repeated. -/
def resultMap (branch : List (Entry β)) : OrderedMap String (Message β) :=
  branch.foldl (fun results entry => match entry with
    | .message m _ => if m.role = .toolResult then match m.toolCallId with
        | some id => if id = "" then results else results.set id m
        | none => results
      else results
    | _ => results) .empty

def readyToPrune (results : OrderedMap String (Message β)) (isSummarized : String → Bool)
    (excludeToolNames : List String) (message : Message β) : List (Block β) :=
  ((message.content.getD []).filter Block.isToolCall).filter fun block =>
    decide (block.callId ≠ "") && !isSummarized block.callId &&
      !excludeToolNames.contains (block.nameOr "") && (results.get block.callId).isSome

structure CaptureScan (β : Type) where
  turnCounter : ℕ
  userTurnGroup : ℕ
  batches : List (CapturedBatch β)

def scanEntry (results : OrderedMap String (Message β)) (isSummarized : String → Bool)
    (excludeToolNames : List String) (scan : CaptureScan β) : Entry β → CaptureScan β
  | .message m timestamp =>
    match m.role with
    | .user => { scan with userTurnGroup := scan.userTurnGroup + 1 }
    | .assistant =>
      let ready := readyToPrune results isSummarized excludeToolNames m
      let readyIds := ready.map Block.callId
      let batch := captureBatch m (readyIds.filterMap results.get) scan.turnCounter timestamp
        scan.userTurnGroup
      { scan with
        turnCounter := scan.turnCounter + 1
        batches := if ready = [] then scan.batches
          else scan.batches ++
            [{ batch with
              toolCalls := batch.toolCalls.filter (fun tc => tc.toolCallId ∈ readyIds) }] }
    | _ => scan
  | _ => scan

def captureUnindexedBatchesFromSession (branch : List (Entry β))
    (isSummarized : String → Bool) (excludeToolNames : List String) : List (CapturedBatch β) :=
  (branch.foldl (scanEntry (resultMap branch) isSummarized excludeToolNames) ⟨0, 0, []⟩).batches

def mergeBatches (current batch : CapturedBatch β) : CapturedBatch β :=
  { current with
    assistantText := "\n\n".intercalate
      ([current.assistantText, batch.assistantText].filter (· ≠ ""))
    toolCalls := current.toolCalls ++ batch.toolCalls
    turnIndex := batch.turnIndex
    timestamp := batch.timestamp }

/-- Batches of one user turn become one. -/
def groupBatchesByAgentMessage : List (CapturedBatch β) → List (CapturedBatch β)
  | [] => []
  | [batch] => [batch]
  | current :: batch :: rest =>
    if current.userTurnGroup = batch.userTurnGroup then
      groupBatchesByAgentMessage (mergeBatches current batch :: rest)
    else current :: groupBatchesByAgentMessage (batch :: rest)
  termination_by batches => batches.length

end Capture

structure ToolCallIndexer (β : Type) where
  index : OrderedMap String (ToolCallRecord β)
  aliasToToolCallId : OrderedMap String String
  nextShortAliasNumber : ℕ

namespace ToolCallIndexer
variable {β : Type}

def new : ToolCallIndexer β := ⟨.empty, .empty, 1⟩

/-- The number in a short id, `t` and digits. -/
def shortNumber (shortId : String) : Option ℕ :=
  match shortId.toList with
  | 't' :: digits =>
    if digits ≠ [] ∧ digits.all Char.isDigit then
      some (digits.foldl (fun n c => 10 * n + (c.toNat - 48)) 0)
    else none
  | _ => none

def addAliases (aliases : OrderedMap String String) (refs : List SummaryToolCallRef) :
    OrderedMap String String :=
  refs.foldl (fun aliases ref =>
    if ref.shortId = "" ∨ ref.toolCallId = "" ∨ ref.shortId = ref.toolCallId then aliases
    else aliases.set ref.shortId ref.toolCallId) aliases

def nextNumber (next : ℕ) (refs : List SummaryToolCallRef) : ℕ :=
  refs.foldl (fun next ref =>
    if ref.shortId = "" ∨ ref.toolCallId = "" then next
    else match shortNumber ref.shortId with
      | some n => max next (n + 1)
      | none => next) next

def registerSummaryRefs (x : ToolCallIndexer β) (refs : List SummaryToolCallRef) :
    ToolCallIndexer β where
  index := x.index
  aliasToToolCallId := addAliases x.aliasToToolCallId refs
  nextShortAliasNumber := nextNumber x.nextShortAliasNumber refs

def addRecords (index : OrderedMap String (ToolCallRecord β))
    (toolCalls : List (ToolCallRecord β)) : OrderedMap String (ToolCallRecord β) :=
  toolCalls.foldl (fun index record => index.set record.toolCallId record) index

def buildIndexEntry (batch : CapturedBatch β) : List (ToolCallRecord β) :=
  batch.toolCalls.map fun tc => ⟨tc, batch.turnIndex, batch.timestamp⟩

def addBatch (x : ToolCallIndexer β) (batch : CapturedBatch β) : ToolCallIndexer β :=
  { x with index := addRecords x.index (buildIndexEntry batch) }

def readEntry (x : ToolCallIndexer β) : Entry β → ToolCallIndexer β
  | .index toolCalls => { x with index := addRecords x.index toolCalls }
  | .summary _ details => x.registerSummaryRefs details.toolCallRefs
  | _ => x

def reconstructFromSession (branch : List (Entry β)) : ToolCallIndexer β :=
  branch.foldl readEntry new

def isSummarized (x : ToolCallIndexer β) (toolCallId : String) : Bool :=
  (x.index.get toolCallId).isSome

def buildShortToolCallRefs (toolCallIds : List String) (startIndex : ℕ) :
    List SummaryToolCallRef :=
  toolCallIds.zipIdx.map fun id => ⟨"t" ++ toString (startIndex + id.2), id.1⟩

def allocatedRefs (x : ToolCallIndexer β) (batch : CapturedBatch β) : List SummaryToolCallRef :=
  buildShortToolCallRefs (batch.toolCalls.map (·.toolCallId)) x.nextShortAliasNumber

def allocateSummaryRefs (x : ToolCallIndexer β) (batch : CapturedBatch β) : ToolCallIndexer β :=
  { x with nextShortAliasNumber := x.nextShortAliasNumber + batch.toolCalls.length }

end ToolCallIndexer

section Pruning
variable {β : Type}

/-- Drops the results whose call the index holds. -/
def pruneMessages (messages : List (Message β)) (indexer : ToolCallIndexer β) : List (Message β) :=
  messages.filter fun m => !(decide (m.role = .toolResult) && match m.toolCallId with
    | some id => decide (id ≠ "") && indexer.isSummarized id
    | none => false)

/-- The call ids of the records and of the references of one entry. -/
def Entry.summarizedToolCalls : Entry β → List String
  | .index toolCalls => (toolCalls.map (·.toolCallId)).filter (· ≠ "")
  | .summary _ details => details.toolCallRefs.map (·.toolCallId)
  | _ => []

def summarizedToolCallIds (branch : List (Entry β)) : List String :=
  (branch.flatMap Entry.summarizedToolCalls).eraseDups

/-- The first short id of each referenced call. -/
def aliasByToolCallId (branch : List (Entry β)) (toolCallId : String) : Option String :=
  ((branch.flatMap fun
    | .summary _ details => details.toolCallRefs
    | _ => []).find? (fun ref => ref.toolCallId = toolCallId)).map (·.shortId)

def placeholderText (compactToolArgs : Option β → String) (block : Block β)
    (shortRef : Option String) : String :=
  let ref := match shortRef with
    | some ref => if ref = "" then "" else " ref " ++ ref
    | none => ""
  "[context-pruned tool call" ++ ref ++ ": " ++ block.nameOr "tool" ++ "(" ++
    compactToolArgs block.args ++ ") — raw result omitted from compaction input because " ++
    "context_prune already summarized it; use context_tree_query if the original output is needed.]"

def Block.summarized (ids : List String) (block : Block β) : Bool :=
  block.isToolCall && decide (block.callId ≠ "") && ids.contains block.callId

def replaceToolCalls (compactToolArgs : Option β → String) (branch : List (Entry β))
    (message : Message β) : Message β :=
  if message.role = .assistant then
    { message with
      content := message.content.map fun content => content.map fun block =>
        if block.summarized (summarizedToolCallIds branch) then
          .text (placeholderText compactToolArgs block (aliasByToolCallId branch block.callId))
        else block }
  else message

def resultSummarized (ids : List String) (message : Message β) : Bool :=
  decide (message.role = .toolResult) && match message.toolCallId with
    | some id => ids.contains id
    | none => false

structure Sanitization (β : Type) where
  messages : List (Message β)
  sourceMessageIndexes : List ℕ
  summarizedToolCallIds : List String
  prunedToolResults : ℕ
  replacedToolCalls : ℕ

/-- Without a summarized call every message is kept as it is. -/
def sanitizeContextPruneCompactionMessages (compactToolArgs : Option β → String)
    (messages : List (Message β)) (branch : List (Entry β)) : Sanitization β :=
  let ids := summarizedToolCallIds branch
  let kept := messages.zipIdx.filter (fun m => !resultSummarized ids m.1)
  { messages := kept.map (fun m => replaceToolCalls compactToolArgs branch m.1)
    sourceMessageIndexes := kept.map (·.2)
    summarizedToolCallIds := ids
    prunedToolResults := (messages.filter (resultSummarized ids)).length
    replacedToolCalls := ((messages.filter (·.role = .assistant)).map fun m =>
      ((m.content.getD []).filter (Block.summarized ids)).length).sum }

end Pruning

/-- What became of an entry that the flush handed to the host. `missing`: the call returned, but
the entry is not in the branch. -/
inductive Persisted
  | appended
  | missing
  | throws
  deriving DecidableEq

inductive FlushResult
  | flushed (batchCount toolCallCount rawCharCount summaryCharCount skippedCount : ℕ)
  | skippedOversized (batchCount toolCallCount rawCharCount summaryCharCount skippedCount : ℕ)
  | empty
  | alreadyFlushing
  | summarizerFailed
  | failed
  | aborted
  deriving DecidableEq

/-- A flush that waits for the summary of the first of `batches`. -/
structure Flush (β : Type) where
  batches : List (CapturedBatch β)
  batchCount : ℕ
  toolCallCount : ℕ
  rawCharCount : ℕ
  summaryCharCount : ℕ
  skippedCount : ℕ

structure Session (β : Type) where
  branch : List (Entry β)
  indexer : ToolCallIndexer β
  flush : Option (Flush β)
  result : Option FlushResult

inductive Event (β : Type)
  | appendMessage (message : Message β) (timestamp : ℕ)
  | reconstruct
  | flushPending (aborted modelRuntime : Bool)
  | summarized (summaryText : Option String) (summary index : Persisted)
      (aborted abortedNext : Bool)
  | summarizerThrew (aborted : Bool)

namespace Session
variable {β : Type} (s : Session β)

def initial : Session β := ⟨[], .new, none, none⟩

def capturePendingBatches : List (CapturedBatch β) :=
  groupBatchesByAgentMessage ((captureUnindexedBatchesFromSession s.branch s.indexer.isSummarized
    ["context_prune", "context_tree_query"]).filter (fun batch => batch.toolCalls ≠ []))

def finish (result : FlushResult) : Session β :=
  { s with
    flush := none
    result := some result }

/-- The head of the loop over the batches. -/
def nextBatch (flush : Flush β) (aborted : Bool) : Session β :=
  if flush.batches = [] then
    s.finish ((if flush.skippedCount = flush.batchCount then FlushResult.skippedOversized
      else FlushResult.flushed) flush.batchCount flush.toolCallCount flush.rawCharCount
        flush.summaryCharCount flush.skippedCount)
  else if aborted then s.finish .aborted
  else { s with flush := some flush }

def flushPending (aborted modelRuntime : Bool) : Session β :=
  if s.flush.isSome then { s with result := some .alreadyFlushing }
  else if aborted then { s with result := some .aborted }
  else if s.capturePendingBatches = [] then { s with result := some .empty }
  else if !modelRuntime then s.finish .summarizerFailed
  else s.nextBatch ⟨s.capturePendingBatches, 0, 0, 0, 0, 0⟩ false

def rawCharCount (batch : CapturedBatch β) : ℕ :=
  (batch.toolCalls.map fun tc => utf16Length tc.resultText).sum

def formatSummaryToolCallRefs (refs : List SummaryToolCallRef) : String :=
  "\n---\n**Summarized tool refs**: " ++
    ", ".intercalate (refs.map fun ref => "`" ++ ref.shortId ++ "`") ++
    "\nUse `context_tree_query` with these refs to retrieve the original full outputs."

def makeSummaryDetails (batch : CapturedBatch β) (refs : List SummaryToolCallRef) :
    SummaryMessageDetails :=
  ⟨refs, batch.toolCalls.map (·.toolName), batch.turnIndex, batch.timestamp⟩

def oversized (batch : CapturedBatch β) (summaryText : String) : Bool :=
  decide (rawCharCount batch <
    utf16Length (summaryText ++ formatSummaryToolCallRefs (s.indexer.allocatedRefs batch)))

/-- Registers the references, appends the summary, adds the records and appends the index. A throw
of either append ends the flush with what was done before it. -/
def record (batch : CapturedBatch β) (summaryText : String) (summary index : Persisted) :
    Session β × Bool :=
  let refs := s.indexer.allocatedRefs batch
  let registered := (s.indexer.allocateSummaryRefs batch).registerSummaryRefs refs
  let withSummary := match summary with
    | .appended => s.branch ++
        [.summary (summaryText ++ formatSummaryToolCallRefs refs) (makeSummaryDetails batch refs)]
    | _ => s.branch
  if summary = .throws then ({ s with indexer := registered }, false)
  else
    ({ s with
      indexer := registered.addBatch batch
      branch := match index with
        | .appended => withSummary ++ [.index (ToolCallIndexer.buildIndexEntry batch)]
        | _ => withSummary }, decide (index ≠ .throws))

def summarized (flush : Flush β) (batch : CapturedBatch β) (rest : List (CapturedBatch β))
    (summaryText : String) (summary index : Persisted) (aborted abortedNext : Bool) : Session β :=
  let refs := s.indexer.allocatedRefs batch
  let next : Flush β :=
    { batches := rest
      batchCount := flush.batchCount + 1
      toolCallCount := flush.toolCallCount + batch.toolCalls.length
      rawCharCount := flush.rawCharCount + rawCharCount batch
      summaryCharCount := flush.summaryCharCount +
        utf16Length (summaryText ++ formatSummaryToolCallRefs refs)
      skippedCount := flush.skippedCount + if s.oversized batch summaryText then 1 else 0 }
  if s.oversized batch summaryText then
    { s with indexer := s.indexer.allocateSummaryRefs batch }.nextBatch next abortedNext
  else
    let recorded := s.record batch summaryText summary index
    if recorded.2 then recorded.1.nextBatch next abortedNext
    else recorded.1.finish (if aborted then .aborted else .failed)

def step (s : Session β) : Event β → Session β
  | .appendMessage message timestamp =>
    { s with branch := s.branch ++ [.message message timestamp] }
  | .reconstruct => { s with indexer := .reconstructFromSession s.branch }
  | .flushPending aborted modelRuntime => s.flushPending aborted modelRuntime
  | .summarized summaryText summary index aborted abortedNext =>
    match s.flush with
    | none => s
    | some flush =>
      match flush.batches with
      | [] => s
      | batch :: rest =>
        match summaryText with
        | none => s.finish .summarizerFailed
        | some text => s.summarized flush batch rest text summary index aborted abortedNext
  | .summarizerThrew aborted =>
    if s.flush.isSome then s.finish (if aborted then .aborted else .failed) else s

end Session
end ContextPrune
end Piclaw
