import Piclaw.Messages

/-!
# Draft and notice writes

The timeline draft store: `commitDraft` and `commitServiceNotice`. A call checks for earlier
writes, waits for its payloads, and checks again inside the transaction that writes the message
row and the record of the write. Calls overlap in any order.
-/

namespace Piclaw

inductive TimelineDraftKind
  | assistantProgress
  | toolProgress
  | recovery
  deriving DecidableEq

inductive ServiceNoticeKind
  | restart
  | maintenance
  | operator
  deriving DecidableEq

def ServiceNoticeKind.text : ServiceNoticeKind → String
  | restart => "restart"
  | maintenance => "maintenance"
  | operator => "operator"

structure TimelineEffect (ω : Type) where
  idempotencyKey : String
  requestHash : String
  operationId : ω
  sourceSeq : Option ℤ
  provenanceRef : String
  redactionClass : String
  deriving DecidableEq

inductive DraftMode
  | insert
  | replace
  deriving DecidableEq

structure CommitDraftRequest (τ : Type) where
  effect : TimelineEffect String
  chatJid : String
  draftKind : TimelineDraftKind
  revision : ℤ
  mode : DraftMode
  existingRowId : Option ℕ
  contentRef : String
  threadId : Option ℕ
  mediaIds : List ℕ
  contentBlocksRef : Option String
  writtenAt : τ
  deriving DecidableEq

structure CommitServiceNoticeRequest (τ : Type) where
  effect : TimelineEffect (Option String)
  chatJid : String
  sourceId : String
  noticeKind : ServiceNoticeKind
  contentRef : String
  contentBlocksRef : Option String
  writtenAt : τ
  deriving DecidableEq

inductive TimelineRequest (τ : Type)
  | draft (request : CommitDraftRequest τ)
  | notice (request : CommitServiceNoticeRequest τ)
  deriving DecidableEq

/-- `write_type` with the columns that go with it. -/
inductive WriteSubject
  | draft (operationId : String) (draftKind : TimelineDraftKind) (revision : ℤ)
  | notice (noticeKind : ServiceNoticeKind) (sourceId : String)
  deriving DecidableEq

/-- What one message row is for. -/
inductive TimelineTarget
  | draft (operationId : String) (draftKind : TimelineDraftKind)
  | notice (noticeKind : ServiceNoticeKind) (sourceId : String)
  deriving DecidableEq

namespace WriteSubject

def target : WriteSubject → TimelineTarget
  | draft operationId draftKind _ => .draft operationId draftKind
  | notice noticeKind sourceId => .notice noticeKind sourceId

def operationId : WriteSubject → Option String
  | draft operationId _ _ => some operationId
  | notice _ _ => none

def revision : WriteSubject → Option ℤ
  | draft _ _ revision => some revision
  | notice _ _ => none

end WriteSubject

structure TimelineWriteRow (τ : Type) where
  idempotencyKey : String
  requestHash : String
  subject : WriteSubject
  messageRowid : ℕ
  chatJid : String
  writtenAt : τ
  deriving DecidableEq

structure TimelineWrite (τ : Type) where
  rowId : ℕ
  chatJid : String
  operationId : Option String
  revision : Option ℤ
  terminal : Bool
  writtenAt : τ
  deriving DecidableEq

inductive TimelineStoreErrorTag
  | idempotencyConflict
  | staleRevision
  | rowNotFound
  | rowOwnerConflict
  | invalidContentBlocks
  | missingMedia
  | storageUnavailable
  deriving DecidableEq

inductive TimelineCertainty
  | notApplied
  | applied
  | unknown
  deriving DecidableEq

structure TimelineStoreError where
  tag : TimelineStoreErrorTag
  certainty : TimelineCertainty
  retryable : Bool
  deriving DecidableEq

abbrev TimelineAnswer (τ : Type) := Except TimelineStoreError (TimelineWrite τ)

namespace TimelineRequest
variable {τ : Type}

def idempotencyKey : TimelineRequest τ → String
  | draft request => request.effect.idempotencyKey
  | notice request => request.effect.idempotencyKey

def requestHash : TimelineRequest τ → String
  | draft request => request.effect.requestHash
  | notice request => request.effect.requestHash

def subject : TimelineRequest τ → WriteSubject
  | draft request => .draft request.effect.operationId request.draftKind request.revision
  | notice request => .notice request.noticeKind request.sourceId

def chatJid : TimelineRequest τ → String
  | draft request => request.chatJid
  | notice request => request.chatJid

def writtenAt : TimelineRequest τ → τ
  | draft request => request.writtenAt
  | notice request => request.writtenAt

def contentBlocksRef : TimelineRequest τ → Option String
  | draft request => request.contentBlocksRef
  | notice request => request.contentBlocksRef

def mediaIds : TimelineRequest τ → List ℕ
  | draft request => request.mediaIds
  | notice _ => []

/-- `Number.isSafeInteger(request.revision) && request.revision >= 0`, for drafts. -/
def hasValidRevision : TimelineRequest τ → Bool
  | draft request => decide (0 ≤ request.revision ∧ request.revision ≤ 9007199254740991)
  | notice _ => true

/-- `draftMessage` and `noticeMessage`. -/
def message (content : String) (blocks : Option String) : TimelineRequest τ → MessageInput τ
  | draft request =>
    { id := "service-draft:" ++ request.effect.idempotencyKey
      chatJid := request.chatJid
      content := content
      contentBlocks := blocks
      linkPreviews := none
      threadId := request.threadId
      timestamp := request.writtenAt
      isBotMessage := true
      isTerminalAgentReply := false
      isSteeringMessage := false }
  | notice request =>
    { id := "service-notice:" ++ request.noticeKind.text ++ ":" ++ request.sourceId
      chatJid := request.chatJid
      content := content
      contentBlocks := blocks
      linkPreviews := none
      threadId := none
      timestamp := request.writtenAt
      isBotMessage := true
      isTerminalAgentReply := false
      isSteeringMessage := false }

/-- The row that a request writes. -/
def writeRow (request : TimelineRequest τ) (rowId : ℕ) : TimelineWriteRow τ where
  idempotencyKey := request.idempotencyKey
  requestHash := request.requestHash
  subject := request.subject
  messageRowid := rowId
  chatJid := request.chatJid
  writtenAt := request.writtenAt

end TimelineRequest

def writeFromRow {τ : Type} (row : TimelineWriteRow τ) : TimelineWrite τ where
  rowId := row.messageRowid
  chatJid := row.chatJid
  operationId := row.subject.operationId
  revision := row.subject.revision
  terminal := false
  writtenAt := row.writtenAt

/-- A row of the writes table. The request and what its payloads resolved to are a history. -/
structure CommittedWrite (τ : Type) where
  row : TimelineWriteRow τ
  request : TimelineRequest τ
  content : String
  blocks : Option String

structure PendingCommit (τ : Type) where
  request : TimelineRequest τ
  resolved : Option (String × Option String)

/-- `draftMedia` are the media that an operation owns with the role `draft`. -/
structure TimelineStore (τ : Type) where
  db : MessageDb τ
  chats : String → Option τ
  committed : List (CommittedWrite τ)
  draftMedia : List (String × ℕ)
  nextCall : ℕ
  pending : ℕ → Option (PendingCommit τ)

inductive SubmitFault
  | beforeEffect
  | readFailed
  deriving DecidableEq

/-- `resolved` carries what the payload resolver and the block validation give. `failed` is
anything that throws before or inside the transaction, which is rolled back. `own` changes the
media of operations. -/
inductive TimelineEvent (τ : Type)
  | submit (request : TimelineRequest τ) (fault : Option SubmitFault)
  | resolved (call : ℕ) (content blocks : Option String)
  | admitted (call : ℕ) (lostAcknowledgement : Bool)
  | failed (call : ℕ)
  | own (draftMedia : List (String × ℕ))

/-- What a transaction returns. -/
inductive TimelineMutation (τ : Type)
  | replayed (answer : TimelineAnswer τ)
  | refused (tag : TimelineStoreErrorTag)
  | wrote (store : TimelineStore τ) (write : TimelineWrite τ)

namespace TimelineStore
variable {τ : Type}

def failure (tag : TimelineStoreErrorTag) : TimelineAnswer τ :=
  .error ⟨tag, .notApplied, false⟩

def unknown : TimelineAnswer τ := .error ⟨.storageUnavailable, .unknown, true⟩

section Lookups
variable (s : TimelineStore τ)

def rows : List (TimelineWriteRow τ) := s.committed.map CommittedWrite.row

def findByKey (idempotencyKey : String) : Option (TimelineWriteRow τ) :=
  s.rows.find? fun row => decide (row.idempotencyKey = idempotencyKey)

/-- `findDraftRevision` and `findNotice`. -/
def findSubject (subject : WriteSubject) : Option (TimelineWriteRow τ) :=
  s.rows.find? fun row => decide (row.subject = subject)

/-- The row of an operation and a draft kind by `revision DESC`. -/
def latestDraft (operationId : String) (draftKind : TimelineDraftKind) :
    Option (TimelineWriteRow τ) :=
  s.rows.find? fun row => decide (row.subject.target = .draft operationId draftKind) &&
    s.rows.all fun other => !decide (other.subject.target = .draft operationId draftKind) ||
      decide (other.subject.revision.getD (-1) ≤ row.subject.revision.getD (-1))

def replayOrConflict (requestHash : String) (row : TimelineWriteRow τ) : TimelineAnswer τ :=
  if row.requestHash = requestHash then .ok (writeFromRow row) else failure .idempotencyConflict

def mediaAreDraftOwned (operationId : String) (mediaIds : List ℕ) : Bool :=
  decide mediaIds.Nodup &&
    mediaIds.all fun mediaId => decide ((operationId, mediaId) ∈ s.draftMedia)

end Lookups

/-- The content, or why there is none. -/
def resolveTimelinePayloads (contentBlocksRef content blocks : Option String) :
    Except TimelineStoreErrorTag (String × Option String) :=
  match content with
  | none => .error .storageUnavailable
  | some content =>
    if contentBlocksRef.getD "" = "" then .ok (content, none)
    else match blocks with
      | some blocks => .ok (content, some blocks)
      | none => .error .invalidContentBlocks

section Transactions
variable [LinearOrder τ] (platform : MessagePlatform τ) (s : TimelineStore τ)

def ensureChat (chatJid : String) (writtenAt : τ) : TimelineStore τ :=
  { s with
    chats := Function.update s.chats chatJid
      (some ((s.chats chatJid).elim writtenAt fun time => max time writtenAt)) }

def replaceOptions (blocks : Option String) (mediaIds : List ℕ) : MessageDb.ReplaceOptions where
  contentBlocks := blocks
  linkPreviews := none
  mediaIds := some mediaIds
  isTerminalAgentReply := some false

/-- The record of the write, in the same transaction as the message row. -/
def record (request : TimelineRequest τ) (content : String) (blocks : Option String)
    (rowId : ℕ) : TimelineMutation τ :=
  .wrote { s with committed := s.committed ++ [⟨request.writeRow rowId, request, content, blocks⟩] }
    (writeFromRow (request.writeRow rowId))

/-- A new message row, its media, and the record. `none` is a throw. -/
def insertMessage (request : TimelineRequest τ) (content : String) (blocks : Option String) :
    Option (TimelineMutation τ) :=
  let chatted := s.ensureChat request.chatJid request.writtenAt
  match chatted.db.storeMessageInDatabase platform (request.message content blocks) with
  | none => none
  | some (stored, rowId) =>
    if request.mediaIds = [] then
      some (({ chatted with db := stored } : TimelineStore τ).record request content blocks rowId)
    else
      (stored.replaceMessageContentInDatabase platform request.chatJid rowId content
        (replaceOptions blocks request.mediaIds)).map fun db =>
          ({ chatted with db := db } : TimelineStore τ).record request content blocks rowId

def replaceDraft (request : CommitDraftRequest τ) (content : String) (blocks : Option String)
    (latest : Option (TimelineWriteRow τ)) : TimelineMutation τ :=
  match request.existingRowId, latest with
  | some rowId, some latest =>
    if rowId = 0 ∨ latest.messageRowid ≠ rowId then .refused .rowOwnerConflict
    else match s.db.findRow rowId with
      | none => .refused .rowNotFound
      | some current =>
        if current.chatJid ≠ request.chatJid ∨ current.threadId ≠ request.threadId ∨
            current.isTerminalAgentReply = true then .refused .rowOwnerConflict
        else match s.db.replaceMessageContentInDatabase platform request.chatJid rowId content
            (replaceOptions blocks request.mediaIds) with
          | none => .refused .rowNotFound
          | some db =>
            ({ s with db := db } : TimelineStore τ).record (.draft request) content blocks rowId
  | _, _ => .refused .rowOwnerConflict

/-- The body of the `commitDraft` transaction behind its checks for replays. -/
def writeDraft (request : CommitDraftRequest τ) (content : String) (blocks : Option String) :
    Option (TimelineMutation τ) :=
  let latest := s.latestDraft request.effect.operationId request.draftKind
  if latest.any fun row => decide (request.revision ≤ row.subject.revision.getD (-1)) then
    some (.refused .staleRevision)
  else if !s.mediaAreDraftOwned request.effect.operationId request.mediaIds then
    some (.refused .missingMedia)
  else match request.mode with
    | .replace => some (s.replaceDraft platform request content blocks latest)
    | .insert =>
      if request.existingRowId.isSome || latest.isSome then some (.refused .rowOwnerConflict)
      else s.insertMessage platform (.draft request) content blocks

def transact (request : TimelineRequest τ) (content : String) (blocks : Option String) :
    Option (TimelineMutation τ) :=
  match s.findByKey request.idempotencyKey with
  | some row => some (.replayed (replayOrConflict request.requestHash row))
  | none =>
    match s.findSubject request.subject with
    | some row => some (.replayed (replayOrConflict request.requestHash row))
    | none =>
      match request with
      | .draft request => s.writeDraft platform request content blocks
      | .notice _ => s.insertMessage platform request content blocks

end Transactions

section Steps
variable [LinearOrder τ] (platform : MessagePlatform τ)
  (hashCanonicalRequest : TimelineRequest τ → String)

/-- What a call answers before it waits, or `none` where it waits for its payloads. -/
def precheck (s : TimelineStore τ) (request : TimelineRequest τ) (fault : Option SubmitFault) :
    Option (TimelineAnswer τ) :=
  if request.requestHash ≠ hashCanonicalRequest request then some (failure .idempotencyConflict)
  else if fault = some .beforeEffect then
    some (.error ⟨.storageUnavailable, .notApplied, true⟩)
  else if fault = some .readFailed then some unknown
  else match s.findByKey request.idempotencyKey <|> s.findSubject request.subject with
    | some row => some (replayOrConflict request.requestHash row)
    | none => if request.hasValidRevision then none else some (failure .staleRevision)

/-- The call has its answer. -/
def answered (s : TimelineStore τ) (call : ℕ) (answer : TimelineAnswer τ) :
    TimelineStore τ × Option (ℕ × TimelineAnswer τ) :=
  ({ s with pending := Function.update s.pending call none }, some (call, answer))

def step (s : TimelineStore τ) :
    TimelineEvent τ → TimelineStore τ × Option (ℕ × TimelineAnswer τ)
  | .submit request fault =>
    let s' : TimelineStore τ := { s with nextCall := s.nextCall + 1 }
    match s.precheck hashCanonicalRequest request fault with
    | some answer => s'.answered s.nextCall answer
    | none =>
      ({ s' with pending := Function.update s.pending s.nextCall (some ⟨request, none⟩) }, none)
  | .resolved call content blocks =>
    match s.pending call with
    | some ⟨request, none⟩ =>
      match resolveTimelinePayloads request.contentBlocksRef content blocks with
      | .error tag => s.answered call (failure tag)
      | .ok resolved =>
        ({ s with pending := Function.update s.pending call (some ⟨request, some resolved⟩) }, none)
    | _ => (s, none)
  | .admitted call lostAcknowledgement =>
    match s.pending call with
    | some ⟨request, some (content, blocks)⟩ =>
      match s.transact platform request content blocks with
      | none => s.answered call unknown
      | some (.replayed answer) => s.answered call answer
      | some (.refused tag) => s.answered call (failure tag)
      | some (.wrote s' write) =>
        s'.answered call (if lostAcknowledgement then unknown else .ok write)
    | _ => (s, none)
  | .failed call =>
    match s.pending call with
    | some _ => s.answered call unknown
    | none => (s, none)
  | .own draftMedia => ({ s with draftMedia := draftMedia }, none)

def run (s : TimelineStore τ) (events : List (TimelineEvent τ)) : TimelineStore τ :=
  events.foldl (fun s event => (step platform hashCanonicalRequest s event).1) s

end Steps

/-- No writes yet beside the messages of others. -/
def opened (db : MessageDb τ) : TimelineStore τ where
  db := db
  chats _ := none
  committed := []
  draftMedia := []
  nextCall := 0
  pending _ := none

end TimelineStore
end Piclaw
