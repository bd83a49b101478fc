import Piclaw.WorkHost

/-!
# The EF-S02 terminal settlement

One transaction closes every source of an operation, terminalises the operation, moves the
consumed frontier of its chat, releases the chat and records the commit. The timeline, the media
and the outbox belong to a `SettlementHost`. `workStep` is the accepted work of one process as a
system: the mutations and host calls of EF-S01 and the commits of EF-S02, in any order.
-/

namespace Piclaw
open Relational
variable {δ Ω : Type}

section Requests

structure SourceDisposition where
  sourceSeq : PositiveInteger
  state : AcceptedSourceState
  reason : Text
  deriving DecidableEq

inductive TerminalTimelineWrite where
  | none (chatJid : Text)
  | insert (chatJid contentRef : Text) (threadId : Option PositiveInteger)
      (mediaIds : List PositiveInteger) (contentBlocksRef : Option Text)
  | replacePlaceholder (placeholderRowId : PositiveInteger) (chatJid contentRef : Text)
      (threadId : Option PositiveInteger) (mediaIds : List PositiveInteger)
      (contentBlocksRef : Option Text)
  deriving DecidableEq

def TerminalTimelineWrite.chatJid : TerminalTimelineWrite → Text
  | .none chatJid => chatJid
  | .insert chatJid .. => chatJid
  | .replacePlaceholder _ chatJid .. => chatJid

def TerminalTimelineWrite.mediaIds : TerminalTimelineWrite → List PositiveInteger
  | .none _ => []
  | .insert _ _ _ mediaIds _ => mediaIds
  | .replacePlaceholder _ _ _ _ mediaIds _ => mediaIds

def TerminalTimelineWrite.replaces : TerminalTimelineWrite → Bool
  | .replacePlaceholder .. => true
  | _ => false

structure CommitTerminalRequest (δ : Type) where
  effect : OperationEffect δ
  expectedChatJid : Text
  expectedVersion : PositiveInteger
  expectedHarness : Option HarnessCorrelation
  disposition : PiclawDisposition
  errorCode : Option DiagnosticTag
  terminalAuthorityRef : Option Text
  timeline : TerminalTimelineWrite
  sourceDispositions : List SourceDisposition
  outboxIntents : List (EnqueueFields δ)
  committedAt : Instant
  deriving DecidableEq

inductive SettlementErrorTag where
  | invalidRequest
  | notFound
  | ownerConflict
  | versionMismatch
  | invalidSourceDisposition
  | missingMedia
  | idempotencyConflict
  | alreadyTerminalConflict
  | corruptState
  | storageUnavailable
  deriving DecidableEq

inductive SettlementFault where
  | abort (tag : SettlementErrorTag)
  | corruptState
  | rollback
  deriving DecidableEq

structure TerminalCommit where
  operationId : Text
  operationVersion : ℕ
  disposition : PiclawDisposition
  messageRowId : Option PositiveInteger
  consumedThroughSourceSeq : ℕ
  outboxIds : List (BoundedText 512)
  committedAt : Instant
  deriving DecidableEq

def validDispositionFields (request : CommitTerminalRequest δ) : Bool :=
  ((decide (request.disposition = .skipped) || decide (request.disposition = .superseded)) ==
    request.terminalAuthorityRef.isSome) &&
    ((decide (request.disposition = .failed)) == request.errorCode.isSome)

/-- What the normaliser asks of a request beyond its types. -/
def normalisedCommit [DecidableEq δ] (commitHash : CommitTerminalRequest δ → δ)
    (request : CommitTerminalRequest δ) : Bool :=
  decide (request.expectedVersion.1 < maxSafeInteger) &&
    decide (request.sourceDispositions ≠ []) &&
    decide (request.sourceDispositions.length ≤ 1000) &&
    decide ((request.sourceDispositions.map fun d => d.sourceSeq.1).Pairwise (· < ·)) &&
    request.sourceDispositions.all (fun d =>
      decide (d.state = .consumed) || decide (d.state = .disposed)) &&
    decide (request.timeline.mediaIds.length ≤ 100) && decide request.timeline.mediaIds.Nodup &&
    decide (request.outboxIntents.length ≤ 100) &&
    decide (request.outboxIntents.map EnqueueFields.outboxId).Nodup &&
    decide (request.outboxIntents.map fun r => (r.kind, r.effect.idempotencyKey)).Nodup &&
    request.outboxIntents.all (fun r => decide (r.enqueuedAt = request.committedAt) &&
      !decide (r.availableAt < r.enqueuedAt)) &&
    validDispositionFields request && decide (commitHash request = request.effect.requestHash)

end Requests

section Tables

structure CommitRow (δ : Type) where
  idempotencyKey : Text
  requestHash : δ
  operationId : Text
  chatJid : Text
  operationVersion : ℕ
  disposition : PiclawDisposition
  messageRowId : Option PositiveInteger
  consumedThroughSourceSeq : ℕ
  outboxCount : ℕ
  mediaCount : ℕ
  committedAt : Instant
  terminalAuthorityPresent : Bool
  deriving DecidableEq

structure CommitOutboxRow where
  operationId : Text
  ordinal : ℕ
  outboxId : BoundedText 512
  deriving DecidableEq

def commitSchema (δ : Type) : Schema (CommitRow δ) Text Text where
  key r := r.idempotencyKey
  unique r := some r.operationId
  check r := 2 ≤ r.operationVersion ∧ r.operationVersion ≤ maxSafeInteger ∧
    r.consumedThroughSourceSeq ≤ maxSafeInteger ∧ r.outboxCount ≤ 100 ∧ r.mediaCount ≤ 100
  decidableCheck := inferInstance

def commitOutboxSchema : Schema CommitOutboxRow (Text × ℕ) (BoundedText 512) where
  key r := (r.operationId, r.ordinal)
  unique r := some r.outboxId
  check r := r.ordinal ≤ 99
  decidableCheck := inferInstance

/-- The tables of EF-S01 and EF-S02, and what the host keeps beside them. -/
structure SettlementState (δ Ω : Type) extends WorkTables δ where
  commits : Table (commitSchema δ)
  commitOutbox : Table commitOutboxSchema
  host : Ω

def SettlementState.initial (host : Ω) : SettlementState δ Ω where
  toWorkTables := WorkTables.empty δ
  commits := Table.empty _
  commitOutbox := Table.empty _
  host := host

/-- The timeline, media and outbox of one database. -/
structure SettlementHost (δ Ω : Type) where
  commitHash : CommitTerminalRequest δ → δ
  commitIntact : Ω → CommitRow δ → Bool
  mediaBound : Ω → Text → PositiveInteger → Bool
  latestDraft : Ω → Text → Option Instant
  writeTimeline : Ω → CommitTerminalRequest δ → Except SettlementFault (Option PositiveInteger × Ω)
  insertOutbox : Ω → EnqueueFields δ → Except SettlementFault Ω
  terminalEffects : Ω → TerminalCommit → Except SettlementFault Ω

structure SettlementRuntime where
  beforeEffect : Bool
  resolved : Option SettlementErrorTag
  owned : Text → Bool
  ownedAfter : Text → Bool
  lostAcknowledgement : Bool

def demand (condition : Bool) (fault : SettlementFault) : Except SettlementFault Unit :=
  if condition then .ok () else .error fault

theorem demand_bind_eq_ok {α : Type} {condition : Bool} {fault : SettlementFault}
    {f : Unit → Except SettlementFault α} {a : α} :
    (demand condition fault >>= f) = .ok a ↔ condition = true ∧ f () = .ok a := by
  cases condition with
  | true => simp [demand, ok_bind]
  | false =>
    constructor
    · intro h
      cases h
    · rintro ⟨h, -⟩
      cases h

end Tables

section Apply
variable (H : SettlementHost δ Ω)

def readOperation (s : WorkTables δ) (operationId : Text) :
    Except SettlementFault (OperationRow × ChatRow) :=
  match s.operations.find? operationId with
  | none => .error (.abort .notFound)
  | some operation =>
    match s.chats.find? operation.chatJid with
    | none => .error (.abort .notFound)
    | some chat =>
      if operation.version ≤ maxSafeInteger ∧ chat.consumedThroughSourceSeq ≤ maxSafeInteger ∧
          chat.nextSourceSeq ≤ maxSafeInteger then .ok (operation, chat)
      else .error .corruptState

def dispositionAllowed (request : CommitTerminalRequest δ) (operation : OperationRow) : Bool :=
  match request.disposition with
  | .completed => decide (operation.phase = .settling) && operation.cancellation.isNone &&
      request.errorCode.isNone
  | .cancelled => operation.cancellation.isSome &&
      (decide (operation.phase = .cancelling) || decide (operation.phase = .settling)) &&
      request.errorCode.isNone
  | .failed => operation.cancellation.isNone && request.errorCode.isSome &&
      decide (operation.phase ∈ [.executing, .suspended, .cancelling, .settling])
  | .skipped => operation.cancellation.isNone && request.errorCode.isNone &&
      request.terminalAuthorityRef.isSome &&
      (decide (operation.phase = .claimed) || decide (operation.phase = .startingHarness)) &&
      operation.harness.all (fun h => h.harnessOperationId.isNone)
  | .superseded => operation.cancellation.isNone && request.errorCode.isNone &&
      request.terminalAuthorityRef.isSome &&
      decide (operation.phase ∈ [.claimed, .startingHarness, .suspended])

def authoriseOperation (request : CommitTerminalRequest δ) (operation : OperationRow)
    (chat : ChatRow) : Except SettlementFault Unit := do
  demand (decide (operation.chatJid = request.expectedChatJid)) (.abort .ownerConflict)
  demand (decide (operation.version = request.expectedVersion.1)) (.abort .versionMismatch)
  demand (decide (operation.phase ≠ .terminal) && operation.terminal.isNone) .corruptState
  demand (decide (chat.activeOperationId = some operation.operationId)) (.abort .ownerConflict)
  demand (decide (operation.harness = request.expectedHarness)) (.abort .ownerConflict)
  demand (decide (request.timeline.chatJid = operation.chatJid)) (.abort .ownerConflict)
  demand (dispositionAllowed request operation) (.abort .ownerConflict)

def memberSources (s : WorkTables δ) (operation : OperationRow) : List (SourceRow δ) :=
  s.sources.rows.filter fun r => decide (r.chatJid = operation.chatJid) &&
    s.operationSources.rows.any fun m =>
      decide (m.operationId = operation.operationId) && decide (m.sourceSeq = r.sourceSeq)

def validateTemporalAuthority (request : CommitTerminalRequest δ) (operation : OperationRow)
    (s : SettlementState δ Ω) : Except SettlementFault Unit :=
  demand ((memberSources s.toWorkTables operation).all (fun r =>
      !decide (request.committedAt < r.acceptedAt)) &&
    (!request.timeline.replaces ||
      (H.latestDraft s.host operation.operationId).all (fun at' =>
        !decide (request.committedAt < at'))) &&
    operation.cancellation.all (fun c => !decide (request.committedAt < c.requestedAt)))
    (.abort .ownerConflict)

def validateOutboxAuthority (request : CommitTerminalRequest δ) (operation : OperationRow)
    (s : WorkTables δ) : Except SettlementFault Unit :=
  let sources := (s.operationSources.rows.filter fun m =>
    decide (m.operationId = operation.operationId)).map OperationSourceRow.sourceSeq
  demand (request.effect.sourceSeq.all (fun n => decide (n.1 ∈ sources)) &&
    request.outboxIntents.all fun intent =>
      decide (intent.effect.operationId.map Subtype.val = some operation.operationId.1) &&
        intent.effect.sourceSeq.all (fun n => decide (n.1 ∈ sources))) (.abort .ownerConflict)

/-- The members of an operation, in the order of their numbers. -/
def memberships (s : WorkTables δ) (operation : OperationRow) : List OperationSourceRow :=
  (s.operationSources.rows.filter fun m =>
    decide (m.operationId = operation.operationId)).insertionSort
      (fun a b => a.sourceSeq ≤ b.sourceSeq)

/-- A member that can be settled, with the state of its queued input. -/
def settleable (s : WorkTables δ) (m : OperationSourceRow) : Bool :=
  (s.sources.find? (m.chatJid, m.sourceSeq)).any fun source =>
    (decide (source.state = .claimed) &&
      (s.queuedInputs.find? (m.operationId, m.sourceSeq)).all (fun q =>
        decide (q.state = .accepted))) ||
    (decide (source.state = .queued) &&
      (s.queuedInputs.find? (m.operationId, m.sourceSeq)).any (fun q =>
        decide (q.state = .queued)))

def validateSources (request : CommitTerminalRequest δ) (operation : OperationRow)
    (s : WorkTables δ) : Except SettlementFault Unit := do
  let members := memberships s operation
  demand (decide (members ≠ []) && decide (members.map OperationSourceRow.sourceSeq =
    request.sourceDispositions.map fun d => d.sourceSeq.1)) (.abort .invalidSourceDisposition)
  demand (members.all (settleable s)) .corruptState

def validateMedia (request : CommitTerminalRequest δ) (host : Ω) : Except SettlementFault Unit :=
  demand (request.timeline.mediaIds.all (H.mediaBound host request.effect.operationId))
    (.abort .missingMedia)

def settleConstrained {α : Type} : Option α → Except SettlementFault α := require .rollback

def queueStateFor : AcceptedSourceState → QueuedInputState
  | .consumed => .consumed
  | _ => .disposed

def settleSource (operation : OperationRow) (d : SourceDisposition) (s : WorkTables δ) :
    Except SettlementFault (WorkTables δ) := do
  let member : OperationSourceRow := ⟨operation.chatJid, operation.operationId, d.sourceSeq.1⟩
  demand (s.operationSources.rows.any (fun m => decide (m = member)) && settleable s member)
    (.abort .invalidSourceDisposition)
  let (sources, settled) ← settleConstrained (s.sources.update?
    (fun r => decide (r.chatJid = operation.chatJid) && decide (r.sourceSeq = d.sourceSeq.1) &&
      (decide (r.state = .claimed) || decide (r.state = .queued)))
    (fun r => { r with state := d.state, dispositionReason := some d.reason }))
  demand (decide (settled = 1)) (.abort .invalidSourceDisposition)
  let (queuedInputs, queued) ← settleConstrained (s.queuedInputs.update?
    (fun q => decide (q.operationId = operation.operationId) &&
      decide (q.sourceSeq = d.sourceSeq.1) &&
      (decide (q.state = .accepted) || decide (q.state = .queued)))
    (fun q => { q with state := queueStateFor d.state }))
  demand (decide (queued = 1) ||
    (s.queuedInputs.find? (operation.operationId, d.sourceSeq.1)).isNone)
    (.abort .invalidSourceDisposition)
  .ok { s with sources := sources, queuedInputs := queuedInputs }

def settleSources (operation : OperationRow) :
    List SourceDisposition → WorkTables δ → Except SettlementFault (WorkTables δ)
  | [], s => .ok s
  | d :: ds, s => do
    let s ← settleSource operation d s
    settleSources operation ds s

def computeFrontier (chat : ChatRow) (s : WorkTables δ) : Except SettlementFault ℕ :=
  match computeClosedSourceFrontier s.toLedger chat.chatJid chat.consumedThroughSourceSeq
      chat.nextSourceSeq with
  | .ok frontier => .ok frontier
  | .error _ => .error .corruptState

def insertIntents (host : Ω) : List (EnqueueFields δ) → Except SettlementFault Ω
  | [] => .ok host
  | intent :: intents => do
    let host ← H.insertOutbox host intent
    insertIntents host intents

def linkOutbox (operationId : Text) : ℕ → List (EnqueueFields δ) → Table commitOutboxSchema →
    Except SettlementFault (Table commitOutboxSchema)
  | _, [], t => .ok t
  | ordinal, intent :: intents, t => do
    let t ← settleConstrained (t.insert? ⟨operationId, ordinal, intent.outboxId⟩)
    linkOutbox operationId (ordinal + 1) intents t

def terminalise (request : CommitTerminalRequest δ) (operation : OperationRow)
    (messageRowId : Option PositiveInteger) (s : WorkTables δ) :
    Except SettlementFault (WorkTables δ) := do
  let (operations, terminalised) ← settleConstrained (s.operations.update?
    (fun r => decide (r.operationId = operation.operationId) &&
      decide (r.chatJid = operation.chatJid) && decide (r.version = operation.version) &&
      decide (r.phase = operation.phase) && r.terminal.isNone)
    (fun r => { r with
      version := operation.version + 1
      phase := .terminal
      terminal := some ⟨request.disposition, messageRowId, request.errorCode,
        request.committedAt⟩ }))
  demand (decide (terminalised = 1)) (.abort .versionMismatch)
  .ok { s with operations := operations }

/-- The frontier moves and the chat is free for its next operation. -/
def releaseOwner (operation : OperationRow) (chat : ChatRow) (frontier : ℕ) (s : WorkTables δ) :
    Except SettlementFault (WorkTables δ) := do
  let (chats, released) ← settleConstrained (s.chats.update?
    (fun r => decide (r.chatJid = operation.chatJid) &&
      decide (r.consumedThroughSourceSeq = chat.consumedThroughSourceSeq) &&
      decide (r.activeOperationId = some operation.operationId))
    (fun r => { r with consumedThroughSourceSeq := frontier, activeOperationId := none }))
  demand (decide (released = 1)) (.abort .ownerConflict)
  .ok { s with chats := chats }

def commitOf (request : CommitTerminalRequest δ) (operation : OperationRow)
    (messageRowId : Option PositiveInteger) (frontier : ℕ) : TerminalCommit where
  operationId := operation.operationId
  operationVersion := operation.version + 1
  disposition := request.disposition
  messageRowId := messageRowId
  consumedThroughSourceSeq := frontier
  outboxIds := request.outboxIntents.map EnqueueFields.outboxId
  committedAt := request.committedAt

def commitRowOf (request : CommitTerminalRequest δ) (operation : OperationRow)
    (commit : TerminalCommit) : CommitRow δ where
  idempotencyKey := request.effect.idempotencyKey
  requestHash := request.effect.requestHash
  operationId := operation.operationId
  chatJid := operation.chatJid
  operationVersion := commit.operationVersion
  disposition := request.disposition
  messageRowId := commit.messageRowId
  consumedThroughSourceSeq := commit.consumedThroughSourceSeq
  outboxCount := request.outboxIntents.length
  mediaCount := request.timeline.mediaIds.length
  committedAt := request.committedAt
  terminalAuthorityPresent := request.terminalAuthorityRef.isSome

def applySettlement (request : CommitTerminalRequest δ) (s : SettlementState δ Ω) :
    Except SettlementFault (TerminalCommit × SettlementState δ Ω) := do
  let (operation, chat) ← readOperation s.toWorkTables request.effect.operationId
  authoriseOperation request operation chat
  validateTemporalAuthority H request operation s
  validateOutboxAuthority request operation s.toWorkTables
  validateSources request operation s.toWorkTables
  validateMedia H request s.host
  let (messageRowId, host) ← H.writeTimeline s.host request
  let work ← settleSources operation request.sourceDispositions s.toWorkTables
  let frontier ← computeFrontier chat work
  let work ← terminalise request operation messageRowId work
  let work ← releaseOwner operation chat frontier work
  let host ← insertIntents H host request.outboxIntents
  let commit := commitOf request operation messageRowId frontier
  let commits ← settleConstrained (s.commits.insert? (commitRowOf request operation commit))
  let commitOutbox ← linkOutbox operation.operationId 0 request.outboxIntents s.commitOutbox
  .ok (commit, ⟨work, commits, commitOutbox, host⟩)

end Apply

section Commit
variable [DecidableEq δ] (H : SettlementHost δ Ω)

def outboxIdsOf (s : SettlementState δ Ω) (operationId : Text) : List (BoundedText 512) :=
  ((s.commitOutbox.rows.filter fun r => decide (r.operationId = operationId)).insertionSort
    (fun a b => a.ordinal ≤ b.ordinal)).map CommitOutboxRow.outboxId

def materialiseCommit (s : SettlementState δ Ω) (row : CommitRow δ) :
    Except SettlementFault TerminalCommit := do
  demand (decide ((outboxIdsOf s row.operationId).length = row.outboxCount) &&
    H.commitIntact s.host row) .corruptState
  .ok ⟨row.operationId, row.operationVersion, row.disposition, row.messageRowId,
    row.consumedThroughSourceSeq, outboxIdsOf s row.operationId, row.committedAt⟩

/-- The commit that an earlier request has already stored, or the conflict with it. -/
def reconcile (request : CommitTerminalRequest δ) (s : SettlementState δ Ω) :
    Except SettlementFault (Option TerminalCommit) :=
  match s.commits.find? request.effect.idempotencyKey with
  | some row => do
    let commit ← materialiseCommit H s row
    demand (decide (row.requestHash = request.effect.requestHash) &&
      decide (commit.operationId = request.effect.operationId)) (.abort .idempotencyConflict)
    .ok (some commit)
  | none =>
    match s.commits.rows.find? fun r => decide (r.operationId = request.effect.operationId) with
    | none => .ok none
    | some row => do
      let _ ← materialiseCommit H s row
      .error (.abort .alreadyTerminalConflict)

def commitWithinTransaction (runtime : SettlementRuntime) (request : CommitTerminalRequest δ)
    (s : SettlementState δ Ω) : Except SettlementFault (TerminalCommit × SettlementState δ Ω) := do
  match ← reconcile H request s with
  | some commit => .ok (commit, s)
  | none => do
    demand (runtime.owned request.effect.operationId) (.abort .ownerConflict)
    let (commit, t) ← applySettlement H request s
    let host ← H.terminalEffects t.host commit
    demand (runtime.ownedAfter request.effect.operationId) (.abort .ownerConflict)
    .ok (commit, { t with host := host })

def faultTag : SettlementFault → SettlementErrorTag
  | .abort tag => tag
  | .corruptState => .corruptState
  | .rollback => .storageUnavailable

/-- One `commitTerminal`. A request that the normaliser rejects is `none`. -/
def commitTerminal (runtime : SettlementRuntime) (request : Option (CommitTerminalRequest δ))
    (s : SettlementState δ Ω) : Except SettlementErrorTag TerminalCommit × SettlementState δ Ω :=
  match request with
  | none => (.error .invalidRequest, s)
  | some request =>
    if !normalisedCommit H.commitHash request then (.error .invalidRequest, s)
    else
      match reconcile H request s with
      | .error fault => (.error (faultTag fault), s)
      | .ok (some commit) => (.ok commit, s)
      | .ok none =>
        if runtime.beforeEffect then (.error .storageUnavailable, s)
        else
          match runtime.resolved with
          | some tag => (.error tag, s)
          | none =>
            match commitWithinTransaction H runtime request s with
            | .error fault => (.error (faultTag fault), s)
            | .ok (commit, t) =>
              if runtime.lostAcknowledgement then (.error .storageUnavailable, t)
              else (.ok commit, t)

end Commit

section Calls
variable [DecidableEq δ] (P : Platform δ) (H : SettlementHost δ Ω)

inductive WorkCall where
  | mutate (runtime : WorkAdapterRuntime) (request : Option (SealedMutation P))
  | host (runtime : WorkAdapterRuntime) (call : Option (HostCall P))
  | settle (runtime : SettlementRuntime) (request : Option (CommitTerminalRequest δ))

def workStep (s : SettlementState δ Ω) : WorkCall P → SettlementState δ Ω
  | .mutate runtime request =>
    { s with toWorkTables := (mutateWork P runtime request s.toWorkTables).2 }
  | .host runtime call =>
    { s with toWorkTables := (hostTransaction P runtime call s.toWorkTables).2 }
  | .settle runtime request => (commitTerminal H runtime request s).2

end Calls

section Samples

/-- A host without a timeline, media or an outbox. -/
def silentHost : SettlementHost OpenDigest Unit where
  commitHash _ := .text "commit"
  commitIntact _ _ := true
  mediaBound _ _ _ := true
  latestDraft _ _ := none
  writeTimeline _ _ := .ok (none, ())
  insertOutbox _ _ := .ok ()
  terminalEffects _ _ := .ok ()

def sampleChat : Text := ⟨"chat-1", by decide⟩
def sampleOwner : Text := ⟨"operation-1", by decide⟩
def sampleNextOwner : Text := ⟨"operation-2", by decide⟩
def sampleMessage : Text := ⟨"message-1", by decide⟩
def sampleCancellation : Text := ⟨"cancellation-1", by decide⟩
def sampleSkipKey : Text := ⟨"skip-1", by decide⟩
def sampleProvenance : Text := ⟨"host", by decide⟩

def sampleAccept (sourceId : Text) (kind : AcceptedSourceKind) (target : Option Text)
    (requestHash : OpenDigest) : AcceptSourceRequest OpenDigest where
  effect := ⟨sourceId, requestHash, none, none, sampleProvenance, .privateClass⟩
  chatJid := sampleChat
  sourceId := sourceId
  kind := kind
  payloadRef := sampleProvenance
  targetOperationId := target
  parentSourceSeq := none
  acceptedAt := sampleOpening
  createWakeIntent := false

def sampleAcceptance (sourceId : Text) (kind : AcceptedSourceKind) (target : Option Text) :
    WorkCall openPlatform :=
  .mutate .faultFree (some ⟨.acceptSource (sampleAccept sourceId kind target
    (hashCanonicalRequest openPlatform (sampleAccept sourceId kind target (.text "")).json)), rfl⟩)

def sampleNext (operationId : Text) (frontier : SafeNatural) (requestHash : OpenDigest) :
    ClaimNextSourceRequest OpenDigest where
  effect := ⟨operationId, requestHash, none, none, sampleProvenance, .privateClass⟩
  chatJid := sampleChat
  expectedFrontier := frontier
  newOperationId := operationId
  claimedAt := sampleOpening

def sampleTaken (operationId : Text) (frontier : SafeNatural) : WorkCall openPlatform :=
  .mutate .faultFree (some ⟨.claimNext (sampleNext operationId frontier
    (hashCanonicalRequest openPlatform (sampleNext operationId frontier (.text "")).json)), rfl⟩)

/-- The first operation is skipped with its only source. -/
def sampleSkipped : WorkCall openPlatform :=
  .settle ⟨false, none, fun _ => true, fun _ => true, false⟩ (some
    { effect := ⟨sampleSkipKey, .text "commit", sampleOwner, none, sampleProvenance, .privateClass⟩
      expectedChatJid := sampleChat
      expectedVersion := sampleFirstAttempt
      expectedHarness := none
      disposition := .skipped
      errorCode := none
      terminalAuthorityRef := some sampleProvenance
      timeline := .none sampleChat
      sourceDispositions := [⟨sampleFirstAttempt, .consumed, sampleProvenance⟩]
      outboxIntents := []
      committedAt := sampleOpening })

def zeroFrontier : SafeNatural := ⟨0, Nat.zero_le _⟩
def firstFrontier : SafeNatural := ⟨1, sampleFirstAttempt.2.2⟩

/-- A cancellation is accepted for an operation that settles before it is cancelled. -/
def settledBeforeCancelled : List (WorkCall openPlatform) :=
  [sampleAcceptance sampleMessage .message none, sampleTaken sampleOwner zeroFrontier,
    sampleAcceptance sampleCancellation .cancellation (some sampleOwner), sampleSkipped]

end Samples

end Piclaw
