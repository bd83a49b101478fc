import Piclaw.WorkRequests
import Piclaw.OutboxStore
import Piclaw.ClosedPrefix

/-!
# The EF-S01 work store

Each mutation runs in one SQL transaction. An apply function returns an outcome together with the
tables it leaves: a rejection commits the statements executed before it, a thrown fault rolls
everything back. A mutation whose decision is already stored is answered from that decision.

`WorkAdapterRuntime` holds what the hooks of one call report: the injected faults, the process
admission, the writer fence and the queue order of the host.
-/

namespace Piclaw
open Relational
variable {δ : Type} [DecidableEq δ] {P : Platform δ}

/-- What a transaction can throw. -/
inductive WorkFault where
  | corruptState
  | constraint
  | ownership
  | rollback
  | process
  | admission (tag : ServiceWorkErrorTag)
  deriving DecidableEq

/-- The places where the writer fence is consulted. -/
inductive FencePoint where
  | before (method : WorkMethod)
  | after (method : WorkMethod)
  | entry
  | exit
  deriving DecidableEq

structure WorkAdapterRuntime where
  beforeEffect : WorkMethod → FaultObservation
  lostAcknowledgement : Bool
  admitsProcess : Bool
  validateAcceptance : Option (FencePoint → Bool)
  pendingQueuedSourceOrder : Option (List Text)

def WorkAdapterRuntime.faultFree : WorkAdapterRuntime where
  beforeEffect _ := .clear
  lostAcknowledgement := false
  admitsProcess := true
  validateAcceptance := none
  pendingQueuedSourceOrder := none

abbrev WorkOutcome := Except ServiceWorkError (WorkValue × Bool)
abbrev WorkAnswered (δ : Type) := WorkOutcome × WorkTables δ

def applied (value : WorkValue) (duplicate : Bool) (s : WorkTables δ) :
    Except WorkFault (WorkAnswered δ) :=
  .ok (.ok (value, duplicate), s)

def rejected (error : ServiceWorkError) (s : WorkTables δ) : Except WorkFault (WorkAnswered δ) :=
  .ok (.error error, s)

/-- A rejection that names the operation in the way. -/
def conflicting (operationId : Text) : ServiceWorkError :=
  { serviceError .ownerConflict with conflictingOperationId := some operationId }

def versionMismatch (version : ℕ) : ServiceWorkError :=
  { serviceError .versionMismatch with observedVersion := some version }

def frontierMismatch (frontier : ℕ) : ServiceWorkError :=
  { serviceError .frontierMismatch with observedFrontier := some frontier }

section Reads

def requiredInteger (n minimum : ℕ) : Except WorkFault ℕ :=
  if minimum ≤ n ∧ n ≤ maxSafeInteger then .ok n else .error .corruptState

def chatRow (s : WorkTables δ) (chatJid : Text) : Except WorkFault ChatRow := do
  match s.chats.find? chatJid with
  | none => .error .corruptState
  | some chat =>
    let _ ← requiredInteger chat.nextSourceSeq 1
    let _ ← requiredInteger chat.consumedThroughSourceSeq 0
    .ok chat

def sourceRow (s : WorkTables δ) (chatJid : Text) (sourceSeq : ℕ) : Option (SourceRow δ) :=
  s.sources.find? (chatJid, sourceSeq)

def requireSourceRow (s : WorkTables δ) (chatJid : Text) (sourceSeq : ℕ) :
    Except WorkFault (SourceRow δ) :=
  require .corruptState (sourceRow s chatJid sourceSeq)

/-- The source with an identifier of its own chat. -/
def sourceById (s : WorkTables δ) (chatJid sourceId : Text) : Option (SourceRow δ) :=
  s.sources.rows.find? fun r => decide (r.chatJid = chatJid) && decide (r.sourceId = sourceId)

def operationRow (s : WorkTables δ) (operationId : Text) :
    Except WorkFault (Option OperationRow) := do
  match s.operations.find? operationId with
  | none => .ok none
  | some row =>
    let _ ← requiredInteger row.version 1
    .ok (some row)

def requireOperationRow (s : WorkTables δ) (operationId : Text) :
    Except WorkFault OperationRow := do
  match ← operationRow s operationId with
  | none => .error .corruptState
  | some row => .ok row

def sourceSnapshot (row : SourceRow δ) (state : AcceptedSourceState) : AcceptedSourceSnapshot where
  chatJid := row.chatJid
  sourceSeq := row.sourceSeq
  sourceId := row.sourceId
  kind := row.kind
  state := state
  payloadRef := row.payloadRef
  targetOperationId := row.targetOperationId
  parentSourceSeq := row.parentSourceSeq
  acceptedAt := row.acceptedAt
  dispositionReason := row.dispositionReason
  provenanceRef := row.provenanceRef

/-- The members of an operation in sequence order. -/
def memberSeqs (s : Ledger δ) (operationId : Text) : List ℕ :=
  ((s.operationSources.rows.filter fun r => decide (r.operationId = operationId)).map
    fun r => r.sourceSeq).insertionSort (· ≤ ·)

def snapshotOf (row : OperationRow) (claimedSourceSeqs : List ℕ) : OperationSnapshot where
  operationId := row.operationId
  chatJid := row.chatJid
  version := row.version
  phase := row.phase
  primarySourceSeq := row.primarySourceSeq
  claimedSourceSeqs := claimedSourceSeqs
  cancellation := row.cancellation.map fun c => ⟨c.sourceSeq, c.cause, c.requestedAt⟩
  harness := row.harness
  terminal := row.terminal

def requireOperationSnapshot (s : WorkTables δ) (operationId : Text) :
    Except WorkFault OperationSnapshot := do
  let row ← requireOperationRow s operationId
  .ok (snapshotOf row (memberSeqs s.toLedger operationId))

end Reads

section Statements

def workConstrained {α : Type} : Option α → Except WorkFault α := require .constraint

def insertSource (s : WorkTables δ) (row : SourceRow δ) : Except WorkFault (WorkTables δ) := do
  let sources ← workConstrained (s.sources.insert? row)
  .ok { s with sources := sources }

def updateSources (s : WorkTables δ) (p : SourceRow δ → Bool) (f : SourceRow δ → SourceRow δ) :
    Except WorkFault (WorkTables δ × ℕ) := do
  let (sources, changes) ← workConstrained (s.sources.update? p f)
  .ok ({ s with sources := sources }, changes)

def updateChats (s : WorkTables δ) (p : ChatRow → Bool) (f : ChatRow → ChatRow) :
    Except WorkFault (WorkTables δ × ℕ) := do
  let (chats, changes) ← workConstrained (s.chats.update? p f)
  .ok ({ s with chats := chats }, changes)

def insertOperation (s : WorkTables δ) (row : OperationRow) : Except WorkFault (WorkTables δ) := do
  let operations ← workConstrained (s.operations.insert? row)
  .ok { s with operations := operations }

def updateOperations (s : WorkTables δ) (p : OperationRow → Bool)
    (f : OperationRow → OperationRow) : Except WorkFault (WorkTables δ × ℕ) := do
  let (operations, changes) ← workConstrained (s.operations.update? p f)
  .ok ({ s with operations := operations }, changes)

def insertOperationSource (s : WorkTables δ) (row : OperationSourceRow) :
    Except WorkFault (WorkTables δ) := do
  let operationSources ← workConstrained (s.operationSources.insert? row)
  .ok { s with operationSources := operationSources }

def insertQueuedInput (s : WorkTables δ) (row : QueuedInputRow) :
    Except WorkFault (WorkTables δ) := do
  let queuedInputs ← workConstrained (s.queuedInputs.insert? row)
  .ok { s with queuedInputs := queuedInputs }

def updateQueuedInputs (s : WorkTables δ) (p : QueuedInputRow → Bool)
    (f : QueuedInputRow → QueuedInputRow) : Except WorkFault (WorkTables δ × ℕ) := do
  let (queuedInputs, changes) ← workConstrained (s.queuedInputs.update? p f)
  .ok ({ s with queuedInputs := queuedInputs }, changes)

def insertIntent (s : WorkTables δ) (row : IntentRow δ) : Except WorkFault (WorkTables δ) := do
  let intents ← workConstrained (s.intents.insert? row)
  .ok { s with intents := intents }

def insertWakeIntent (s : WorkTables δ) (row : WakeIntentRow) :
    Except WorkFault (WorkTables δ) := do
  let wakeIntents ← workConstrained (s.wakeIntents.insert? row)
  .ok { s with wakeIntents := wakeIntents }

/-- `INSERT OR IGNORE` of a chat that has accepted nothing. -/
def ensureChat (s : WorkTables δ) (chatJid : Text) : Except WorkFault (WorkTables δ) := do
  if (s.chats.find? chatJid).isSome then .ok s
  else
    let chats ← workConstrained (s.chats.insert? ⟨chatJid, 1, 0, none⟩)
    .ok { s with chats := chats }

def bumpVersion (s : WorkTables δ) (operationId : Text) (version : ℕ) :
    Except WorkFault (WorkTables δ × ℕ) :=
  updateOperations s
    (fun r => decide (r.operationId = operationId) && decide (r.version = version) &&
      decide (r.phase ≠ .terminal))
    (fun r => { r with version := r.version + 1 })

end Statements

section Decisions

def decisionForValue : WorkValue → StoredDecision
  | .nothing => .empty
  | .claimed source operation => .claim source.chatJid source.sourceSeq operation
  | .operation operation => .operation operation
  | .source source => .source source.chatJid source.sourceSeq source.state

/-- A stored operation was never terminal. -/
def normaliseStoredOperation (operation : OperationSnapshot) : Option OperationSnapshot :=
  if operation.terminal.isSome then none else some operation

def materialiseDecision (s : WorkTables δ) (method : WorkMethod) :
    StoredDecision → Option WorkValue
  | .empty => some .nothing
  | .operation operation => do
    let operation ← normaliseStoredOperation operation
    if method = .claimNext then
      let row ← sourceRow s operation.chatJid operation.primarySourceSeq
      some (.claimed (sourceSnapshot row .claimed) operation)
    else some (.operation operation)
  | .source chatJid sourceSeq state => do
    let row ← sourceRow s chatJid sourceSeq
    some (.source (sourceSnapshot row state))
  | .claim chatJid sourceSeq operation => do
    let operation ← normaliseStoredOperation operation
    let row ← sourceRow s chatJid sourceSeq
    some (.claimed (sourceSnapshot row .claimed) operation)

def readDecision (s : WorkTables δ) (method : WorkMethod) (key : Text) (requestHash : δ) :
    Option WorkOutcome :=
  match s.decisions.find? key with
  | none => none
  | some decision =>
    if decision.method ≠ method ∨ decision.requestHash ≠ requestHash then
      some (.error (serviceError .idempotencyConflict))
    else
      match materialiseDecision s method decision.result with
      | some value => some (.ok (value, true))
      | none => some (.error (serviceError .corruptState))

def writeWorkDecision (s : WorkTables δ) (method : WorkMethod) (key : Text) (requestHash : δ)
    (value : WorkValue) : Except WorkFault (WorkTables δ) := do
  let decisions ← workConstrained
    (s.decisions.insert? ⟨key, method, requestHash, decisionForValue value⟩)
  .ok { s with decisions := decisions }

end Decisions

section AcceptSource

def targetOpen (chatJid : Text) (target : Option OperationRow) : Bool :=
  target.any fun row => decide (row.chatJid = chatJid) && decide (row.phase ≠ .terminal)

def acceptedRow (P : Platform δ) (request : AcceptSourceRequest δ) (sourceSeq : ℕ) :
    SourceRow δ where
  chatJid := request.chatJid
  sourceSeq := sourceSeq
  sourceId := request.sourceId
  sourceHash := semanticSourceHash P request
  kind := request.kind
  state := .pending
  payloadRef := request.payloadRef
  targetOperationId := request.targetOperationId
  parentSourceSeq := request.parentSourceSeq.map fun n => n.1
  acceptedAt := request.acceptedAt
  dispositionReason := none
  provenanceRef := request.effect.provenanceRef
  createWakeIntent := request.createWakeIntent

/-- The statements that give a new source the next number of its chat. -/
def allocateSource (P : Platform δ) (request : AcceptSourceRequest δ) (s : WorkTables δ) :
    Except WorkFault (WorkAnswered δ) := do
  let chat ← chatRow s request.chatJid
  let sourceSeq := chat.nextSourceSeq
  let (s, allocated) ← updateChats s
    (fun r => decide (r.chatJid = request.chatJid) && decide (r.nextSourceSeq = sourceSeq))
    (fun r => { r with nextSourceSeq := r.nextSourceSeq + 1 })
  if allocated ≠ 1 then rejected (frontierMismatch chat.consumedThroughSourceSeq) s
  else
    let s ← insertSource s (acceptedRow P request sourceSeq)
    let s ← if request.createWakeIntent then insertWakeIntent s ⟨request.chatJid, sourceSeq⟩
      else .ok s
    let row ← requireSourceRow s request.chatJid sourceSeq
    applied (.source (sourceSnapshot row row.state)) false s

def applyAcceptSource (P : Platform δ) (runtime : WorkAdapterRuntime)
    (request : AcceptSourceRequest δ) (s : WorkTables δ) : Except WorkFault (WorkAnswered δ) := do
  if request.kind ≠ .cancellation ∧ runtime.admitsProcess = false then .error .process
  else
    let s ← ensureChat s request.chatJid
    match sourceById s request.chatJid request.sourceId with
    | some row =>
      if row.sourceHash = semanticSourceHash P request then
        applied (.source (sourceSnapshot row row.state)) true s
      else rejected (serviceError .idempotencyConflict) s
    | none =>
      if request.parentSourceSeq.any fun n => (sourceRow s request.chatJid n.1).isNone then
        rejected (serviceError .notFound) s
      else
        match request.targetOperationId with
        | none => allocateSource P request s
        | some target =>
          let row ← operationRow s target
          if targetOpen request.chatJid row then allocateSource P request s
          else rejected (conflicting target) s

end AcceptSource

section ClaimNext

def queuedSource (r : SourceRow δ) : Bool :=
  decide (r.kind = .message) && r.targetOperationId.isNone &&
    decide (r.payloadRef.1 = "queued-source:" ++ r.sourceId.1)

def pendingSources (s : WorkTables δ) (chatJid : Text) : List (SourceRow δ) :=
  (s.sources.rows.filter fun r =>
    decide (r.chatJid = chatJid) && decide (r.state = .pending)).insertionSort
      (fun a b => a.sourceSeq ≤ b.sourceSeq)

/-- The first pending source, or the one that the host's order puts first among the queued sources
at the head of the list. -/
def nextPendingSource (order : Option (List Text)) (s : WorkTables δ) (chatJid : Text) :
    Option (SourceRow δ) :=
  let rows := pendingSources s chatJid
  match rows.head?, order with
  | none, _ => none
  | some first, none => some first
  | some first, some order =>
    let queued := rows.takeWhile queuedSource
    some ((order.findSome? fun id => queued.find? fun r => decide (r.sourceId = id)).getD first)

def claimedOperation (request : ClaimNextSourceRequest δ) (sourceSeq : ℕ) : OperationRow where
  operationId := request.newOperationId
  chatJid := request.chatJid
  version := 1
  phase := .claimed
  primarySourceSeq := sourceSeq
  cancellation := none
  harness := none
  terminal := none

def applyClaimNext (runtime : WorkAdapterRuntime) (request : ClaimNextSourceRequest δ)
    (s : WorkTables δ) : Except WorkFault (WorkAnswered δ) := do
  let s ← ensureChat s request.chatJid
  let chat ← chatRow s request.chatJid
  if chat.consumedThroughSourceSeq ≠ request.expectedFrontier.1 then
    rejected (frontierMismatch chat.consumedThroughSourceSeq) s
  else
    match chat.activeOperationId with
    | some active => rejected (conflicting active) s
    | none =>
      match nextPendingSource runtime.pendingQueuedSourceOrder s request.chatJid with
      | none => applied .nothing false s
      | some source =>
        if request.effect.sourceSeq.any fun n => decide (n.1 ≠ source.sourceSeq) then
          rejected (serviceError .ownerConflict) s
        else
          match ← operationRow s request.newOperationId with
          | some _ => rejected (conflicting request.newOperationId) s
          | none =>
            let (s, claims) ← updateSources s
              (fun r => decide (r.chatJid = request.chatJid) &&
                decide (r.sourceSeq = source.sourceSeq) && decide (r.state = .pending))
              (fun r => { r with state := .claimed })
            if claims ≠ 1 then rejected (serviceError .ownerConflict) s
            else
              let s ← insertOperation s (claimedOperation request source.sourceSeq)
              let s ← insertOperationSource s
                ⟨request.chatJid, request.newOperationId, source.sourceSeq⟩
              let (s, owners) ← updateChats s
                (fun r => decide (r.chatJid = request.chatJid) && r.activeOperationId.isNone)
                (fun r => { r with activeOperationId := some request.newOperationId })
              if owners ≠ 1 then rejected (serviceError .ownerConflict) s
              else
                let row ← requireSourceRow s request.chatJid source.sourceSeq
                let operation ← requireOperationSnapshot s request.newOperationId
                applied (.claimed (sourceSnapshot row row.state) operation) false s

end ClaimNext

section Operations

def answerOperation (operationId : Text) (duplicate : Bool) (s : WorkTables δ) :
    Except WorkFault (WorkAnswered δ) := do
  let operation ← requireOperationSnapshot s operationId
  applied (.operation operation) duplicate s

def intentRow (P : Platform δ) (request : AppendOperationIntentRequest δ) : IntentRow δ where
  operationId := request.effect.operationId
  intentId := request.intentId
  intentHash := semanticIntentHash P request
  kind := request.kind
  payloadRef := request.payloadRef
  createdAt := request.createdAt

def applyAppendIntent (P : Platform δ) (request : AppendOperationIntentRequest δ)
    (s : WorkTables δ) : Except WorkFault (WorkAnswered δ) := do
  match ← operationRow s request.effect.operationId with
  | none => rejected (serviceError .notFound) s
  | some row =>
    if row.phase = .terminal then rejected (conflicting row.operationId) s
    else
      match s.intents.find? (request.effect.operationId, request.intentId) with
      | some known =>
        if known.intentHash = semanticIntentHash P request then
          answerOperation request.effect.operationId true s
        else rejected (serviceError .idempotencyConflict) s
      | none =>
        if row.version ≠ request.expectedVersion.1 then rejected (versionMismatch row.version) s
        else
          let s ← insertIntent s (intentRow P request)
          let (s, bumped) ← bumpVersion s request.effect.operationId request.expectedVersion.1
          if bumped ≠ 1 then rejected (serviceError .versionMismatch) s
          else answerOperation request.effect.operationId false s

def cancellationColumns (request : AcceptCancellationRequest δ) : CancellationColumns where
  sourceId := request.sourceId
  sourceSeq := request.sourceSeq.1
  cause := request.cause
  requestedAt := request.requestedAt

def applyCancellation (request : AcceptCancellationRequest δ) (s : WorkTables δ) :
    Except WorkFault (WorkAnswered δ) := do
  match ← operationRow s request.effect.operationId with
  | none => rejected (serviceError .notFound) s
  | some row =>
    if row.phase = .terminal then rejected (conflicting row.operationId) s
    else
      match row.cancellation with
      | some known =>
        if known = cancellationColumns request then answerOperation row.operationId true s
        else rejected (conflicting row.operationId) s
      | none =>
        if row.version ≠ request.expectedVersion.1 then rejected (versionMismatch row.version) s
        else if (sourceRow s row.chatJid request.sourceSeq.1).all fun source =>
            decide (source.sourceId ≠ request.sourceId) ||
              decide (source.targetOperationId ≠ some row.operationId) then
          rejected (conflicting row.operationId) s
        else
          let (s, changes) ← updateOperations s
            (fun r => decide (r.operationId = row.operationId) &&
              decide (r.version = request.expectedVersion.1) && decide (r.phase ≠ .terminal) &&
              r.cancellation.isNone)
            (fun r => { r with
              cancellation := some (cancellationColumns request)
              phase := .cancelling
              version := r.version + 1 })
          if changes ≠ 1 then
            let observed ← requireOperationRow s row.operationId
            rejected (versionMismatch observed.version) s
          else answerOperation row.operationId false s

def applyHarnessBinding (request : BindHarnessRequest δ) (s : WorkTables δ) :
    Except WorkFault (WorkAnswered δ) := do
  match ← operationRow s request.effect.operationId with
  | none => rejected (serviceError .notFound) s
  | some row =>
    if row.phase = .terminal then rejected (conflicting row.operationId) s
    else
      match row.harness with
      | some known =>
        if known = ⟨request.sessionId, some request.harnessOperationId⟩ then
          answerOperation row.operationId true s
        else rejected (conflicting row.operationId) s
      | none =>
        if row.version ≠ request.expectedVersion.1 then rejected (versionMismatch row.version) s
        else
          let (s, changes) ← updateOperations s
            (fun r => decide (r.operationId = row.operationId) &&
              decide (r.version = request.expectedVersion.1) && decide (r.phase ≠ .terminal) &&
              r.harness.isNone)
            (fun r => { r with
              harness := some ⟨request.sessionId, some request.harnessOperationId⟩
              phase := if r.cancellation.isNone then .executing else .cancelling
              version := r.version + 1 })
          if changes ≠ 1 then
            let observed ← requireOperationRow s row.operationId
            rejected (versionMismatch observed.version) s
          else answerOperation row.operationId false s

def finishable (phase : PiclawOperationPhase) : Bool :=
  decide (phase = .executing) || decide (phase = .cancelling)

def applyHarnessFinish (request : FinishHarnessRequest δ) (s : WorkTables δ) :
    Except WorkFault (WorkAnswered δ) := do
  match ← operationRow s request.effect.operationId with
  | none => rejected (serviceError .notFound) s
  | some row =>
    if row.version ≠ request.expectedVersion.1 then rejected (versionMismatch row.version) s
    else
      let chat ← chatRow s row.chatJid
      if chat.activeOperationId ≠ some row.operationId ∨ finishable row.phase = false ∨
          row.harness ≠ some request.expectedHarness.correlation then
        rejected (conflicting row.operationId) s
      else
        let (s, changes) ← updateOperations s
          (fun r => decide (r.operationId = row.operationId) &&
            decide (r.version = request.expectedVersion.1) && finishable r.phase)
          (fun r => { r with phase := .settling, version := r.version + 1 })
        if changes ≠ 1 then rejected (serviceError .versionMismatch) s
        else answerOperation row.operationId false s

end Operations

section QueuedInputs

def queueTransition : QueuedInputState → QueuedInputState → Bool
  | .accepted, .queued | .accepted, .disposed | .queued, .consumed | .queued, .disposed => true
  | _, _ => false

def validQueueEntryTransition (source : QueuedInputState) (previous : Option Text)
    (target : QueuedInputState) (next : Option Text) : Bool :=
  if source = .accepted ∧ target = .queued then previous.isNone && next.isSome
  else decide (previous = next)

def sourceStateForQueue : QueuedInputState → AcceptedSourceState
  | .accepted => .claimed
  | .queued => .queued
  | .consumed => .consumed
  | .disposed => .disposed

/-- The first transition of a queued input claims its source for the operation. -/
def acceptQueuedInput (request : RecordQueuedInputRequest δ) (operation : OperationRow)
    (source : SourceRow δ) (s : WorkTables δ) :
    Except WorkFault (Option ServiceWorkError × WorkTables δ) := do
  if request.state ≠ .accepted ∨ request.harnessEntryId.isSome ∨ source.state ≠ .pending then
    .ok (some (serviceError .invalidTransition), s)
  else
    let existing := s.operationSources.rows.find? fun r =>
      decide (r.chatJid = operation.chatJid) && decide (r.sourceSeq = request.sourceSeq.1)
    match existing.filter fun r => decide (r.operationId ≠ operation.operationId) with
    | some other => .ok (some (conflicting other.operationId), s)
    | none =>
      let s ← if existing.isNone then
          insertOperationSource s ⟨operation.chatJid, operation.operationId, request.sourceSeq.1⟩
        else .ok s
      let (s, changes) ← updateSources s
        (fun r => decide (r.chatJid = operation.chatJid) &&
          decide (r.sourceSeq = request.sourceSeq.1) && decide (r.state = .pending))
        (fun r => { r with state := .claimed })
      if changes ≠ 1 then .ok (some (serviceError .invalidTransition), s)
      else
        let s ← insertQueuedInput s
          ⟨operation.chatJid, operation.operationId, request.sourceSeq.1, request.queueKind, none,
            .accepted⟩
        .ok (none, s)

def advanceQueuedInput (request : RecordQueuedInputRequest δ) (operation : OperationRow)
    (source : SourceRow δ) (known : QueuedInputRow) (s : WorkTables δ) :
    Except WorkFault (Option ServiceWorkError × WorkTables δ) := do
  if known.queueKind ≠ request.queueKind ∨ queueTransition known.state request.state = false ∨
      validQueueEntryTransition known.state known.harnessEntryId request.state
        request.harnessEntryId = false ∨
      source.state ≠ sourceStateForQueue known.state then
    .ok (some (serviceError .invalidTransition), s)
  else
    let (s, queued) ← updateQueuedInputs s
      (fun r => decide (r.operationId = operation.operationId) &&
        decide (r.sourceSeq = request.sourceSeq.1) && decide (r.state = known.state))
      (fun r => { r with state := request.state, harnessEntryId := request.harnessEntryId })
    if queued ≠ 1 then .ok (some (serviceError .invalidTransition), s)
    else
      let (s, changes) ← updateSources s
        (fun r => decide (r.chatJid = operation.chatJid) &&
          decide (r.sourceSeq = request.sourceSeq.1) &&
          decide (r.state = sourceStateForQueue known.state))
        (fun r => { r with state := sourceStateForQueue request.state })
      if changes ≠ 1 then .ok (some (serviceError .corruptState), s)
      else .ok (none, s)

def applyQueuedInput (request : RecordQueuedInputRequest δ) (s : WorkTables δ) :
    Except WorkFault (WorkAnswered δ) := do
  match ← operationRow s request.effect.operationId with
  | none => rejected (serviceError .notFound) s
  | some operation =>
    if operation.phase = .terminal then rejected (conflicting request.effect.operationId) s
    else if operation.version ≠ request.expectedVersion.1 then
      rejected (versionMismatch operation.version) s
    else
      match sourceRow s operation.chatJid request.sourceSeq.1 with
      | none => rejected (serviceError .notFound) s
      | some source =>
        if source.targetOperationId ≠ some operation.operationId ∧
            source.sourceSeq ≠ operation.primarySourceSeq then
          rejected (conflicting (source.targetOperationId.getD operation.operationId)) s
        else
          let (refusal, s) ←
            match s.queuedInputs.find? (operation.operationId, request.sourceSeq.1) with
            | none => acceptQueuedInput request operation source s
            | some known => advanceQueuedInput request operation source known s
          match refusal with
          | some error => rejected error s
          | none =>
            let (s, bumped) ← bumpVersion s operation.operationId request.expectedVersion.1
            if bumped ≠ 1 then rejected (serviceError .versionMismatch) s
            else answerOperation operation.operationId false s

end QueuedInputs

section Mutate

def applyWork (P : Platform δ) (runtime : WorkAdapterRuntime) :
    WorkMutation δ → WorkTables δ → Except WorkFault (WorkAnswered δ)
  | .acceptSource request => applyAcceptSource P runtime request
  | .claimNext request => applyClaimNext runtime request
  | .appendIntent request => applyAppendIntent P request
  | .acceptCancellation request => applyCancellation request
  | .bindHarness request => applyHarnessBinding request
  | .finishHarness request => applyHarnessFinish request
  | .recordQueuedInput request => applyQueuedInput request

def validateAcceptance (runtime : WorkAdapterRuntime) (point : FencePoint) :
    Except WorkFault Unit :=
  match runtime.validateAcceptance with
  | none => .ok ()
  | some fence => if fence point then .ok () else .error .ownership

def applyMutationWithinTransaction (P : Platform δ) (runtime : WorkAdapterRuntime)
    (m : WorkMutation δ) (s : WorkTables δ) : Except WorkFault (WorkAnswered δ) := do
  match readDecision s m.method m.idempotencyKey m.requestHash with
  | some outcome => .ok (outcome, s)
  | none =>
    let _ ← validateAcceptance runtime (.before m.method)
    let (outcome, s) ← applyWork P runtime m s
    match outcome with
    | .error error => .ok (.error error, s)
    | .ok (value, duplicate) =>
      if runtime.beforeEffect m.method = .inTransaction then .error .rollback
      else
        let s ← writeWorkDecision s m.method m.idempotencyKey m.requestHash value
        let _ ← validateAcceptance runtime (.after m.method)
        .ok (.ok (value, duplicate), s)

def mutationError : WorkFault → ServiceWorkError
  | .ownership => serviceError .ownerConflict
  | _ => serviceError .corruptState

def faultedBefore (runtime : WorkAdapterRuntime) (method : WorkMethod) : Bool :=
  decide (runtime.beforeEffect method = .preTransaction) ||
    decide (runtime.beforeEffect method = .unreadable)

/-- One call of a mutation. A request that the normaliser rejects is `none`. -/
def mutateWork (P : Platform δ) (runtime : WorkAdapterRuntime) (request : Option (SealedMutation P))
    (s : WorkTables δ) : Except ServiceWorkError WorkValue × WorkTables δ :=
  match request with
  | none => (.error (serviceError .invalidTransition), s)
  | some m =>
    if faultedBefore runtime m.1.method then (.error workStorageUnavailable, s)
    else
      match applyMutationWithinTransaction P runtime m.1 s with
      | .error fault => (.error (mutationError fault), s)
      | .ok (.error error, s') => (.error error, s')
      | .ok (.ok (value, _), s') =>
        if runtime.lostAcknowledgement then (.error workLostAcknowledgement, s')
        else (.ok value, s')

end Mutate

end Piclaw
