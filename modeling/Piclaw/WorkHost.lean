import Piclaw.WorkStore

/-!
# EF-S01 in a transaction of the host

The functions that end in `InTransaction` run inside a transaction that the host owns. They throw
where a mutation would reject, and the host rolls back. `hostTransaction` is one such transaction;
its answer is the value or the tag of the admission error.

Withdrawal and attachment demand a writer fence; the other functions consult it when there is one.
-/

namespace Piclaw
open Relational
variable {δ : Type} [DecidableEq δ] {P : Platform δ}

/-- A precommit receipt: the value and the tables that the host is about to commit. -/
abbrev WorkReceipt (δ : Type) := WorkValue × WorkTables δ

/-- The tag of the admission error that a fault becomes. -/
def admissionTag : WorkFault → ServiceWorkErrorTag
  | .admission tag => tag
  | .rollback => .storageUnavailable
  | fault => (mutationError fault).tag

def refuse {α : Type} (tag : ServiceWorkErrorTag) : Except WorkFault α := .error (.admission tag)

/-- An outcome in which a rejection is thrown. -/
def admitted (answered : WorkAnswered δ) : Except WorkFault (WorkReceipt δ) :=
  match answered.1 with
  | .error error => refuse error.tag
  | .ok (value, _) => .ok (value, answered.2)

def mutateInTransaction (P : Platform δ) (runtime : WorkAdapterRuntime) (m : WorkMutation δ)
    (s : WorkTables δ) : Except WorkFault (WorkReceipt δ) := do
  if faultedBefore runtime m.method then refuse .storageUnavailable
  else
    let answered ← applyMutationWithinTransaction P runtime m s
    admitted answered

def acceptSourceInTransaction (P : Platform δ) (runtime : WorkAdapterRuntime)
    (request : AcceptSourceRequest δ) (s : WorkTables δ) : Except WorkFault (WorkReceipt δ) :=
  mutateInTransaction P runtime (.acceptSource request) s

def bindHarnessInTransaction (P : Platform δ) (runtime : WorkAdapterRuntime)
    (request : BindHarnessRequest δ) (s : WorkTables δ) : Except WorkFault (WorkReceipt δ) :=
  mutateInTransaction P runtime (.bindHarness request) s

section AcceptAndClaim

/-- The claim took the source that was accepted with it. -/
def claimsExactly (source : AcceptedSourceSnapshot) : WorkValue → Bool
  | .claimed claimed operation =>
    decide (claimed.chatJid = source.chatJid) && decide (claimed.sourceSeq = source.sourceSeq) &&
      decide (claimed.sourceId = source.sourceId) &&
      decide (operation.primarySourceSeq = source.sourceSeq)
  | _ => false

def acceptAndClaimSourceInTransaction (P : Platform δ) (runtime : WorkAdapterRuntime)
    (accept : AcceptSourceRequest δ) (claim : ClaimNextSourceRequest δ) (s : WorkTables δ) :
    Except WorkFault (WorkReceipt δ) := do
  if claim.chatJid ≠ accept.chatJid ∨ accept.targetOperationId.isSome ∨
      accept.parentSourceSeq.isSome then
    refuse .invalidTransition
  else
    match ← acceptSourceInTransaction P runtime accept s with
    | (.source source, s) =>
      let (claimed, s) ← mutateInTransaction P runtime (.claimNext claim) s
      if claimsExactly source claimed then .ok (claimed, s) else refuse .ownerConflict
    | _ => refuse .corruptState

end AcceptAndClaim

section AcceptAndCancel

def positiveInteger? (n : ℕ) : Option PositiveInteger :=
  if h : 1 ≤ n ∧ n ≤ maxSafeInteger then some ⟨n, h⟩ else none

theorem cancel_key_text (key : Text) : text ("cancel:" ++ key.1) := by
  have hkey := key.2
  unfold text at hkey ⊢
  rw [String.toList_append, List.any_append, hkey, Bool.or_true]

def memberOf (s : Ledger δ) (operationId chatJid : Text) (sourceSeq : ℕ) : Bool :=
  s.operationSources.rows.any fun r =>
    decide (r.operationId = operationId) && decide (r.chatJid = chatJid) &&
      decide (r.sourceSeq = sourceSeq)

/-- The cancellation that follows from an accepted cancellation source. The normaliser refuses a
version or a cause that is no positive integer or no text. -/
def derivedCancellation (P : Platform δ) (input : AcceptSourceRequest δ) (operationId : Text)
    (source : AcceptedSourceSnapshot) (expectedVersion : Option PositiveInteger)
    (cause : Option Text) : Option (AcceptCancellationRequest δ) := do
  let sourceSeq ← positiveInteger? source.sourceSeq
  let expectedVersion ← expectedVersion
  let cause ← cause
  let request : AcceptCancellationRequest δ :=
    { effect := { input.effect with
        idempotencyKey := ⟨"cancel:" ++ input.effect.idempotencyKey.1,
          cancel_key_text input.effect.idempotencyKey⟩
        operationId := operationId
        sourceSeq := some ⟨sourceSeq.1, sourceSeq.2.2⟩ }
      expectedVersion := expectedVersion
      sourceId := source.sourceId
      sourceSeq := sourceSeq
      cause := cause
      requestedAt := input.acceptedAt }
  some { request with
    effect := { request.effect with requestHash := hashCanonicalRequest P request.json } }

/-- A pending cancellation source becomes a member of the operation it cancels. -/
def adoptCancellationSource (operation : OperationRow) (source : AcceptedSourceSnapshot)
    (s : WorkTables δ) : Except WorkFault (WorkTables δ) := do
  if (sourceRow s source.chatJid source.sourceSeq).any fun r => decide (r.state = .pending) then
    let (s, _) ← updateSources s
      (fun r => decide (r.chatJid = source.chatJid) && decide (r.sourceSeq = source.sourceSeq) &&
        decide (r.state = .pending))
      (fun r => { r with state := .claimed })
    insertOperationSource s ⟨source.chatJid, operation.operationId, source.sourceSeq⟩
  else if memberOf s.toLedger operation.operationId source.chatJid source.sourceSeq then .ok s
  else refuse .ownerConflict

def cancelAccepted (P : Platform δ) (runtime : WorkAdapterRuntime) (operation : OperationRow)
    (source : AcceptedSourceSnapshot) (request : AcceptCancellationRequest δ) (s : WorkTables δ) :
    Except WorkFault (WorkReceipt δ) := do
  if faultedBefore runtime .acceptCancellation then refuse .storageUnavailable
  else
    let _ ← validateAcceptance runtime .entry
    let s ← adoptCancellationSource operation source s
    let answered ← applyMutationWithinTransaction P runtime (.acceptCancellation request) s
    let (value, s) ← admitted answered
    let _ ← validateAcceptance runtime .exit
    .ok (value, s)

def acceptAndCancelSourceInTransaction (P : Platform δ) (runtime : WorkAdapterRuntime)
    (input : AcceptSourceRequest δ) (expectedVersion : Option PositiveInteger)
    (cause : Option Text) (s : WorkTables δ) : Except WorkFault (WorkReceipt δ) := do
  match input.kind, input.targetOperationId, input.parentSourceSeq with
  | .cancellation, some target, some parent =>
    match ← acceptSourceInTransaction P runtime input s with
    | (.source source, s) =>
      match ← operationRow s target with
      | none => refuse .ownerConflict
      | some operation =>
        if source.targetOperationId ≠ some operation.operationId ∨
            operation.chatJid ≠ source.chatJid ∨
            memberOf s.toLedger operation.operationId source.chatJid parent.1 = false then
          refuse .ownerConflict
        else
          match derivedCancellation P input operation.operationId source expectedVersion cause with
          | none => refuse .invalidTransition
          | some request => cancelAccepted P runtime operation source request s
    | _ => refuse .corruptState
  | _, _, _ => refuse .invalidTransition

end AcceptAndCancel

section QueuedSources

/-- The writer fence that withdrawal and attachment insist on. -/
def requireFence (runtime : WorkAdapterRuntime) : Except WorkFault Unit :=
  if runtime.validateAcceptance.isNone then .error .ownership else .ok ()

/-- An operation or a queue already refers to the source. -/
def sourceOwned (s : Ledger δ) (chatJid : Text) (sourceSeq : ℕ) : Bool :=
  (s.operationSources.rows.any fun r =>
      decide (r.chatJid = chatJid) && decide (r.sourceSeq = sourceSeq)) ||
    (s.operations.rows.any fun r =>
      decide (r.chatJid = chatJid) && (decide (r.primarySourceSeq = sourceSeq) ||
        r.cancellation.any fun c => decide (c.sourceSeq = sourceSeq))) ||
    (s.queuedInputs.rows.any fun r =>
      decide (r.chatJid = chatJid) && decide (r.sourceSeq = sourceSeq))

/-- A queued message that nothing has claimed, targeted or disposed of. -/
def freeQueuedSource (row : SourceRow δ) (sourceId payloadRef : Text) (sourceHash : δ) : Bool :=
  decide (row.kind = .message) && decide (row.sourceHash = sourceHash) &&
    decide (row.payloadRef = payloadRef) &&
    decide (payloadRef.1 = "queued-source:" ++ sourceId.1) &&
    decide (row.state = .pending) && row.targetOperationId.isNone && row.dispositionReason.isNone

def hostCancelled : Text := ⟨"host_cancelled", by decide⟩

def sourceClosed (s : Ledger δ) (chatJid : Text) (sourceSeq : ℕ) : Option Bool :=
  (s.sources.find? (chatJid, sourceSeq)).map fun r => r.state.closed

def computeClosedSourceFrontier (s : Ledger δ) (chatJid : Text)
    (consumedThrough nextSourceSeq : ℕ) : Except WorkFault ℕ :=
  if nextSourceSeq ≤ consumedThrough then .error .corruptState
  else
    require .corruptState
      (advance (sourceClosed s chatJid) consumedThrough (nextSourceSeq - 1 - consumedThrough))

/-- Without an active operation the frontier follows the closed sources. -/
def advanceFrontier (chatJid : Text) (s : WorkTables δ) : Except WorkFault (WorkTables δ) := do
  let chat ← chatRow s chatJid
  match chat.activeOperationId with
  | some _ => .ok s
  | none =>
    let frontier ← computeClosedSourceFrontier s.toLedger chatJid chat.consumedThroughSourceSeq
      chat.nextSourceSeq
    let (s, _) ← updateChats s (fun r => decide (r.chatJid = chatJid))
      (fun r => { r with consumedThroughSourceSeq := frontier })
    .ok s

/-- The answer of a decision that is already stored, thrown when it is a rejection. -/
def replayed (s : WorkTables δ) (outcome : WorkOutcome) (runtime : WorkAdapterRuntime) :
    Except WorkFault (WorkReceipt δ) := do
  let answer ← admitted (outcome, s)
  let _ ← validateAcceptance runtime .exit
  .ok answer

def withdrawUnclaimedSource (runtime : WorkAdapterRuntime) (request : WithdrawFields δ)
    (s : WorkTables δ) : Except WorkFault (WorkReceipt δ) := do
  match sourceById s request.chatJid request.sourceId with
  | none => refuse .invalidTransition
  | some source =>
    if freeQueuedSource source request.sourceId request.payloadRef request.sourceHash = false then
      refuse .invalidTransition
    else if sourceOwned s.toLedger request.chatJid source.sourceSeq then refuse .ownerConflict
    else
      let (s, changed) ← updateSources s
        (fun r => decide (r.chatJid = request.chatJid) &&
          decide (r.sourceSeq = source.sourceSeq) && decide (r.state = .pending))
        (fun r => { r with state := .disposed, dispositionReason := some hostCancelled })
      if changed ≠ 1 then refuse .invalidTransition
      else
        let s ← advanceFrontier request.chatJid s
        let row ← requireSourceRow s request.chatJid source.sourceSeq
        let value := WorkValue.source (sourceSnapshot row row.state)
        let s ← writeWorkDecision s .withdrawUnclaimedSource request.effect.idempotencyKey
          request.effect.requestHash value
        let _ ← validateAcceptance runtime .exit
        .ok (value, s)

def withdrawUnclaimedSourceInTransaction (runtime : WorkAdapterRuntime)
    (request : WithdrawFields δ) (s : WorkTables δ) : Except WorkFault (WorkReceipt δ) := do
  let _ ← requireFence runtime
  let _ ← validateAcceptance runtime .entry
  match readDecision s .withdrawUnclaimedSource request.effect.idempotencyKey
      request.effect.requestHash with
  | some outcome => replayed s outcome runtime
  | none => withdrawUnclaimedSource runtime request s

theorem queued_steer_text (sourceId : Text) : text ("queued-steer:" ++ sourceId.1) := by
  have hid := sourceId.2
  unfold text at hid ⊢
  rw [String.toList_append, List.any_append, hid, Bool.or_true]

/-- The intent that an attachment appends to its operation. -/
def attachmentIntent (request : AttachFields δ) : AppendOperationIntentRequest δ where
  effect := { request.effect with
    operationId := request.effect.operationId
    sourceSeq := some ⟨request.effect.sourceSeq.1, request.effect.sourceSeq.2.2⟩ }
  expectedVersion := request.expectedVersion
  intentId := ⟨"queued-steer:" ++ request.sourceId.1, queued_steer_text request.sourceId⟩
  kind := .queueInput
  payloadRef := request.payloadRef
  createdAt := request.createdAt

def attachQueuedSource (P : Platform δ) (runtime : WorkAdapterRuntime) (request : AttachFields δ)
    (operation : OperationRow) (source : SourceRow δ) (s : WorkTables δ) :
    Except WorkFault (WorkReceipt δ) := do
  let (s, changed) ← updateSources s
    (fun r => decide (r.chatJid = request.chatJid) && decide (r.sourceSeq = source.sourceSeq) &&
      decide (r.sourceId = request.sourceId) && decide (r.sourceHash = request.sourceHash) &&
      decide (r.state = .pending) && r.targetOperationId.isNone && r.dispositionReason.isNone)
    (fun r => { r with state := .claimed, targetOperationId := some operation.operationId })
  if changed ≠ 1 then refuse .invalidTransition
  else
    let s ← insertOperationSource s ⟨request.chatJid, operation.operationId, source.sourceSeq⟩
    let answered ← applyAppendIntent P (attachmentIntent request) s
    let (value, s) ← admitted answered
    let s ← writeWorkDecision s .attachQueuedSource request.effect.idempotencyKey
      request.effect.requestHash value
    let _ ← validateAcceptance runtime .exit
    .ok (value, s)

/-- The operation and the source of an attachment, once its guards have passed. -/
def attachable (request : AttachFields δ) (s : WorkTables δ) :
    Except WorkFault (OperationRow × SourceRow δ) := do
  match ← operationRow s request.effect.operationId with
  | none => refuse .ownerConflict
  | some operation =>
    if operation.chatJid ≠ request.chatJid then refuse .ownerConflict
    else
      let chat ← chatRow s request.chatJid
      if chat.activeOperationId ≠ some operation.operationId ∨ operation.phase ≠ .executing ∨
          operation.cancellation.isSome then
        refuse .ownerConflict
      else if operation.version ≠ request.expectedVersion.1 then refuse .versionMismatch
      else if operation.harness ≠ some request.expectedHarness.correlation then
        refuse .ownerConflict
      else
        match sourceRow s request.chatJid request.effect.sourceSeq.1 with
        | none => refuse .invalidTransition
        | some source =>
          if source.sourceId ≠ request.sourceId ∨
              freeQueuedSource source request.sourceId request.payloadRef request.sourceHash =
                false then
            refuse .invalidTransition
          else if sourceOwned s.toLedger request.chatJid source.sourceSeq ∨
              (s.intents.find? (operation.operationId, (attachmentIntent request).intentId)).isSome
              then
            refuse .ownerConflict
          else .ok (operation, source)

def attachQueuedSourceInTransaction (P : Platform δ) (runtime : WorkAdapterRuntime)
    (request : AttachFields δ) (s : WorkTables δ) : Except WorkFault (WorkReceipt δ) := do
  let _ ← requireFence runtime
  let _ ← validateAcceptance runtime .entry
  match readDecision s .attachQueuedSource request.effect.idempotencyKey
      request.effect.requestHash with
  | some outcome => replayed s outcome runtime
  | none =>
    let (operation, source) ← attachable request s
    attachQueuedSource P runtime request operation source s

end QueuedSources

section HostCalls

abbrev SealedAccept (P : Platform δ) :=
  {r : AcceptSourceRequest δ // r.effect.requestHash = hashCanonicalRequest P r.json}

abbrev SealedClaim (P : Platform δ) :=
  {r : ClaimNextSourceRequest δ // r.effect.requestHash = hashCanonicalRequest P r.json}

abbrev SealedBinding (P : Platform δ) :=
  {r : BindHarnessRequest δ // r.effect.requestHash = hashCanonicalRequest P r.json}

inductive HostCall (P : Platform δ) where
  | acceptSource (request : SealedAccept P)
  | bindHarness (request : SealedBinding P)
  | acceptAndClaimSource (accept : SealedAccept P) (claim : SealedClaim P)
  | acceptAndCancelSource (input : SealedAccept P) (expectedVersion : Option PositiveInteger)
      (cause : Option Text)
  | withdrawUnclaimedSource (request : WithdrawUnclaimedSourceRequest P)
  | attachQueuedSource (request : AttachQueuedSourceRequest P)

def applyHost (P : Platform δ) (runtime : WorkAdapterRuntime) (call : HostCall P)
    (s : WorkTables δ) : Except WorkFault (WorkReceipt δ) :=
  match call with
  | .acceptSource request => acceptSourceInTransaction P runtime request.1 s
  | .bindHarness request => bindHarnessInTransaction P runtime request.1 s
  | .acceptAndClaimSource accept claim =>
    acceptAndClaimSourceInTransaction P runtime accept.1 claim.1 s
  | .acceptAndCancelSource input expectedVersion cause =>
    acceptAndCancelSourceInTransaction P runtime input.1 expectedVersion cause s
  | .withdrawUnclaimedSource request =>
    withdrawUnclaimedSourceInTransaction runtime request.toWithdrawFields s
  | .attachQueuedSource request =>
    attachQueuedSourceInTransaction P runtime request.toAttachFields s

/-- One transaction of the host. A request that a normaliser rejects is `none`. -/
def hostTransaction (P : Platform δ) (runtime : WorkAdapterRuntime) (call : Option (HostCall P))
    (s : WorkTables δ) : Except ServiceWorkErrorTag WorkValue × WorkTables δ :=
  match call with
  | none => (.error .invalidTransition, s)
  | some call =>
    match applyHost P runtime call s with
    | .error fault => (.error (admissionTag fault), s)
    | .ok (value, s') => (.ok value, s')

end HostCalls

end Piclaw
