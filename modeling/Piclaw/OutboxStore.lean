import Piclaw.OutboxRequests
import Piclaw.Transactions

/-!
# The EF-S05 outbox store

Each mutation runs in one SQL transaction. A transaction either throws, which rolls every statement
back, or returns; what it returns may itself be an error, and then the transaction commits with the
statements executed so far. `mutate` adds the request check, the injected faults and the lost
acknowledgement, and turns a thrown fault into the error the caller sees.

`cleanupTerminal` takes the set of outbox ids that rows of other stores reference: deleting such a
row violates their foreign keys.
-/

namespace Piclaw
open Relational
variable {δ : Type} [DecidableEq δ] {P : Platform δ}

/-- What a transaction can throw. A violated constraint is a `SQLITE_CONSTRAINT` error. -/
inductive OutboxFault where
  | corruptState
  | constraint
  deriving DecidableEq

abbrev Attempted (δ : Type) := Except OutboxStoreError (OutboxAnswer δ)
abbrev Answered (δ : Type) := Attempted δ × OutboxTables δ

abbrev constrained {α : Type} : Option α → Except OutboxFault α := require .constraint

section Records

def expectedCertainty : OutboxState → Option EffectCertainty
  | .pending => some .notApplied
  | .completed => some .applied
  | .failed => some .notApplied
  | .cancelled => some .notApplied
  | .unknown => some .unknown
  | .started => none

def validateRecord (v : OutboxRecord δ) : Bool :=
  v.enqueuedAt ≤ v.availableAt &&
    (decide (v.state = .started) ==
      (v.workerId.isSome && v.claimedAt.isSome && v.leaseToken.isSome &&
        v.leaseExpiresAt.isSome)) &&
    (!decide (v.state = .started) ||
      (decide (∃ claimed ∈ v.claimedAt, ∃ expires ∈ v.leaseExpiresAt, claimed < expires) &&
        v.certainty.isNone)) &&
    decide (v.certainty = expectedCertainty v.state) &&
    (!decide (v.state = .pending) || decide (v.attempt = 0)) &&
    (decide (v.state = .pending) || decide (1 ≤ v.attempt)) &&
    decide (∀ retry ∈ v.retryAt, ∃ result ∈ v.resultAt, result < retry)

def decodeRecord (row : OutboxRecord δ) : Except OutboxFault (OutboxRecord δ) :=
  if validateRecord row then .ok row else .error .corruptState

def readRecord (s : OutboxTables δ) (id : BoundedText 512) :
    Except OutboxFault (Option (OutboxRecord δ)) :=
  match s.outbox.find? id with
  | none => .ok none
  | some row => (decodeRecord row).map some

def requireRecord (s : OutboxTables δ) (id : BoundedText 512) :
    Except OutboxFault (OutboxRecord δ) := do
  match ← readRecord s id with
  | some record => .ok record
  | none => .error .corruptState

def leaseOf (record : OutboxRecord δ) (token : BoundedText 2048) :
    Except OutboxFault (OutboxLease δ) :=
  match record.state, record.workerId with
  | .started, some workerId => .ok ⟨{ record with leaseToken := some token }, workerId⟩
  | _, _ => .error .corruptState

def recordFromEnqueue (identity : OutboxRecord δ) : OutboxRecord δ :=
  { identity with
    state := .pending
    stateChangedAt := identity.enqueuedAt
    attempt := 0
    workerId := none
    claimedAt := none
    leaseToken := none
    leaseExpiresAt := none
    certainty := some .notApplied
    retryAt := none
    receiptRef := none
    lastErrorTag := none
    resultAt := none
    reconciliationRef := none
    reconciledAt := none
    cancellationReasonTag := none }

def recordFromLease (identity : OutboxRecord δ) (lease : LeaseRow δ) (token : BoundedText 2048) :
    OutboxRecord δ :=
  { identity with
    state := .started
    stateChangedAt := lease.claimedAt
    attempt := lease.attempt
    workerId := some lease.workerId
    claimedAt := some lease.claimedAt
    leaseToken := some token
    leaseExpiresAt := some lease.leaseExpiresAt
    certainty := none
    retryAt := none
    receiptRef := none
    lastErrorTag := none
    resultAt := none
    reconciliationRef := lease.reconciliationRef
    reconciledAt := none
    cancellationReasonTag := none }

def recordFromOutcome (identity : OutboxRecord δ) (outcome : OutcomeRow δ) : OutboxRecord δ :=
  { identity with
    state := outcome.state
    stateChangedAt := outcome.resultAt
    attempt := outcome.attempt
    workerId := none
    claimedAt := none
    leaseToken := none
    leaseExpiresAt := none
    certainty := some outcome.certainty
    retryAt := outcome.retryAt
    receiptRef := outcome.receiptRef
    lastErrorTag := outcome.errorTag
    resultAt := some outcome.resultAt
    reconciliationRef := outcome.reconciliationRef
    reconciledAt := none
    cancellationReasonTag := none }

def recordFromResolution (identity : OutboxRecord δ) (resolution : ResolutionRow δ) :
    OutboxRecord δ :=
  { identity with
    state := resolution.state
    stateChangedAt := resolution.reconciledAt
    attempt := resolution.attempt
    workerId := none
    claimedAt := none
    leaseToken := none
    leaseExpiresAt := none
    certainty := some resolution.certainty
    retryAt := resolution.retryAt
    receiptRef := resolution.receiptRef
    lastErrorTag := resolution.errorTag
    resultAt := some resolution.reconciledAt
    reconciliationRef := some resolution.reconciliationRef
    reconciledAt := some resolution.reconciledAt
    cancellationReasonTag := resolution.cancellationReasonTag }

def leaseFromAuthority (identity : OutboxRecord δ) (lease : LeaseRow δ)
    (token : BoundedText 2048) : Except OutboxFault (OutboxLease δ) :=
  leaseOf (recordFromLease identity lease token) token

end Records

section Statements

def writeDecision (s : OutboxTables δ) (row : DecisionRow δ) :
    Except OutboxFault (OutboxTables δ) := do
  let decisions ← constrained (s.decisions.insert? row)
  .ok { s with decisions := decisions }

def writeLease (s : OutboxTables δ) (row : LeaseRow δ) : Except OutboxFault (OutboxTables δ) := do
  let leases ← constrained (s.leases.insert? row)
  .ok { s with leases := leases }

def writeOutcome (s : OutboxTables δ) (row : OutcomeRow δ) :
    Except OutboxFault (OutboxTables δ) := do
  let outcomes ← constrained (s.outcomes.insert? row)
  .ok { s with outcomes := outcomes }

def writeResolution (s : OutboxTables δ) (row : ResolutionRow δ) :
    Except OutboxFault (OutboxTables δ) := do
  let resolutions ← constrained (s.resolutions.insert? row)
  .ok { s with resolutions := resolutions }

def insertOutbox (s : OutboxTables δ) (row : OutboxRecord δ) :
    Except OutboxFault (OutboxTables δ) := do
  let outbox ← constrained (s.outbox.insert? row)
  .ok { s with outbox := outbox }

def updateOutbox (s : OutboxTables δ) (p : OutboxRecord δ → Bool)
    (f : OutboxRecord δ → OutboxRecord δ) : Except OutboxFault (OutboxTables δ × ℕ) := do
  let (outbox, changes) ← constrained (s.outbox.update? p f)
  .ok ({ s with outbox := outbox }, changes)

end Statements

section Enqueue

def enqueuedRecord (request : EnqueueFields δ) : OutboxRecord δ where
  outboxId := request.outboxId
  kind := request.kind
  state := .pending
  idempotencyKey := request.effect.idempotencyKey
  requestHash := request.effect.requestHash
  operationId := request.effect.operationId
  sourceSeq := request.effect.sourceSeq
  provenanceRef := request.effect.provenanceRef
  redactionClass := request.effect.redactionClass
  payloadRef := request.payloadRef
  destinationRef := request.destinationRef
  availableAt := request.availableAt
  enqueuedAt := request.enqueuedAt
  stateChangedAt := request.enqueuedAt
  repeatability := request.repeatability
  attempt := 0
  workerId := none
  claimedAt := none
  leaseToken := none
  leaseExpiresAt := none
  certainty := some .notApplied
  retryAt := none
  receiptRef := none
  lastErrorTag := none
  resultAt := none
  reconciliationRef := none
  reconciledAt := none
  cancellationReasonTag := none

def enqueueDecision (request : EnqueueFields δ) : DecisionRow δ where
  key := .enqueue request.kind request.effect.idempotencyKey
  method := .enqueue
  requestHash := request.effect.requestHash
  outcome := .applied
  outboxId := some request.outboxId
  attempt := some 0
  tokenHash := none
  resultJson := none

def insertEnqueue (request : EnqueueOutboxRequest P) (s : OutboxTables δ) :
    Except OutboxFault (Answered δ) := do
  match s.decisions.find? (.enqueue request.kind request.effect.idempotencyKey) with
  | some known =>
    if known.method ≠ .enqueue ∨ known.requestHash ≠ request.effect.requestHash then
      .ok (.error (errorOf .idempotencyConflict), s)
    else
      match known.outboxId with
      | none => .ok (.error (errorOf .corruptState), s)
      | some id =>
        match ← readRecord s id with
        | some record => .ok (.ok (.replayed (recordFromEnqueue record)), s)
        | none => .ok (.error (errorOf .corruptState), s)
  | none =>
    if (s.outbox.find? request.outboxId).isSome then
      .ok (.error (errorOf .idempotencyConflict), s)
    else
      let s ← insertOutbox s (enqueuedRecord request.toEnqueueFields)
      let s ← writeDecision s (enqueueDecision request.toEnqueueFields)
      match ← readRecord s request.outboxId with
      | some record => .ok (.ok (.applied record), s)
      | none => .ok (.error (errorOf .corruptState), s)

end Enqueue

section Claim

def readClaimReplay (s : OutboxTables δ) (request : ClaimOutboxRequest)
    (requestHash tokenHash : δ) :
    Except OutboxFault (Option (Attempted δ)) := do
  let lease := s.leases.find? tokenHash
  match s.decisions.find? (.claim tokenHash) with
  | none =>
    match lease with
    | none => .ok none
    | some lease =>
      if lease.method = .claimNext ∧ lease.requestHash = requestHash then
        let identity ← requireRecord s lease.outboxId
        let replayed ← leaseFromAuthority identity lease request.leaseToken
        .ok (some (.ok (.leaseReplayed replayed)))
      else .ok (some (.error (errorOf .idempotencyConflict)))
  | some decision =>
    if decision.method ≠ .claimNext ∨ decision.requestHash ≠ requestHash then
      .ok (some (.error (errorOf .idempotencyConflict)))
    else if decision.outcome = .empty then .ok (some (.ok .emptyReplayed))
    else
      match lease with
      | none => .ok (some (.error (errorOf .corruptState)))
      | some lease =>
        if lease.requestHash ≠ requestHash ∨ lease.method ≠ .claimNext then
          .ok (some (.error (errorOf .corruptState)))
        else
          let identity ← requireRecord s lease.outboxId
          let replayed ← leaseFromAuthority identity lease request.leaseToken
          .ok (some (.ok (.leaseReplayed replayed)))

/-- `(state='pending' AND available_at<=now) OR (state='failed' AND retry_at<=now)`. -/
def dueBy (now : Instant) (r : OutboxRecord δ) : Bool :=
  (decide (r.state = .pending) && decide (r.availableAt ≤ now)) ||
    (decide (r.state = .failed) && r.retryAt.any (fun retry => decide (retry ≤ now)))

/-- The instant a claim orders an eligible row by. -/
def dueAt (r : OutboxRecord δ) : Instant :=
  if r.state = .pending then r.availableAt else r.retryAt.getD r.availableAt

def claimsBefore (a b : OutboxRecord δ) : Prop :=
  dueAt a < dueAt b ∨ dueAt a = dueAt b ∧ a.outboxId ≤ b.outboxId

instance : DecidableRel (claimsBefore (δ := δ)) := fun _ _ =>
  inferInstanceAs (Decidable (_ ∨ _ ∧ _))

def selectEligible (s : OutboxTables δ) (request : ClaimOutboxRequest) : Option (OutboxRecord δ) :=
  ((s.outbox.rows.filter fun r =>
    request.kinds.contains r.kind && dueBy request.now r).insertionSort claimsBefore).head?

def emptyClaim (s : OutboxTables δ) (requestHash tokenHash : δ) :
    Except OutboxFault (Answered δ) := do
  let s ← writeDecision s
    { key := .claim tokenHash
      method := .claimNext
      requestHash := requestHash
      outcome := .empty
      outboxId := none
      attempt := none
      tokenHash := some tokenHash
      resultJson := none }
  .ok (.ok .empty, s)

def claimable (request : ClaimOutboxRequest) (current : OutboxRecord δ) (r : OutboxRecord δ) :
    Bool :=
  decide (r.outboxId = current.outboxId) && decide (r.attempt = current.attempt) &&
    dueBy request.now r

def claimed (request : ClaimOutboxRequest) (attempt : ℕ) (r : OutboxRecord δ) : OutboxRecord δ :=
  { r with
    state := .started
    stateChangedAt := request.now
    attempt := attempt
    workerId := some request.workerId
    claimedAt := some request.now
    leaseToken := some request.leaseToken
    leaseExpiresAt := some request.leaseExpiresAt
    certainty := none
    retryAt := none
    receiptRef := none
    lastErrorTag := none
    resultAt := none
    reconciledAt := none
    cancellationReasonTag := none }

def claimLease (request : ClaimOutboxRequest) (requestHash tokenHash : δ)
    (current : OutboxRecord δ) : LeaseRow δ where
  tokenHash := tokenHash
  requestHash := requestHash
  method := .claimNext
  outboxId := current.outboxId
  attempt := current.attempt + 1
  workerId := request.workerId
  claimedAt := request.now
  leaseExpiresAt := request.leaseExpiresAt
  reconciliationRef := none

def claimDecision (requestHash tokenHash : δ) (current : OutboxRecord δ) : DecisionRow δ where
  key := .claim tokenHash
  method := .claimNext
  requestHash := requestHash
  outcome := .applied
  outboxId := some current.outboxId
  attempt := some (current.attempt + 1)
  tokenHash := some tokenHash
  resultJson := none

def claimNext (P : Platform δ) (request : ClaimOutboxRequest) (s : OutboxTables δ) :
    Except OutboxFault (Answered δ) := do
  let requestHash := hashCanonicalRequest P request.json
  let tokenHash := hashToken P request.leaseToken.1
  match ← readClaimReplay s request requestHash tokenHash with
  | some answer => .ok (answer, s)
  | none =>
    match selectEligible s request with
    | none => emptyClaim s requestHash tokenHash
    | some row =>
      let current ← decodeRecord row
      let (s, changes) ← updateOutbox s (claimable request current)
        (claimed request (current.attempt + 1))
      if changes ≠ 1 then emptyClaim s requestHash tokenHash
      else
        let s ← writeLease s (claimLease request requestHash tokenHash current)
        let s ← writeDecision s (claimDecision requestHash tokenHash current)
        let record ← requireRecord s current.outboxId
        let lease ← leaseOf record request.leaseToken
        .ok (.ok (.leaseApplied lease), s)

end Claim

section Reclaim

/-- The replay of a stored reclaim decision. The lease is found by the token of the request. -/
def readReclaimReplay (P : Platform δ) (s : OutboxTables δ) (request : ReclaimOutboxRequest)
    (requestHash : δ) : Except OutboxFault (Option (Attempted δ)) := do
  match s.decisions.find? (.reclaim request.outboxId request.expectedAttempt.1) with
  | none => .ok none
  | some decision =>
    if decision.method ≠ .reclaim ∨ decision.requestHash ≠ requestHash then
      .ok (some (.error (errorOf .idempotencyConflict)))
    else if decision.outcome = .stale then .ok (some (.ok .stale))
    else
      match s.leases.find? (hashToken P request.leaseToken.1) with
      | none => .ok (some (.error (errorOf .corruptState)))
      | some lease =>
        let identity ← requireRecord s lease.outboxId
        .ok (some (.ok (.replayed (recordFromLease identity lease request.leaseToken))))

def reclaimAuthorised (request : ReclaimOutboxRequest) (row : OutboxRecord δ) : Bool :=
  decide (row.state = .started) && decide (row.attempt = request.expectedAttempt.1) &&
    row.leaseExpiresAt.any (fun expires => decide (expires ≤ request.now)) &&
    row.claimedAt.any (fun claimed => decide (claimed ≤ request.now)) &&
    (match request.authority with
      | .repeatable => decide (row.repeatability = .repeatable)
      | .reconciledAbsent _ => true)

def reclaimReconciliation (request : ReclaimOutboxRequest) (row : OutboxRecord δ) :
    Option (BoundedText 2048) :=
  match request.authority with
  | .repeatable => row.reconciliationRef
  | .reconciledAbsent ref => some ref

def reclaimable (request : ReclaimOutboxRequest) (r : OutboxRecord δ) : Bool :=
  decide (r.outboxId = request.outboxId) && decide (r.state = .started) &&
    decide (r.attempt = request.expectedAttempt.1) &&
    r.leaseExpiresAt.any (fun expires => decide (expires ≤ request.now)) &&
    r.claimedAt.any (fun claimed => decide (claimed ≤ request.now))

def reclaimed (request : ReclaimOutboxRequest) (attempt : ℕ)
    (reconciliationRef : Option (BoundedText 2048)) (r : OutboxRecord δ) : OutboxRecord δ :=
  { r with
    stateChangedAt := request.now
    attempt := attempt
    workerId := some request.workerId
    claimedAt := some request.now
    leaseToken := some request.leaseToken
    leaseExpiresAt := some request.leaseExpiresAt
    reconciliationRef := reconciliationRef }

def reclaimLease (request : ReclaimOutboxRequest) (requestHash tokenHash : δ)
    (row : OutboxRecord δ) : LeaseRow δ where
  tokenHash := tokenHash
  requestHash := requestHash
  method := .reclaim
  outboxId := request.outboxId
  attempt := row.attempt + 1
  workerId := request.workerId
  claimedAt := request.now
  leaseExpiresAt := request.leaseExpiresAt
  reconciliationRef := reclaimReconciliation request row

def reclaimDecision (request : ReclaimOutboxRequest) (requestHash : δ) (outcome : DecisionOutcome)
    (attempt : ℕ) (tokenHash : Option δ) : DecisionRow δ where
  key := .reclaim request.outboxId request.expectedAttempt.1
  method := .reclaim
  requestHash := requestHash
  outcome := outcome
  outboxId := some request.outboxId
  attempt := some attempt
  tokenHash := tokenHash
  resultJson := none

def staleReclaim (request : ReclaimOutboxRequest) (requestHash : δ) (s : OutboxTables δ) :
    Except OutboxFault (Answered δ) := do
  let s ← writeDecision s
    (reclaimDecision request requestHash .stale request.expectedAttempt.1 none)
  .ok (.ok .stale, s)

def reclaim (P : Platform δ) (request : ReclaimOutboxRequest) (s : OutboxTables δ) :
    Except OutboxFault (Answered δ) := do
  let requestHash := hashCanonicalRequest P request.json
  let tokenHash := hashToken P request.leaseToken.1
  match ← readReclaimReplay P s request requestHash with
  | some answer => .ok (answer, s)
  | none =>
    if (s.leases.find? tokenHash).isSome then .ok (.error (errorOf .idempotencyConflict), s)
    else
      match ← readRecord s request.outboxId with
      | none => .ok (.error (errorOf .notFound), s)
      | some row =>
        if reclaimAuthorised request row then
          let (s, changes) ← updateOutbox s (reclaimable request)
            (reclaimed request (row.attempt + 1) (reclaimReconciliation request row))
          if changes = 1 then
            let s ← writeLease s (reclaimLease request requestHash tokenHash row)
            let record ← requireRecord s request.outboxId
            let s ← writeDecision s
              (reclaimDecision request requestHash .applied record.attempt (some tokenHash))
            .ok (.ok (.applied record), s)
          else staleReclaim request requestHash s
        else staleReclaim request requestHash s

end Reclaim

section WorkerResults

structure WorkerOutcome where
  method : WorkerMethod
  state : OutboxState
  certainty : EffectCertainty
  instant : Instant
  receiptRef : Option (BoundedText 2048)
  errorTag : Option DiagnosticTag
  retryAt : Option Instant

def WorkerMethod.mutation : WorkerMethod → OutboxMutationMethod
  | .complete => .complete
  | .fail => .fail
  | .markUnknown => .markUnknown

def outcomeTemporal (outcome : WorkerOutcome) (row : OutboxRecord δ) : Bool :=
  row.claimedAt.any (fun claimed => decide (claimed ≤ outcome.instant)) &&
    row.leaseExpiresAt.any (fun expires => decide (outcome.instant < expires)) &&
    outcome.retryAt.all (fun retry => decide (outcome.instant < retry))

def ownsAttempt (request : WorkerResultRequest) (row : OutboxRecord δ) : Bool :=
  decide (row.state = .started) && decide (row.workerId = some request.workerId) &&
    decide (row.attempt = request.expectedAttempt.1) &&
    decide (row.leaseToken = some request.leaseToken)

def reportable (request : WorkerResultRequest) (outcome : WorkerOutcome) (r : OutboxRecord δ) :
    Bool :=
  decide (r.outboxId = request.outboxId) && ownsAttempt request r &&
    r.claimedAt.any (fun claimed => decide (claimed ≤ outcome.instant)) &&
    r.leaseExpiresAt.any (fun expires => decide (outcome.instant < expires))

def reported (outcome : WorkerOutcome) (r : OutboxRecord δ) : OutboxRecord δ :=
  { r with
    state := outcome.state
    stateChangedAt := outcome.instant
    workerId := none
    claimedAt := none
    leaseToken := none
    leaseExpiresAt := none
    certainty := some outcome.certainty
    retryAt := outcome.retryAt
    receiptRef := outcome.receiptRef
    lastErrorTag := outcome.errorTag
    resultAt := some outcome.instant
    reconciledAt := none
    cancellationReasonTag := none }

def outcomeRow (request : WorkerResultRequest) (outcome : WorkerOutcome) (requestHash : δ)
    (row : OutboxRecord δ) : OutcomeRow δ where
  outboxId := request.outboxId
  attempt := request.expectedAttempt.1
  method := outcome.method
  requestHash := requestHash
  state := outcome.state
  certainty := outcome.certainty
  resultAt := outcome.instant
  receiptRef := outcome.receiptRef
  errorTag := outcome.errorTag
  retryAt := outcome.retryAt
  reconciliationRef := row.reconciliationRef

def outcomeDecision (request : WorkerResultRequest) (outcome : WorkerOutcome) (requestHash : δ) :
    DecisionRow δ where
  key := .outcome request.outboxId request.expectedAttempt.1
  method := outcome.method.mutation
  requestHash := requestHash
  outcome := .applied
  outboxId := some request.outboxId
  attempt := some request.expectedAttempt.1
  tokenHash := none
  resultJson := none

/-- Deletes the stale decision that an applied outcome supersedes. -/
def supersede (s : OutboxTables δ) (key : DecisionKey δ) :
    Option (DecisionRow δ) → Except OutboxFault (OutboxTables δ)
  | none => .ok s
  | some previous =>
    let superseded := fun d : DecisionRow δ => decide (d.key = key) &&
      decide (d.method = previous.method) && decide (d.requestHash = previous.requestHash) &&
      decide (d.outcome = .stale)
    if s.decisions.rows.countP superseded ≠ 1 then .error .corruptState
    else .ok { s with decisions := s.decisions.delete superseded }

def workerResult (request : WorkerResultRequest) (outcome : WorkerOutcome) (requestHash : δ)
    (s : OutboxTables δ) : Except OutboxFault (Answered δ) := do
  let key := DecisionKey.outcome request.outboxId request.expectedAttempt.1
  match s.outcomes.find? (request.outboxId, request.expectedAttempt.1) with
  | some known =>
    if known.method = outcome.method ∧ known.requestHash = requestHash then
      let identity ← requireRecord s request.outboxId
      .ok (.ok (.replayed (recordFromOutcome identity known)), s)
    else .ok (.ok .stale, s)
  | none =>
    let previous := s.decisions.find? key
    if previous.any (fun d => decide (d.method = outcome.method.mutation) &&
        decide (d.requestHash = requestHash) && decide (d.outcome = .stale)) then
      .ok (.ok .stale, s)
    else if previous.any (fun d => decide (d.outcome ≠ .stale)) then .ok (.ok .stale, s)
    else
      match ← readRecord s request.outboxId with
      | none => .ok (.error (errorOf .notFound), s)
      | some row =>
        if !outcomeTemporal outcome row || !ownsAttempt request row then .ok (.ok .stale, s)
        else
          let (s, changes) ← updateOutbox s (reportable request outcome) (reported outcome)
          if changes ≠ 1 then .ok (.ok .stale, s)
          else
            let s ← supersede s key previous
            let s ← writeOutcome s (outcomeRow request outcome requestHash row)
            let record ← requireRecord s request.outboxId
            let s ← writeDecision s (outcomeDecision request outcome requestHash)
            .ok (.ok (.applied record), s)

def CompleteOutboxRequest.outcome (r : CompleteOutboxRequest) : WorkerOutcome :=
  ⟨.complete, .completed, .applied, r.completedAt, r.receiptRef, none, none⟩

def FailOutboxRequest.outcome (r : FailOutboxRequest) : WorkerOutcome :=
  ⟨.fail, .failed, .notApplied, r.failedAt, none, some r.errorTag, r.retryAt⟩

def MarkOutboxUnknownRequest.outcome (r : MarkOutboxUnknownRequest) : WorkerOutcome :=
  ⟨.markUnknown, .unknown, .unknown, r.observedAt, none, some r.errorTag, none⟩

def complete (P : Platform δ) (request : CompleteOutboxRequest) (s : OutboxTables δ) :
    Except OutboxFault (Answered δ) :=
  workerResult request.toWorkerResultRequest request.outcome (hashCanonicalRequest P request.json) s

def fail (P : Platform δ) (request : FailOutboxRequest) (s : OutboxTables δ) :
    Except OutboxFault (Answered δ) :=
  workerResult request.toWorkerResultRequest request.outcome (hashCanonicalRequest P request.json) s

def markUnknown (P : Platform δ) (request : MarkOutboxUnknownRequest) (s : OutboxTables δ) :
    Except OutboxFault (Answered δ) :=
  workerResult request.toWorkerResultRequest request.outcome (hashCanonicalRequest P request.json) s

end WorkerResults

section Resolve

def readResolveReplay (s : OutboxTables δ) (request : ResolveUnknownOutboxRequest)
    (requestHash : δ) : Except OutboxFault (Option (Attempted δ)) := do
  match s.decisions.find? (.resolve request.outboxId request.expectedAttempt.1) with
  | none => .ok none
  | some decision =>
    if decision.method ≠ .resolveUnknown ∨ decision.requestHash ≠ requestHash then
      .ok (some (.error (errorOf .idempotencyConflict)))
    else if decision.outcome = .stale then .ok (some (.ok .stale))
    else
      match s.resolutions.find? (request.outboxId, request.expectedAttempt.1) with
      | none => .ok (some (.error (errorOf .corruptState)))
      | some resolution =>
        if resolution.requestHash ≠ requestHash then
          .ok (some (.error (errorOf .corruptState)))
        else
          let identity ← requireRecord s request.outboxId
          .ok (some (.ok (.replayed (recordFromResolution identity resolution))))

def validResolutionTime (request : ResolveUnknownOutboxRequest) : Bool :=
  match request.resolution with
  | .notApplied _ (some retry) => decide (request.reconciledAt < retry)
  | _ => true

def resolveAuthorised (request : ResolveUnknownOutboxRequest) (row : OutboxRecord δ) : Bool :=
  decide (row.state = .unknown) && decide (row.attempt = request.expectedAttempt.1) &&
    row.resultAt.any (fun result => decide (result ≤ request.reconciledAt)) &&
    validResolutionTime request

def resolutionRow (request : ResolveUnknownOutboxRequest) (requestHash : δ) : ResolutionRow δ where
  outboxId := request.outboxId
  attempt := request.expectedAttempt.1
  requestHash := requestHash
  state := match request.resolution with
    | .applied _ => .completed
    | .notApplied _ _ => .failed
    | .cancelled _ => .cancelled
  certainty := match request.resolution with
    | .applied _ => .applied
    | _ => .notApplied
  reconciledAt := request.reconciledAt
  reconciliationRef := request.reconciliationRef
  receiptRef := match request.resolution with
    | .applied receiptRef => receiptRef
    | _ => none
  errorTag := match request.resolution with
    | .notApplied errorTag _ => some errorTag
    | _ => none
  retryAt := match request.resolution with
    | .notApplied _ retryAt => retryAt
    | _ => none
  cancellationReasonTag := match request.resolution with
    | .cancelled reasonTag => some reasonTag
    | _ => none

def resolvable (request : ResolveUnknownOutboxRequest) (r : OutboxRecord δ) : Bool :=
  decide (r.outboxId = request.outboxId) && decide (r.state = .unknown) &&
    decide (r.attempt = request.expectedAttempt.1) &&
    r.resultAt.any (fun result => decide (result ≤ request.reconciledAt))

def resolved (resolution : ResolutionRow δ) (r : OutboxRecord δ) : OutboxRecord δ :=
  { r with
    state := resolution.state
    stateChangedAt := resolution.reconciledAt
    certainty := some resolution.certainty
    retryAt := resolution.retryAt
    receiptRef := resolution.receiptRef
    lastErrorTag := resolution.errorTag
    resultAt := some resolution.reconciledAt
    reconciliationRef := some resolution.reconciliationRef
    reconciledAt := some resolution.reconciledAt
    cancellationReasonTag := resolution.cancellationReasonTag }

def resolveDecision (request : ResolveUnknownOutboxRequest) (requestHash : δ)
    (outcome : DecisionOutcome) : DecisionRow δ where
  key := .resolve request.outboxId request.expectedAttempt.1
  method := .resolveUnknown
  requestHash := requestHash
  outcome := outcome
  outboxId := some request.outboxId
  attempt := some request.expectedAttempt.1
  tokenHash := none
  resultJson := none

def staleResolution (request : ResolveUnknownOutboxRequest) (requestHash : δ)
    (s : OutboxTables δ) : Except OutboxFault (Answered δ) := do
  let s ← writeDecision s (resolveDecision request requestHash .stale)
  .ok (.ok .stale, s)

def resolveUnknown (P : Platform δ) (request : ResolveUnknownOutboxRequest) (s : OutboxTables δ) :
    Except OutboxFault (Answered δ) := do
  let requestHash := hashCanonicalRequest P request.json
  match ← readResolveReplay s request requestHash with
  | some answer => .ok (answer, s)
  | none =>
    match ← readRecord s request.outboxId with
    | none => .ok (.error (errorOf .notFound), s)
    | some row =>
      if resolveAuthorised request row then
        let (s, changes) ← updateOutbox s (resolvable request)
          (resolved (resolutionRow request requestHash))
        if changes = 1 then
          let s ← writeResolution s (resolutionRow request requestHash)
          let record ← requireRecord s request.outboxId
          let s ← writeDecision s (resolveDecision request requestHash .applied)
          .ok (.ok (.applied record), s)
        else staleResolution request requestHash s
      else staleResolution request requestHash s

end Resolve

section Cleanup

/-- `parseCleanup`: a stored receipt of more than 65536 UTF-16 units is not read back. -/
def parseCleanup (receipt : Option CleanupTerminalOutboxResult) :
    Option CleanupTerminalOutboxResult :=
  receipt.filter fun result =>
    decide (((stringifyCleanup result).map utf16Units).sum ≤ 65536) &&
      decide (result.deletedCount = result.deletedIds.length)

def readCleanupReplay (s : OutboxTables δ) (cleanupId : BoundedText 512) (requestHash : δ) :
    Option (Attempted δ) :=
  match s.decisions.find? (.cleanup cleanupId) with
  | none => none
  | some decision =>
    if decision.method ≠ .cleanupTerminal ∨ decision.requestHash ≠ requestHash then
      some (.error (errorOf .idempotencyConflict))
    else
      match parseCleanup decision.resultJson with
      | some result => some (.ok (.cleanupReplayed result))
      | none => some (.error (errorOf .corruptState))

/-- `state='cancelled' OR (state='failed' AND certainty='not_applied' AND retry_at IS NULL)`. -/
def terminal (r : OutboxRecord δ) : Bool :=
  decide (r.state = .cancelled) ||
    (decide (r.state = .failed) && decide (r.certainty = some .notApplied) && r.retryAt.isNone)

def afterCursor (after : Option OutboxCursor) (r : OutboxRecord δ) : Bool :=
  after.all fun cursor => decide (cursor.stateChangedAt < r.stateChangedAt) ||
    (decide (r.stateChangedAt = cursor.stateChangedAt) && decide (cursor.outboxId < r.outboxId))

def cleansBefore (a b : OutboxRecord δ) : Prop :=
  a.stateChangedAt < b.stateChangedAt ∨
    a.stateChangedAt = b.stateChangedAt ∧ a.outboxId ≤ b.outboxId

instance : DecidableRel (cleansBefore (δ := δ)) := fun _ _ =>
  inferInstanceAs (Decidable (_ ∨ _ ∧ _))

def selectTerminal (s : OutboxTables δ) (request : CleanupTerminalOutboxRequest) :
    List (OutboxRecord δ) :=
  ((s.outbox.rows.filter fun r => decide (r.stateChangedAt < request.before) && terminal r &&
    afterCursor request.after r).insertionSort cleansBefore).take request.limit.1

/-- The delete statements for the selected rows, in order. -/
def deleteRows (referenced : BoundedText 512 → Bool) :
    List (OutboxRecord δ) → OutboxTables δ → Except OutboxFault (OutboxTables δ)
  | [], s => .ok s
  | row :: rows, s =>
    let removed := fun r : OutboxRecord δ => decide (r.outboxId = row.outboxId) &&
      decide (r.stateChangedAt = row.stateChangedAt) && terminal r
    if (s.outbox.rows.any fun r => removed r && referenced r.outboxId) then .error .constraint
    else if s.outbox.rows.countP removed ≠ 1 then .error .corruptState
    else
      deleteRows referenced rows
        { s with
          decisions := s.decisions.delete fun d => decide (d.outboxId = some row.outboxId)
          outcomes := s.outcomes.delete fun o => decide (o.outboxId = row.outboxId)
          resolutions := s.resolutions.delete fun o => decide (o.outboxId = row.outboxId)
          outbox := s.outbox.delete removed }

def cleanupResult (limit : ℕ) (rows : List (OutboxRecord δ)) : CleanupTerminalOutboxResult where
  deletedIds := rows.map fun r => r.outboxId
  deletedCount := rows.length
  nextCursor :=
    if rows.length = limit then
      rows.getLast?.map fun last => ⟨last.stateChangedAt, last.outboxId⟩
    else none

def cleanupDecision (request : CleanupTerminalOutboxRequest) (requestHash : δ)
    (result : CleanupTerminalOutboxResult) : DecisionRow δ where
  key := .cleanup request.cleanupId
  method := .cleanupTerminal
  requestHash := requestHash
  outcome := .applied
  outboxId := none
  attempt := none
  tokenHash := none
  resultJson := some result

def cleanupTerminal (P : Platform δ) (referenced : BoundedText 512 → Bool)
    (request : CleanupTerminalOutboxRequest) (s : OutboxTables δ) :
    Except OutboxFault (Answered δ) := do
  let requestHash := hashCanonicalRequest P request.json
  match readCleanupReplay s request.cleanupId requestHash with
  | some answer => .ok (answer, s)
  | none =>
    let rows := selectTerminal s request
    let s ← deleteRows referenced rows s
    let s ← writeDecision s
      (cleanupDecision request requestHash (cleanupResult request.limit.1 rows))
    .ok (.ok (.cleaned (cleanupResult request.limit.1 rows)), s)

end Cleanup

section Mutate

/-- One transaction of the store. -/
def apply (referenced : BoundedText 512 → Bool) :
    OutboxMutation P → OutboxTables δ → Except OutboxFault (Answered δ)
  | .enqueue request => insertEnqueue request
  | .claimNext request => claimNext P request
  | .reclaim request => reclaim P request
  | .complete request => complete P request
  | .fail request => fail P request
  | .markUnknown request => markUnknown P request
  | .resolveUnknown request => resolveUnknown P request
  | .cleanupTerminal request => cleanupTerminal P referenced request

/-- What the runtime's `before_effect` hook reports. -/
inductive FaultObservation where
  | clear
  | preTransaction
  | inTransaction
  | unreadable
  deriving DecidableEq

structure OutboxAdapterRuntime where
  beforeEffect : FaultObservation
  lostAcknowledgement : Bool

def OutboxAdapterRuntime.faultFree : OutboxAdapterRuntime := ⟨.clear, false⟩

def classifyDatabaseError : OutboxFault → OutboxStoreError
  | .corruptState => errorOf .corruptState
  | .constraint => errorOf .corruptState

/-- One call of the store. A request that the normaliser rejects is `none`. -/
def mutate (referenced : BoundedText 512 → Bool) (runtime : OutboxAdapterRuntime)
    (request : Option (OutboxMutation P)) (s : OutboxTables δ) : Attempted δ × OutboxTables δ :=
  match request with
  | none => (.error (errorOf .invalidRequest), s)
  | some request =>
    if runtime.beforeEffect = .preTransaction ∨ runtime.beforeEffect = .unreadable then
      (.error storageUnavailable, s)
    else
      match apply referenced request s with
      | .error fault => (.error (classifyDatabaseError fault), s)
      | .ok (.error e, s') => (.error e, s')
      | .ok (.ok answer, s') =>
        if runtime.beforeEffect = .inTransaction then (.error storageUnavailable, s)
        else if runtime.lostAcknowledgement then (.error lostAcknowledgement, s')
        else (.ok answer, s')

end Mutate

end Piclaw
