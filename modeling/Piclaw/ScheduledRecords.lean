import Piclaw.ScheduledRequests

/-!
# Reading scheduled runs

The rows of the scheduled-run store as the records it answers with. A record is decoded from its
row and checked against the evidence that earlier statements left: the leases of every attempt
with their renewals, the bound source, the linked outbox rows, and, once the run is settled, its
next decision and its run log or abandonment. Evidence that does not match throws `CorruptState`.
-/

namespace Piclaw.Scheduled
open Relational
variable {δ Ω : Type} [DecidableEq δ] (P : ScheduledPlatform δ) (H : ScheduledHost δ Ω)

/-- The tables of the store beside those of other owners. -/
structure ScheduledState (δ Ω : Type) extends ScheduledTables δ where
  host : Ω

section Heads

def readScheduledTaskHead (s : ScheduledState δ Ω) (taskId : ScheduledId) :
    Option ScheduledTaskHead :=
  s.tasks.find? taskId

/-- The sole writer of heads; the answer says whether one row changed. -/
def writeScheduledTaskHead (s : ScheduledState δ Ω) (previous : Option ScheduledTaskHead)
    (next : ScheduledTaskHead) : Except ScheduledFault (Bool × ScheduledState δ Ω) :=
  match previous with
  | none => do
    let tasks ← constrained (s.tasks.insert? next)
    .ok (true, { s with tasks := tasks })
  | some previous => do
    ensure (decide (next.taskId = previous.taskId) && decide (previous.revision ≤ next.revision))
      .refused
    let (tasks, changes) ← constrained (s.tasks.update? (fun r => decide (r = previous)) fun r =>
      { r with revision := next.revision, status := next.status, nextRunAt := next.nextRunAt })
    .ok (decide (changes = 1), { s with tasks := tasks })

end Heads

section Snapshots

def readSnapshot (s : ScheduledState δ Ω) (taskId : ScheduledId) (revision : PositiveInteger) :
    Except ScheduledFault (ScheduledTaskSnapshot δ) :=
  match s.revisions.find? (taskId, revision) with
  | none => .error .corruptState
  | some row =>
    if decodeTaskSnapshot P row.snapshot && decide (row.snapshot.configHash = row.configHash) then
      .ok row.snapshot
    else .error .corruptState

def computeScheduledSuccessor (snapshot : ScheduledTaskSnapshot δ)
    (scheduledFor settledAt : CanonicalInstant) : Option CanonicalInstant :=
  match snapshot.schedule with
  | .once _ => none
  | .interval milliseconds => addCanonicalDuration settledAt milliseconds.1
  | .cron expression => P.computeNextRun expression snapshot.timezone scheduledFor

end Snapshots

section Decoding

def retainedShape (v : ScheduledRunRecord δ) : Bool :=
  (decide (v.state = .completed) || decide (v.state = .abandoned)) && v.workerId.isNone &&
    v.leaseExpiresAt.isNone && v.acceptedSourceSeq.isNone && v.operationId.isNone &&
    v.durationMs.isNone && v.resultRef.isNone && v.errorCode.isNone &&
    v.abandonmentReasonTag.isNone && decide (v.headDisposition ≠ .pending) && v.settledAt.isSome &&
    v.outboxIds.isEmpty && (decide (v.state = .completed) == v.status.isSome)

def activeShape (v : ScheduledRunRecord δ) : Bool :=
  v.workerId.isSome && v.leaseExpiresAt.isSome && v.status.isNone && v.durationMs.isNone &&
    v.resultRef.isNone && v.errorCode.isNone && v.nextRunAt.isNone &&
    decide (v.headDisposition = .pending) && v.settledAt.isNone && v.abandonmentReasonTag.isNone &&
    v.outboxIds.isEmpty && (decide (v.state = .sourceBound) == v.acceptedSourceSeq.isSome)

def completedShape (v : ScheduledRunRecord δ) : Bool :=
  v.workerId.isNone && v.leaseExpiresAt.isNone && v.durationMs.isSome &&
    decide (v.headDisposition ≠ .pending) && v.settledAt.isSome && v.abandonmentReasonTag.isNone &&
    (match v.status with
      | some .success => v.resultRef.isSome && v.errorCode.isNone
      | some .error => v.resultRef.isNone && v.errorCode.isSome
      | none => false)

def abandonedShape (v : ScheduledRunRecord δ) : Bool :=
  v.workerId.isNone && v.leaseExpiresAt.isNone && v.status.isNone && v.durationMs.isNone &&
    v.resultRef.isNone && v.errorCode.isNone && decide (v.headDisposition ≠ .pending) &&
    v.settledAt.isSome && v.abandonmentReasonTag.isSome && v.outboxIds.isEmpty

def decodeScheduledRunRecord (v : ScheduledRunRecord δ) : Bool :=
  decide (v.runId = P.deriveScheduledRunId v.taskId v.taskRevision v.scheduledFor) &&
    decide (1 ≤ v.attempt) && decide (v.attempt ≤ maxSafeInteger) &&
    decide (v.outboxIds.length ≤ 100) && decide v.outboxIds.Nodup &&
    (v.acceptedSourceSeq.isNone == v.operationId.isNone) &&
    (if v.retained then retainedShape v
      else match v.state with
        | .claimed | .sourceBound => activeShape v
        | .completed => completedShape v
        | .abandoned => abandonedShape v)

def recordOfRow (run : RunRow δ) (outboxIds : List ScheduledId) : ScheduledRunRecord δ where
  runId := run.runId
  taskId := run.taskId
  taskRevision := run.taskRevision
  scheduledFor := run.scheduledFor
  state := run.state
  attempt := run.attempt
  workerId := run.workerId
  leaseExpiresAt := run.leaseExpiresAt
  acceptedSourceSeq := run.acceptedSourceSeq
  operationId := run.operationId
  status := run.resultStatus
  durationMs := run.durationMs
  resultRef := run.resultRef
  errorCode := run.errorCode
  nextRunAt := run.nextRunAt
  headDisposition := run.headDisposition
  settledAt := run.settledAt
  abandonmentReasonTag := run.abandonmentReasonTag
  outboxIds := outboxIds
  retained := false

def recordOfTombstone (row : TombstoneRow δ) : ScheduledRunRecord δ where
  runId := row.runId
  taskId := row.taskId
  taskRevision := row.taskRevision
  scheduledFor := row.scheduledFor
  state := row.state
  attempt := row.attempt
  workerId := none
  leaseExpiresAt := none
  acceptedSourceSeq := none
  operationId := none
  status := row.status
  durationMs := none
  resultRef := none
  errorCode := none
  nextRunAt := row.nextRunAt
  headDisposition := row.headDisposition
  settledAt := some row.settledAt
  abandonmentReasonTag := none
  outboxIds := []
  retained := true

end Decoding

section Evidence

def leasesOf (s : ScheduledState δ Ω) (runId : δ) : List (RunLeaseRow δ) :=
  (s.leases.rows.filter (fun r => decide (r.runId = runId))).insertionSort
    (fun a b => a.attempt ≤ b.attempt)

def renewalsOf (s : ScheduledState δ Ω) (runId : δ) (attempt : ℕ) : List (RenewalRow δ) :=
  (s.renewals.rows.filter (fun r =>
    decide (r.runId = runId) && decide (r.attempt = attempt))).insertionSort
    (fun a b => a.ordinal ≤ b.ordinal)

def linksOf (s : ScheduledState δ Ω) (runId : δ) : List (OutboxLinkRow δ) :=
  (s.links.rows.filter (fun r => decide (r.runId = runId))).insertionSort
    (fun a b => a.ordinal ≤ b.ordinal)

def authorityValid (repeatability : ExecutionRepeatability) (row : RunLeaseRow δ) : Bool :=
  if row.attempt = 1 then decide (row.authorityKind = .new) && row.reconciliationRef.isNone
  else match repeatability with
    | .agentSource =>
      decide (row.authorityKind = .agentReconciledAbsent) && row.reconciliationRef.isSome
    | .repeatable => decide (row.authorityKind = .repeatable) && row.reconciliationRef.isNone
    | .reconciliationRequired =>
      decide (row.authorityKind = .reconciledAbsent) && row.reconciliationRef.isSome

def renewalFollows (claimedAt : CanonicalInstant) (previous : Option CanonicalInstant) (index : ℕ)
    (renewal : RenewalRow δ) : Bool :=
  decide (renewal.ordinal = index + 1) &&
    (match previous with
      | none => decide (claimedAt < renewal.previousExpiresAt)
      | some expires => decide (renewal.previousExpiresAt = expires)) &&
    decide (renewal.previousExpiresAt < renewal.leaseExpiresAt) &&
    decide (claimedAt ≤ renewal.renewedAt) && decide (renewal.renewedAt < renewal.leaseExpiresAt)

/-- The expiry at which a chain of renewals ends, when every renewal follows the one before. -/
def renewalChain (claimedAt : CanonicalInstant) :
    Option CanonicalInstant → ℕ → List (RenewalRow δ) → Option (Option CanonicalInstant)
  | previous, _, [] => some previous
  | previous, index, renewal :: renewals =>
    if renewalFollows claimedAt previous index renewal then
      renewalChain claimedAt (some renewal.leaseExpiresAt) (index + 1) renewals
    else none

def leaseRowValid (s : ScheduledState δ Ω) (run : RunRow δ)
    (repeatability : ExecutionRepeatability) (index : ℕ) (row : RunLeaseRow δ) : Bool :=
  decide (row.attempt = index + 1) && decide (row.claimedAt < row.leaseExpiresAt) &&
    authorityValid repeatability row &&
    (match renewalChain row.claimedAt none 0 (renewalsOf s run.runId row.attempt) with
      | none => false
      | some previous => previous.all (fun expires => decide (expires = row.leaseExpiresAt))) &&
    (!run.state.active || decide (row.attempt ≠ run.attempt) ||
      (decide (some row.tokenHash = run.leaseTokenHash) && decide (some row.workerId = run.workerId) &&
        decide (row.claimedAt = run.claimedAt) &&
        decide (some row.leaseExpiresAt = run.leaseExpiresAt)))

def validateLeaseEvidence (s : ScheduledState δ Ω) (run : RunRow δ)
    (repeatability : ExecutionRepeatability) : Bool :=
  decide ((leasesOf s run.runId).length = run.attempt) &&
    (leasesOf s run.runId).zipIdx.all (fun p => leaseRowValid s run repeatability p.2 p.1)

def validateSourceBinding (s : ScheduledState δ Ω) (run : RunRow δ)
    (snapshot : ScheduledTaskSnapshot δ) : Bool :=
  match run.acceptedSourceSeq, run.operationId with
  | some sourceSeq, some operationId =>
    (s.bindings.find? run.runId).any (fun row =>
      decide (row.chatJid = snapshot.chatJid) && decide (row.sourceSeq = sourceSeq) &&
        decide (row.operationId = operationId)) &&
      (H.sourceOwner s.host snapshot.chatJid sourceSeq operationId).any (fun owner =>
        decide (owner.sourceId = P.runIdText run.runId) && decide (owner.kind = .scheduledAgent) &&
          decide (owner.primarySourceSeq = sourceSeq.1))
  | _, _ => true

def linkValid (s : ScheduledState δ Ω) (run : RunRow δ) (index : ℕ) (link : OutboxLinkRow δ) :
    Bool :=
  decide (link.ordinal = index) && (H.linkedOutbox s.host link.outboxId).any (fun target =>
    decide (target.outboxId = link.outboxId) && decide (target.operationId = run.operationId) &&
      decide (target.sourceSeq = run.acceptedSourceSeq.map Subtype.val) &&
      target.decision.any (fun d =>
        decide (d.method = .enqueue) && decide (d.requestHash = target.requestHash) &&
          decide (d.outcome = .applied) && decide (d.outboxId = link.outboxId) &&
          decide (d.attempt = 0) && d.leaseTokenHash.isNone && d.resultIsNull))

def linksValid (s : ScheduledState δ Ω) (run : RunRow δ) : Bool :=
  decide ((linksOf s run.runId).map OutboxLinkRow.outboxId).Nodup &&
    (linksOf s run.runId).zipIdx.all (fun p => linkValid H s run p.2 p.1)

/-- The next decision of a settled run against its row. -/
def nextMatches (run : RunRow δ) (next : NextDecisionRow δ) : Bool :=
  decide (next.taskId = run.taskId) && decide (next.taskRevision = run.taskRevision) &&
    decide (next.scheduledFor = run.scheduledFor) &&
    decide (next.headDisposition = run.headDisposition) &&
    decide (some next.decidedAt = run.settledAt) &&
    decide (run.nextRunAt =
      if run.headDisposition = .advanced ∨ run.headDisposition = .paused then next.computedNextRunAt
      else none) &&
    decide (next.effectiveNextRunAt =
      if run.headDisposition = .advanced then next.computedNextRunAt else none)

def logMatches (run : RunRow δ) (snapshot : ScheduledTaskSnapshot δ) (log : RunLogRow δ) : Bool :=
  decide (log.taskId = run.taskId) && decide (log.taskRevision = run.taskRevision) &&
    decide (log.scheduledFor = run.scheduledFor) && decide (log.taskKind = snapshot.kind) &&
    decide (some log.completedAt = run.settledAt) && decide (some log.durationMs = run.durationMs) &&
    decide (some log.status = run.resultStatus) && decide (log.resultRef = run.resultRef) &&
    decide (log.errorCode = run.errorCode)

def abandonmentMatches (run : RunRow δ) (row : AbandonmentRow δ) : Bool :=
  decide (some row.reasonTag = run.abandonmentReasonTag) &&
    decide (some row.abandonedAt = run.settledAt)

def successorMatches (run : RunRow δ) (snapshot : ScheduledTaskSnapshot δ)
    (retryAt : Option CanonicalInstant) (settledAt : CanonicalInstant) (next : NextDecisionRow δ) :
    Bool :=
  let computed := retryAt.or (computeScheduledSuccessor P snapshot run.scheduledFor settledAt)
  (computed.isSome || (match snapshot.schedule with | .once _ => true | _ => false)) &&
    decide (next.computedNextRunAt = computed)

def validateTerminalEvidence (s : ScheduledState δ Ω) (run : RunRow δ)
    (snapshot : ScheduledTaskSnapshot δ) : Bool :=
  match run.settledAt, s.next.find? run.runId with
  | some settledAt, some next =>
    nextMatches run next &&
      (match run.state with
        | .completed =>
          (s.logs.find? run.runId).any (logMatches run snapshot) &&
            successorMatches P run snapshot none settledAt next
        | .abandoned => (s.abandonments.find? run.runId).any (fun row =>
            abandonmentMatches run row && successorMatches P run snapshot row.retryAt settledAt next)
        | _ => true)
  | _, _ => false

def recordFromRun (s : ScheduledState δ Ω) (run : RunRow δ) :
    Except ScheduledFault (ScheduledRunRecord δ) := do
  ensure (decide (run.runId = P.deriveScheduledRunId run.taskId run.taskRevision run.scheduledFor))
    .corruptState
  ensure (linksValid H s run) .corruptState
  let record := recordOfRow run ((linksOf s run.runId).map OutboxLinkRow.outboxId)
  ensure (decodeScheduledRunRecord P record) .corruptState
  let snapshot ← readSnapshot P s run.taskId run.taskRevision
  ensure (decide (snapshot.kind = .agent) || run.acceptedSourceSeq.isNone) .corruptState
  ensure (decide (snapshot.kind ≠ .agent) || run.acceptedSourceSeq.isSome ||
    !(decide (run.state = .sourceBound) || decide (run.state = .completed))) .corruptState
  ensure (validateLeaseEvidence s run snapshot.executionRepeatability) .corruptState
  ensure (validateSourceBinding P H s run snapshot) .corruptState
  ensure (run.state.active || validateTerminalEvidence P s run snapshot) .corruptState
  .ok record

end Evidence

section Reading

def readRunRow (s : ScheduledState δ Ω) (runId : δ) :
    Except ScheduledFault (Option (RunRow δ)) :=
  match s.occurrences.find? runId with
  | none => .ok none
  | some row =>
    if row.runId = P.deriveScheduledRunId row.taskId row.taskRevision row.scheduledFor then
      .ok (some row)
    else .error .corruptState

def readTombstone (s : ScheduledState δ Ω) (runId : δ) :
    Except ScheduledFault (Option (TombstoneRow δ)) :=
  match s.tombstones.find? runId with
  | none => .ok none
  | some row =>
    if decodeScheduledRunRecord P (recordOfTombstone row) then .ok (some row)
    else .error .corruptState

def readRecord (s : ScheduledState δ Ω) (runId : δ) :
    Except ScheduledFault (Option (ScheduledRunRecord δ)) := do
  match ← readRunRow P s runId with
  | some run => (recordFromRun P H s run).map some
  | none => return (← readTombstone P s runId).map recordOfTombstone

def requireRecord (s : ScheduledState δ Ω) (runId : δ) :
    Except ScheduledFault (ScheduledRunRecord δ) := do
  match ← readRecord P H s runId with
  | some record => .ok record
  | none => .error .corruptState

def requireActiveRecord (record : ScheduledRunRecord δ) :
    Except ScheduledFault (ScheduledRunRecord δ) := do
  ensure (record.state.active && record.workerId.isSome && record.leaseExpiresAt.isSome)
    .corruptState
  .ok record

def recordFromJson (s : ScheduledState δ Ω) (saved : ScheduledRunRecord δ) :
    Except ScheduledFault (ScheduledRunRecord δ) := do
  ensure (decodeScheduledRunRecord P saved) .corruptState
  let current ← requireRecord P H s saved.runId
  ensure (decide (current.taskId = saved.taskId) &&
    decide (current.taskRevision = saved.taskRevision) &&
    decide (current.scheduledFor = saved.scheduledFor) &&
    decide (saved.attempt ≤ current.attempt)) .corruptState
  .ok (if current.retained then current else saved)

end Reading

section Decisions

/-- The stored result of an earlier request with the same key. -/
def replay (s : ScheduledState δ Ω) (key : RunDecisionKey δ) (requestHash : δ)
    (method : MutationMethod) (expectedRunId : Option δ) :
    Except ScheduledFault (Option (StoredResult δ)) :=
  match s.decisions.find? key with
  | none => .ok none
  | some row => do
    ensureOr (decide (row.method = method) && decide (row.requestHash = requestHash))
      .idempotencyConflict
    ensure (decide (row.runId = expectedRunId)) .corruptState
    .ok (some row.result)

def replayRecordOrRetained (s : ScheduledState δ Ω) (key : RunDecisionKey δ)
    (method : MutationMethod) (requestHash : δ) (runId : δ) :
    Except ScheduledFault (Option (ScheduledRunRecord δ)) := do
  match ← replay s key requestHash method (some runId) with
  | some (.record saved) => (recordFromJson P H s saved).map some
  | some _ => .error .corruptState
  | none =>
    match ← readTombstone P s runId with
    | none => .ok none
    | some tombstone => do
      ensureOr (decide (tombstone.decisionMethod = method) &&
        decide (tombstone.decisionHash = requestHash)) .idempotencyConflict
      .ok (some (recordOfTombstone tombstone))

def writeDecision (s : ScheduledState δ Ω) (row : RunDecisionRow δ) :
    Except ScheduledFault (ScheduledState δ Ω) := do
  ensure (decide (2 ≤ P.resultLength row.result) && decide (P.resultLength row.result ≤ 65536))
    .constraint
  let decisions ← constrained (s.decisions.insert? row)
  .ok { s with decisions := decisions }

def requireFencedRun (s : ScheduledState δ Ω) (request : Fence δ) (tokenHash : δ) :
    Except ScheduledFault (RunRow δ) := do
  match ← readRunRow P s request.runId with
  | none =>
    match ← readTombstone P s request.runId with
    | some _ => abort .invalidTransition
    | none => abort .notFound
  | some run => do
    let _ ← recordFromRun P H s run
    ensure (decide (run.taskRevision = request.expectedTaskRevision)) (.abortMutation
      { runErrorOf .taskRevisionMismatch with observedTaskRevision := some run.taskRevision })
    ensureOr run.state.active .invalidTransition
    ensure (decide (run.workerId = some request.workerId) &&
      decide (run.attempt = request.expectedAttempt.1) &&
      decide (run.leaseTokenHash = some tokenHash)) (.abortMutation
        { runErrorOf .leaseConflict with observedAttempt := some run.attempt })
    ensure (run.leaseExpiresAt.any (fun expires => decide (request.now < expires))) (.abortMutation
      { runErrorOf .leaseExpired with observedAttempt := some run.attempt })
    .ok run

end Decisions

end Piclaw.Scheduled
