import Piclaw.ScheduledRecords

/-!
# The EF-S07 scheduled-run store

Each mutation runs in one SQL transaction: it either throws, and nothing has happened, or returns
its answer with the new tables. A claim takes due slots and expired runs in one batch; a settlement
decides where the task's head goes next. `mutate` adds the admission checks, the injected faults
and the lost acknowledgement.
-/

namespace Piclaw.Scheduled
open Relational
variable {δ Ω : Type} [DecidableEq δ] (P : ScheduledPlatform δ) (H : ScheduledHost δ Ω)

structure ScheduledRunLease (δ : Type) where
  record : ScheduledRunRecord δ
  task : ScheduledTaskSnapshot δ
  leaseToken : ScheduledRef
  deriving DecidableEq

inductive ScheduledAnswer (δ : Type) where
  | leases (leases : List (ScheduledRunLease δ))
  | lease (lease : ScheduledRunLease δ)
  | record (record : ScheduledRunRecord δ)
  | cleanup (result : CleanupScheduledRunsResult δ)
  deriving DecidableEq

abbrev Committed (δ Ω : Type) := ScheduledAnswer δ × ScheduledState δ Ω

section Claiming

inductive CandidateKind where
  | expired
  | new
  deriving DecidableEq

def CandidateKind.name : CandidateKind → String
  | .expired => "expired"
  | .new => "new"

structure Candidate (δ : Type) where
  kind : CandidateKind
  taskId : ScheduledId
  scheduledFor : CanonicalInstant
  runId : Option δ
  deriving DecidableEq

/-- No run of this revision stands or stood at the slot. -/
def slotFree (s : ScheduledState δ Ω) (taskId : ScheduledId) (revision : PositiveInteger)
    (scheduledFor : CanonicalInstant) : Bool :=
  s.occurrences.rows.all (fun r => !(decide (r.taskId = taskId) &&
    decide (r.taskRevision = revision) && decide (r.scheduledFor = scheduledFor))) &&
  s.tombstones.rows.all (fun r => !(decide (r.taskId = taskId) &&
    decide (r.taskRevision = revision) && decide (r.scheduledFor = scheduledFor)))

def dueCandidate (s : ScheduledState δ Ω) (now : CanonicalInstant) (head : ScheduledTaskHead) :
    Option (Candidate δ) :=
  match head.nextRunAt with
  | none => none
  | some scheduledFor =>
    if head.status = .active ∧ scheduledFor ≤ now ∧
        slotFree s head.taskId head.revision scheduledFor then
      some ⟨.new, head.taskId, scheduledFor, none⟩
    else none

def dueBefore (a b : Candidate δ) : Bool :=
  decide (a.scheduledFor < b.scheduledFor) ||
    (decide (a.scheduledFor = b.scheduledFor) && decide (a.taskId.1 ≤ b.taskId.1))

def dueCandidates (s : ScheduledState δ Ω) (now : CanonicalInstant) : List (Candidate δ) :=
  ((s.tasks.rows.filterMap (dueCandidate s now)).insertionSort
    (fun a b => dueBefore a b)).take 100

def expiredCandidate (s : ScheduledState δ Ω) (now : CanonicalInstant)
    (authority : ReclaimAuthority δ) : Option (Candidate δ) :=
  match s.occurrences.find? authority.runId with
  | none => none
  | some run =>
    if run.attempt = authority.expectedAttempt.1 ∧ run.state.active ∧
        run.leaseExpiresAt.any (fun expires => decide (expires ≤ now)) then
      some ⟨.expired, run.taskId, run.scheduledFor, some run.runId⟩
    else none

def expiredBefore (a b : Candidate δ) : Bool :=
  decide (a.scheduledFor < b.scheduledFor) ||
    (decide (a.scheduledFor = b.scheduledFor) &&
      (decide (a.taskId.1 < b.taskId.1) || (decide (a.taskId = b.taskId) &&
        decide ((a.runId.map P.runIdText).getD "" ≤ (b.runId.map P.runIdText).getD ""))))

def expiredCandidates (s : ScheduledState δ Ω) (now : CanonicalInstant)
    (authorities : List (ReclaimAuthority δ)) : List (Candidate δ) :=
  (authorities.filterMap (expiredCandidate s now)).insertionSort (fun a b => expiredBefore P a b)

/-- The order in which one batch visits its candidates. -/
def candidateLe (a b : Candidate δ) : Bool :=
  match compare a.scheduledFor.1 b.scheduledFor.1 with
  | .lt => true
  | .gt => false
  | .eq =>
    match P.localeCompare a.taskId.1 b.taskId.1 with
    | .lt => true
    | .gt => false
    | .eq => decide (P.localeCompare a.kind.name b.kind.name ≠ .gt)

structure ClaimProgress (δ Ω : Type) where
  state : ScheduledState δ Ω
  leases : List (ScheduledRunLease δ)
  replayRows : List (ClaimReplayRow δ)

def grantLease (progress : ClaimProgress δ Ω) (s : ScheduledState δ Ω) (runId : δ) (attempt : ℕ)
    (state : RunState) (snapshot : ScheduledTaskSnapshot δ) (token : ScheduledRef) :
    Except ScheduledFault (ClaimProgress δ Ω) := do
  let record ← requireActiveRecord (← requireRecord P H s runId)
  .ok ⟨s, progress.leases ++ [⟨record, snapshot, token⟩],
    progress.replayRows ++ [⟨runId, attempt, state⟩]⟩

def newRun (request : ClaimDueRunsRequest δ) (candidate : Candidate δ)
    (snapshot : ScheduledTaskSnapshot δ) (runId tokenHash : δ) (expires : CanonicalInstant) :
    RunRow δ where
  runId := runId
  taskId := candidate.taskId
  taskRevision := snapshot.revision
  scheduledFor := candidate.scheduledFor
  state := .claimed
  attempt := 1
  workerId := some request.workerId
  leaseTokenHash := some tokenHash
  claimedAt := request.now
  leaseExpiresAt := some expires
  acceptedSourceSeq := none
  operationId := none
  resultStatus := none
  durationMs := none
  resultRef := none
  errorCode := none
  nextRunAt := none
  headDisposition := .pending
  settledAt := none
  abandonmentReasonTag := none

def leaseExpiry (request : ClaimDueRunsRequest δ) : Except ScheduledFault CanonicalInstant :=
  require (.abortMutation (runErrorOf .invalidRequest))
    (addCanonicalDuration request.now request.leaseDurationMs)

def claimNew (request : ClaimDueRunsRequest δ) (candidate : Candidate δ)
    (progress : ClaimProgress δ Ω) : Except ScheduledFault (ClaimProgress δ Ω) := do
  let s := progress.state
  match readScheduledTaskHead s candidate.taskId with
  | none => .ok progress
  | some head =>
    if head.status ≠ .active ∨ head.nextRunAt ≠ some candidate.scheduledFor then .ok progress
    else do
      let runId := P.deriveScheduledRunId candidate.taskId head.revision candidate.scheduledFor
      let existing ← readRunRow P s runId
      let tombstone ← readTombstone P s runId
      if existing.isSome || tombstone.isSome then .ok progress
      else do
        let snapshot ← readSnapshot P s candidate.taskId head.revision
        let expires ← leaseExpiry request
        let token := P.deriveScheduledLeaseToken request.leaseTokenPrefix runId 1
        let tokenHash := P.hashScheduledLeaseToken token.1
        let occurrences ← constrained
          (s.occurrences.insert? (newRun request candidate snapshot runId tokenHash expires))
        let leases ← constrained (s.leases.insert?
          ⟨runId, 1, tokenHash, request.workerId, request.now, expires, .new, none⟩)
        grantLease P H progress { s with occurrences := occurrences, leases := leases } runId 1
          .claimed snapshot token

/-- The kind of authority under which a run may be claimed again, with its reference. -/
def matchingAuthority (repeatability : ExecutionRepeatability) :
    Option (ReclaimAuthority δ) → Option (AuthorityKind × Option ScheduledRef)
  | none => none
  | some authority =>
    match repeatability, authority.evidence with
    | .agentSource, .agentReconciledAbsent ref => some (.agentReconciledAbsent, some ref)
    | .repeatable, .repeatable => some (.repeatable, none)
    | .reconciliationRequired, .reconciledAbsent ref => some (.reconciledAbsent, some ref)
    | _, _ => none

def claimExpired (request : ClaimDueRunsRequest δ) (candidate : Candidate δ)
    (progress : ClaimProgress δ Ω) : Except ScheduledFault (ClaimProgress δ Ω) := do
  let s := progress.state
  match candidate.runId with
  | none => .ok progress
  | some runId =>
    match ← readRunRow P s runId with
    | none => .ok progress
    | some run =>
      if run.leaseExpiresAt.any (fun expires => decide (request.now < expires)) then .ok progress
      else do
        let snapshot ← readSnapshot P s run.taskId run.taskRevision
        let authority := request.reclaimAuthorities.find? (fun item =>
          decide (item.runId = run.runId) && decide (item.expectedAttempt.1 = run.attempt))
        match matchingAuthority snapshot.executionRepeatability authority with
        | none => .ok progress
        | some (authorityKind, reconciliationRef) => do
          let attempt := run.attempt + 1
          ensure (decide (attempt ≤ maxSafeInteger)) .corruptState
          let expires ← leaseExpiry request
          let token := P.deriveScheduledLeaseToken request.leaseTokenPrefix run.runId attempt
          let tokenHash := P.hashScheduledLeaseToken token.1
          let (occurrences, changes) ← constrained (s.occurrences.update?
            (fun r => decide (r.runId = run.runId) && decide (r.attempt = run.attempt) &&
              r.state.active && r.leaseExpiresAt.any (fun e => decide (e ≤ request.now)))
            fun r => { r with
              attempt := attempt
              workerId := some request.workerId
              leaseTokenHash := some tokenHash
              claimedAt := request.now
              leaseExpiresAt := some expires })
          if changes ≠ 1 then .ok progress
          else do
            let leases ← constrained (s.leases.insert? ⟨run.runId, attempt, tokenHash,
              request.workerId, request.now, expires, authorityKind, reconciliationRef⟩)
            grantLease P H progress { s with occurrences := occurrences, leases := leases }
              run.runId attempt run.state snapshot token

def claimCandidate (request : ClaimDueRunsRequest δ) (progress : ClaimProgress δ Ω)
    (candidate : Candidate δ) : Except ScheduledFault (ClaimProgress δ Ω) :=
  match candidate.kind with
  | .new => claimNew P H request candidate progress
  | .expired => claimExpired P H request candidate progress

def claimCandidates (request : ClaimDueRunsRequest δ) :
    List (Candidate δ) → ClaimProgress δ Ω → Except ScheduledFault (ClaimProgress δ Ω)
  | [], progress => .ok progress
  | candidate :: candidates, progress =>
    if request.limit ≤ progress.leases.length then .ok progress
    else do
      let progress ← claimCandidate P H request progress candidate
      claimCandidates request candidates progress

def restoreLease (s : ScheduledState δ Ω) (request : ClaimDueRunsRequest δ)
    (row : ClaimReplayRow δ) : Except ScheduledFault (ScheduledRunLease δ) := do
  let existing ← readRunRow P s row.runId
  let tombstone ← readTombstone P s row.runId
  match existing with
  | none => if tombstone.isSome then abort .invalidTransition else .error .corruptState
  | some run => do
    ensureOr (decide (run.state = row.state) && decide (run.attempt = row.attempt))
      .invalidTransition
    match s.leases.find? (row.runId, row.attempt) with
    | none => .error .corruptState
    | some lease => do
      ensure (decide (lease.claimedAt ≤ request.now) &&
        decide (some lease.leaseExpiresAt = run.leaseExpiresAt) &&
        decide (run.workerId = some lease.workerId) &&
        decide (run.leaseTokenHash = some lease.tokenHash)) .corruptState
      let snapshot ← readSnapshot P s run.taskId run.taskRevision
      let token := P.deriveScheduledLeaseToken request.leaseTokenPrefix row.runId row.attempt
      ensure (decide (P.hashScheduledLeaseToken token.1 = lease.tokenHash)) .corruptState
      let record ← requireActiveRecord (← recordFromRun P H s run)
      .ok ⟨record, snapshot, token⟩

def restoreClaimReplay (s : ScheduledState δ Ω) (request : ClaimDueRunsRequest δ) :
    StoredResult δ → Except ScheduledFault (List (ScheduledRunLease δ))
  | .replayRows rows => do
    ensure (decide (rows.length ≤ 100) && decide (rows.map ClaimReplayRow.runId).Nodup)
      .corruptState
    rows.mapM (restoreLease P H s request)
  | _ => .error .corruptState

def claim (request : ClaimDueRunsRequest δ) (s : ScheduledState δ Ω) : Except ScheduledFault (Committed δ Ω) := do
  let key : RunDecisionKey δ := .claim (P.hashScheduledLeaseToken request.leaseTokenPrefix.1)
  let requestHash := P.canonicalRequestHash (.claimDue request)
  match ← replay s key requestHash .claimDue none with
  | some stored => do
    let leases ← restoreClaimReplay P H s request stored
    .ok (.leases leases, s)
  | none => do
    let candidates := (dueCandidates s request.now ++
      expiredCandidates P s request.now request.reclaimAuthorities).insertionSort
        (fun a b => candidateLe P a b)
    let progress ← claimCandidates P H request candidates ⟨s, [], []⟩
    let t ← writeDecision P progress.state
      ⟨key, .claimDue, requestHash, none, .replayRows progress.replayRows, request.now⟩
    .ok (.leases progress.leases, t)

end Claiming

section Leases

/-- The fence of a statement that changes a leased run. -/
def leased (request : Fence δ) (tokenHash : δ) (r : RunRow δ) : Bool :=
  decide (r.runId = request.runId) && decide (r.workerId = some request.workerId) &&
    decide (r.attempt = request.expectedAttempt.1) && decide (r.leaseTokenHash = some tokenHash)

def renewReplayed (request : RenewScheduledRunRequest δ) (tokenHash : δ)
    (saved : ScheduledRunRecord δ) (s : ScheduledState δ Ω) : Except ScheduledFault (Committed δ Ω) := do
  ensure (decodeScheduledRunRecord P saved && saved.state.active &&
    decide (saved.leaseExpiresAt = some request.leaseExpiresAt)) .corruptState
  match ← readRunRow P s saved.runId with
  | none => do
    let tombstone ← readTombstone P s saved.runId
    if tombstone.isSome then abort .invalidTransition else .error .corruptState
  | some run => do
    ensureOr (run.state.active && decide (run.attempt = saved.attempt) &&
      decide (run.taskRevision = saved.taskRevision)) .invalidTransition
    let current ← requireActiveRecord (← recordFromRun P H s run)
    ensureOr (decide (current.workerId = some request.workerId) &&
      decide (run.leaseTokenHash = some tokenHash)) .invalidTransition
    ensure (current.leaseExpiresAt.any (fun e => decide (request.leaseExpiresAt ≤ e))) .corruptState
    let snapshot ← readSnapshot P s current.taskId current.taskRevision
    .ok (.lease ⟨current, snapshot, request.leaseToken⟩, s)

def nextOrdinal (s : ScheduledState δ Ω) (runId : δ) (attempt : ℕ) : ℕ :=
  ((renewalsOf s runId attempt).map RenewalRow.ordinal).foldl max 0 + 1

/-- `liveNow` is the live clock of a fresh renewal, read before and after the statements. -/
def renewLease (request : RenewScheduledRunRequest δ) (liveNow : Option CanonicalInstant ×
    Option CanonicalInstant) (s : ScheduledState δ Ω) : Except ScheduledFault (Committed δ Ω) := do
  let tokenHash := P.hashScheduledLeaseToken request.leaseToken.1
  let key : RunDecisionKey δ :=
    .renew request.runId request.expectedAttempt.1 tokenHash request.leaseExpiresAt
  let requestHash := P.canonicalRequestHash (.renew request)
  match ← replay s key requestHash .renew (some request.runId) with
  | some (.record saved) => renewReplayed P H request tokenHash saved s
  | some _ => .error .corruptState
  | none => do
    let run ← requireFencedRun P H s request.toFence tokenHash
    match run.leaseExpiresAt with
    | none => abort .invalidRequest
    | some expires => do
      let expired : ScheduledFault := .abortMutation
        { runErrorOf .leaseExpired with observedAttempt := some run.attempt }
      ensureOr (decide (expires < request.leaseExpiresAt)) .invalidRequest
      ensure (liveNow.1.all (fun now => decide (now < expires))) expired
      let ordinal := nextOrdinal s request.runId request.expectedAttempt.1
      ensure (decide (ordinal ≤ maxSafeInteger)) .corruptState
      let renewals ← constrained (s.renewals.insert? ⟨request.runId, request.expectedAttempt.1,
        ordinal, requestHash, expires, request.leaseExpiresAt, request.now⟩)
      let (leases, renewed) ← constrained (s.leases.update?
        (fun r => decide (r.runId = request.runId) && decide (r.attempt = request.expectedAttempt.1) &&
          decide (r.tokenHash = tokenHash) && decide (r.leaseExpiresAt = expires))
        fun r => { r with leaseExpiresAt := request.leaseExpiresAt })
      ensure (decide (renewed = 1)) .corruptState
      let (occurrences, changes) ← constrained (s.occurrences.update?
        (fun r => leased request.toFence tokenHash r &&
          decide (r.taskRevision = request.expectedTaskRevision) &&
          decide (r.leaseExpiresAt = some expires) && decide (request.now < expires) &&
          r.state.active)
        fun r => { r with leaseExpiresAt := some request.leaseExpiresAt })
      ensureOr (decide (changes = 1)) .leaseConflict
      let s' := { s with renewals := renewals, leases := leases, occurrences := occurrences }
      let record ← requireActiveRecord (← requireRecord P H s' request.runId)
      let snapshot ← readSnapshot P s' run.taskId run.taskRevision
      let t ← writeDecision P s'
        ⟨key, .renew, requestHash, some request.runId, .record record, request.now⟩
      ensure (liveNow.2.all (fun now => decide (now < expires))) expired
      .ok (.lease ⟨record, snapshot, request.leaseToken⟩, t)

def bind (request : BindScheduledSourceRequest δ) (s : ScheduledState δ Ω) : Except ScheduledFault (Committed δ Ω) := do
  let key : RunDecisionKey δ := .effect request.effect.idempotencyKey
  let tokenHash := P.hashScheduledLeaseToken request.leaseToken.1
  match ← replayRecordOrRetained P H s key .bindAcceptedSource request.effect.requestHash
      request.runId with
  | some record => .ok (.record record, s)
  | none => do
    let run ← requireFencedRun P H s request.toFence tokenHash
    let snapshot ← readSnapshot P s run.taskId run.taskRevision
    ensureOr (decide (run.state ≠ .sourceBound)) .idempotencyConflict
    ensureOr (decide (snapshot.kind = .agent) && decide (run.state = .claimed)) .invalidTransition
    ensureOr (decide (request.effect.operationId = some request.operationId) &&
      decide (request.effect.sourceSeq.map Subtype.val = some request.sourceSeq.1)) .invalidRequest
    let owner ← require (.abortMutation (runErrorOf .notFound))
      (H.sourceOwner s.host snapshot.chatJid request.sourceSeq request.operationId)
    ensureOr (decide (owner.sourceId = P.runIdText request.runId) &&
      decide (owner.kind = .scheduledAgent) && decide (owner.primarySourceSeq = request.sourceSeq.1))
      .invalidTransition
    let bindings ← constrained (s.bindings.insert? ⟨request.runId, request.effect.requestHash,
      request.effect.idempotencyKey, snapshot.chatJid, request.sourceSeq, request.operationId,
      request.boundAt⟩)
    let (occurrences, changes) ← constrained (s.occurrences.update?
      (fun r => leased request.toFence tokenHash r && decide (r.state = .claimed))
      fun r => { r with
        state := .sourceBound
        acceptedSourceSeq := some request.sourceSeq
        operationId := some request.operationId })
    ensureOr (decide (changes = 1)) .leaseConflict
    let s' := { s with bindings := bindings, occurrences := occurrences }
    let record ← requireRecord P H s' request.runId
    let t ← writeDecision P s' ⟨key, .bindAcceptedSource, request.effect.requestHash,
      some request.runId, .record record, request.boundAt⟩
    .ok (.record record, t)

end Leases

section Settling

structure HeadDecision where
  computed : Option CanonicalInstant
  recordNext : Option CanonicalInstant
  effectiveNext : Option CanonicalInstant
  disposition : HeadDisposition
  deriving DecidableEq

def decideHead (s : ScheduledState δ Ω) (run : RunRow δ) (snapshot : ScheduledTaskSnapshot δ)
    (settledAt : CanonicalInstant) (retryAt : Option CanonicalInstant) :
    Except ScheduledFault HeadDecision := do
  let computed := retryAt.or (computeScheduledSuccessor P snapshot run.scheduledFor settledAt)
  ensure ((match snapshot.schedule with | .once _ => true | _ => false) || computed.isSome)
    .corruptState
  match readScheduledTaskHead s run.taskId with
  | none => abort .taskNotFound
  | some head =>
    if head.status = .deleted then .ok ⟨computed, none, none, .deleted⟩
    else if head.revision ≠ run.taskRevision ∨ head.nextRunAt ≠ some run.scheduledFor then
      .ok ⟨computed, none, none, .superseded⟩
    else
      match head.status with
      | .paused => .ok ⟨computed, computed, none, .paused⟩
      | .active => .ok ⟨computed, computed, computed, .advanced⟩
      | _ => abort .taskInactive

def writeNextDecision (s : ScheduledState δ Ω) (run : RunRow δ) (decision : HeadDecision)
    (decidedAt : CanonicalInstant) (requestHash : δ) :
    Except ScheduledFault (ScheduledState δ Ω) := do
  let next ← constrained (s.next.insert? ⟨run.runId, run.taskId, run.taskRevision,
    run.scheduledFor, decision.computed, decision.effectiveNext, decision.disposition, decidedAt,
    requestHash⟩)
  .ok { s with next := next }

def applyHeadDecision (s : ScheduledState δ Ω) (run : RunRow δ) (decision : HeadDecision) :
    Except ScheduledFault (ScheduledState δ Ω) :=
  if decision.disposition ≠ .advanced then .ok s
  else do
    let previous : ScheduledTaskHead :=
      ⟨run.taskId, run.taskRevision, .active, some run.scheduledFor⟩
    let (changed, t) ← writeScheduledTaskHead s (some previous) { previous with
      nextRunAt := decision.effectiveNext
      status := if decision.effectiveNext.isNone then .completed else .active }
    ensureOr changed .taskRevisionMismatch
    .ok t

def insertOutbox (host : Ω) (intent : OutboxIntent δ) : Except ScheduledFault Ω :=
  match H.outboxInsert host intent with
  | .ok host => .ok host
  | .error .idempotencyConflict => abort .idempotencyConflict
  | .error .other => abort .storageUnavailable

def insertIntents (run : RunRow δ) :
    ℕ → List (OutboxIntent δ) → ScheduledState δ Ω → Except ScheduledFault (ScheduledState δ Ω)
  | _, [], s => .ok s
  | ordinal, intent :: intents, s => do
    let host ← insertOutbox H s.host intent
    let links ← constrained (s.links.insert? ⟨run.runId, ordinal, intent.outboxId⟩)
    insertIntents run (ordinal + 1) intents { s with host := host, links := links }

/-- The statement that closes a leased run, with what it writes. -/
def closeRun (s : ScheduledState δ Ω) (run : RunRow δ) (close : RunRow δ → RunRow δ) :
    Except ScheduledFault (ScheduledState δ Ω) := do
  let (occurrences, changes) ← constrained (s.occurrences.update?
    (fun r => decide (r.runId = run.runId) && decide (r.workerId = run.workerId) &&
      decide (r.attempt = run.attempt) && decide (r.taskRevision = run.taskRevision) &&
      decide (r.leaseTokenHash = run.leaseTokenHash) && r.state.active) close)
  ensureOr (decide (changes = 1)) .leaseConflict
  .ok { s with occurrences := occurrences }

def completedRow (request : CompleteScheduledRunRequest δ) (decision : HeadDecision)
    (r : RunRow δ) : RunRow δ :=
  { r with
    state := .completed
    workerId := none
    leaseTokenHash := none
    leaseExpiresAt := none
    resultStatus := some request.status
    durationMs := some request.durationMs
    resultRef := request.resultRef
    errorCode := request.errorCode
    nextRunAt := decision.recordNext
    headDisposition := decision.disposition
    settledAt := some request.completedAt }

def abandonedRow (request : AbandonScheduledRunRequest δ) (decision : HeadDecision)
    (r : RunRow δ) : RunRow δ :=
  { r with
    state := .abandoned
    workerId := none
    leaseTokenHash := none
    leaseExpiresAt := none
    nextRunAt := decision.recordNext
    headDisposition := decision.disposition
    settledAt := some request.abandonedAt
    abandonmentReasonTag := some request.reasonTag }

def projectTask (s : ScheduledState δ Ω) (taskId : ScheduledId) (runId : δ) :
    Except ScheduledFault (ScheduledState δ Ω) := do
  let host ← H.projectScheduledTask s.toScheduledTables s.host taskId (some runId)
  .ok { s with host := host }

/-- The optional result bytes of a completion, projected under the host's own tables. -/
def projectHistory (s : ScheduledState δ Ω) (request : CompleteScheduledRunRequest δ)
    (taskId : ScheduledId) : Except ScheduledFault (ScheduledState δ Ω) := do
  let host ← H.projectScheduledHistory s.toScheduledTables s.host request
  projectTask H { s with host := host } taskId request.runId

def projectPayload (s : ScheduledState δ Ω) (request : CompleteScheduledRunRequest δ)
    (taskId : ScheduledId) (projects : Bool) : Except ScheduledFault (ScheduledState δ Ω) :=
  if projects then projectHistory H s request taskId else .ok s

def validateCompletionShape (request : CompleteScheduledRunRequest δ) (run : RunRow δ)
    (snapshot : ScheduledTaskSnapshot δ) : Except ScheduledFault Unit := do
  ensureOr (match request.status with
    | .success => request.resultRef.isSome && request.errorCode.isNone
    | .error => request.resultRef.isNone && request.errorCode.isSome) .invalidRequest
  if snapshot.kind = .agent then do
    ensureOr (decide (run.state = .sourceBound) && run.acceptedSourceSeq.isSome &&
      run.operationId.isSome) .invalidTransition
    ensureOr (decide (request.effect.operationId = run.operationId) &&
      decide (request.effect.sourceSeq.map Subtype.val = run.acceptedSourceSeq.map Subtype.val))
      .invalidRequest
  else do
    ensureOr (decide (run.state = .claimed) && run.acceptedSourceSeq.isNone &&
      run.operationId.isNone) .invalidTransition
    ensureOr (request.effect.operationId.isNone && request.effect.sourceSeq.isNone) .invalidRequest
  ensureOr (request.outboxIntents.all fun intent =>
    (if snapshot.kind = .agent then
      decide (intent.effect.operationId = run.operationId) &&
        decide (intent.effect.sourceSeq.map Subtype.val = run.acceptedSourceSeq.map Subtype.val)
    else intent.effect.operationId.isNone && intent.effect.sourceSeq.isNone) &&
    !((!snapshot.notifyOnComplete || snapshot.muted || decide (snapshot.kind = .internal)) &&
      decide (intent.kind = .notification))) .invalidRequest

def runLogOf (request : CompleteScheduledRunRequest δ) (run : RunRow δ)
    (snapshot : ScheduledTaskSnapshot δ) : RunLogRow δ where
  runId := run.runId
  taskId := run.taskId
  taskRevision := run.taskRevision
  scheduledFor := run.scheduledFor
  taskKind := snapshot.kind
  completedAt := request.completedAt
  durationMs := request.durationMs
  status := request.status
  resultRef := request.resultRef
  errorCode := request.errorCode

def finishCompletion (request : CompleteScheduledRunRequest δ) (run : RunRow δ)
    (snapshot : ScheduledTaskSnapshot δ) (s : ScheduledState δ Ω) : Except ScheduledFault (Committed δ Ω) := do
  ensureOr (request.outboxIntents.all fun intent => !H.outboxExists s.host intent)
    .idempotencyConflict
  let decision ← decideHead P s run snapshot request.completedAt none
  let s₁ ← writeNextDecision s run decision request.completedAt request.effect.requestHash
  let logs ← constrained (s₁.logs.insert? (runLogOf request run snapshot))
  let s₂ ← insertIntents H run 0 request.outboxIntents { s₁ with logs := logs }
  let s₃ ← applyHeadDecision s₂ run decision
  let s₄ ← closeRun s₃ run (completedRow request decision)
  let record ← requireRecord P H s₄ run.runId
  let s₅ ← writeDecision P s₄ ⟨.effect request.effect.idempotencyKey, .complete,
    request.effect.requestHash, some run.runId, .record record, request.completedAt⟩
  let t ← projectTask H s₅ run.taskId run.runId
  .ok (.record record, t)

def completeRun (request : CompleteScheduledRunRequest δ) (s : ScheduledState δ Ω) :
    Except ScheduledFault (Committed δ Ω) := do
  match ← replayRecordOrRetained P H s (.effect request.effect.idempotencyKey) .complete
      request.effect.requestHash request.runId with
  | some record => do
    let s₁ ← projectTask H s record.taskId record.runId
    let t ← projectPayload H s₁ request record.taskId
      (request.resultPayload.isSome && record.durationMs.isSome)
    .ok (.record record, t)
  | none => do
    let run ← requireFencedRun P H s request.toFence
      (P.hashScheduledLeaseToken request.leaseToken.1)
    let snapshot ← readSnapshot P s run.taskId run.taskRevision
    validateCompletionShape request run snapshot
    let (answer, s₁) ← finishCompletion P H request run snapshot s
    let t ← projectPayload H s₁ request run.taskId request.resultPayload.isSome
    .ok (answer, t)

def abandonRun (request : AbandonScheduledRunRequest δ) (s : ScheduledState δ Ω) :
    Except ScheduledFault (Committed δ Ω) := do
  match ← replayRecordOrRetained P H s (.effect request.effect.idempotencyKey) .abandon
      request.effect.requestHash request.runId with
  | some record => do
    let t ← projectTask H s record.taskId record.runId
    .ok (.record record, t)
  | none => do
    let run ← requireFencedRun P H s request.toFence
      (P.hashScheduledLeaseToken request.leaseToken.1)
    let snapshot ← readSnapshot P s run.taskId run.taskRevision
    let decision ← decideHead P s run snapshot request.abandonedAt request.retryAt
    let s₁ ← writeNextDecision s run decision request.abandonedAt request.effect.requestHash
    let abandonments ← constrained (s₁.abandonments.insert? ⟨run.runId,
      request.effect.requestHash, request.reasonTag, request.abandonedAt, request.retryAt⟩)
    let s₂ ← applyHeadDecision { s₁ with abandonments := abandonments } run decision
    let s₃ ← closeRun s₂ run (abandonedRow request decision)
    let record ← requireRecord P H s₃ run.runId
    let s₄ ← writeDecision P s₃ ⟨.effect request.effect.idempotencyKey, .abandon,
      request.effect.requestHash, some run.runId, .record record, request.abandonedAt⟩
    let t ← projectTask H s₄ run.taskId run.runId
    .ok (.record record, t)

end Settling

section Retention

def tombstoneOf (run : RunRow δ) (settledAt : CanonicalInstant) (decisionHash : δ) :
    TombstoneRow δ where
  runId := run.runId
  taskId := run.taskId
  taskRevision := run.taskRevision
  scheduledFor := run.scheduledFor
  state := run.state
  attempt := run.attempt
  status := run.resultStatus
  nextRunAt := run.nextRunAt
  headDisposition := run.headDisposition
  settledAt := settledAt
  decisionMethod := if run.state = .completed then .complete else .abandon
  decisionHash := decisionHash

/-- Everything but the tombstone of a retired run is deleted. -/
def deleteRun (s : ScheduledState δ Ω) (runId : δ) : ScheduledState δ Ω :=
  { s with
    decisions := s.decisions.delete (fun r => decide (r.runId = some runId))
    links := s.links.delete (fun r => decide (r.runId = runId))
    bindings := s.bindings.delete (fun r => decide (r.runId = runId))
    logs := s.logs.delete (fun r => decide (r.runId = runId))
    abandonments := s.abandonments.delete (fun r => decide (r.runId = runId))
    next := s.next.delete (fun r => decide (r.runId = runId))
    renewals := s.renewals.delete (fun r => decide (r.runId = runId))
    leases := s.leases.delete (fun r => decide (r.runId = runId))
    occurrences := s.occurrences.delete (fun r => decide (r.runId = runId)) }

def retireRun (run : RunRow δ) (s : ScheduledState δ Ω) :
    Except ScheduledFault (ScheduledState δ Ω) := do
  let next ← require .corruptState (s.next.find? run.runId)
  let settledAt ← constrained run.settledAt
  let tombstones ← constrained
    (s.tombstones.insert? (tombstoneOf run settledAt next.decisionHash))
  let s' := { s with tombstones := tombstones }
  let tombstone ← readTombstone P s' run.runId
  ensure tombstone.isSome .corruptState
  ensure (s.occurrences.find? run.runId).isSome .corruptState
  .ok (deleteRun s' run.runId)

def retireRuns : List (RunRow δ) → ScheduledState δ Ω → Except ScheduledFault (ScheduledState δ Ω)
  | [], s => .ok s
  | run :: runs, s => do
    let s' ← retireRun P run s
    retireRuns runs s'

/-- The paused head still resolves its slot through the run's decision. -/
def headHolds (s : ScheduledState δ Ω) (run : RunRow δ) : Bool :=
  s.tasks.rows.any (fun t => decide (t.taskId = run.taskId) && decide (t.revision = run.taskRevision) &&
    decide (t.status = .paused) && decide (t.nextRunAt = some run.scheduledFor))

def outboxHolds (s : ScheduledState δ Ω) (runId : δ) : Bool :=
  s.links.rows.any (fun l => decide (l.runId = runId) && H.outboxUnsettled s.host l.outboxId)

def cleanupSelects (s : ScheduledState δ Ω) (settledBefore : CanonicalInstant) (run : RunRow δ) :
    Bool :=
  (decide (run.state = .completed) || decide (run.state = .abandoned)) &&
    run.settledAt.any (fun at' => decide (at' < settledBefore)) &&
    !H.historyRetains s.host run && !outboxHolds H s run.runId && !headHolds s run

def settledFirst (a b : RunRow δ) : Bool :=
  a.settledAt.any (fun x => b.settledAt.any (fun y => decide (x < y))) ||
    (decide (a.settledAt = b.settledAt) && decide (P.runIdText a.runId ≤ P.runIdText b.runId))

def replayedCleanup : StoredResult δ → Except ScheduledFault (ScheduledAnswer δ)
  | .cleanup result => do
    ensure (decide (result.removed ≤ 100) && decide (result.runIds.length = result.removed) &&
      decide result.runIds.Nodup) .corruptState
    .ok (.cleanup result)
  | _ => .error .corruptState

def cleanup (request : CleanupScheduledRunsRequest) (s : ScheduledState δ Ω) : Except ScheduledFault (Committed δ Ω) := do
  let key : RunDecisionKey δ := .cleanupTerminal request.settledBefore request.limit
  let requestHash := P.canonicalRequestHash (.cleanupTerminal request)
  match ← replay s key requestHash .cleanupTerminal none with
  | some stored => do
    let answer ← replayedCleanup stored
    .ok (answer, s)
  | none => do
    ensureOr (!H.nativeRetention s.host) .invalidTransition
    let runs := ((s.occurrences.rows.filter (cleanupSelects H s request.settledBefore)).insertionSort
      (fun a b => settledFirst P a b)).take request.limit
    let s' ← retireRuns P runs s
    let result : CleanupScheduledRunsResult δ := ⟨runs.length, runs.map RunRow.runId⟩
    let t ← writeDecision P s'
      ⟨key, .cleanupTerminal, requestHash, none, .cleanup result, request.settledBefore⟩
    .ok (.cleanup result, t)

def retentionEligible (s : ScheduledState δ Ω) (run : RunRow δ) : Except ScheduledFault Bool := do
  if !(decide (run.state = .completed) || decide (run.state = .abandoned)) ||
      run.operationId.isSome || run.resultRef.isSome then .ok false
  else do
    let snapshot ← readSnapshot P s run.taskId run.taskRevision
    .ok (decide (snapshot.executionRepeatability = .repeatable) && !headHolds s run &&
      !H.historyRetains s.host run && !outboxHolds H s run.runId &&
      !H.budgetUnresolved s.host run.taskId)

def selectPlanned (s : ScheduledState δ Ω) (expected : RetentionPlanRow δ) :
    Except ScheduledFault (RunRow δ) := do
  match ← readRunRow P s expected.runId with
  | none => abort .invalidTransition
  | some run => do
    let record ← requireRecord P H s expected.runId
    ensureOr (decide (run.settledAt = some expected.settledAt) &&
      decide (P.canonicalRecordHash record = expected.sha256) &&
      decide (P.recordBytes record = expected.serializedBytes)) .invalidTransition
    let eligible ← retentionEligible P H s run
    ensureOr eligible .invalidTransition
    .ok run

def applyRetention (plan : ScheduledRetentionPlan δ) (s : ScheduledState δ Ω) : Except ScheduledFault (Committed δ Ω) :=
  if plan.rows = [] then .ok (.cleanup ⟨0, []⟩, s)
  else do
    let requestHash := P.canonicalRequestHash (.applyRetention plan)
    match ← replay s (.retention requestHash) requestHash .cleanupTerminal none with
    | some stored => do
      let answer ← replayedCleanup stored
      .ok (answer, s)
    | none => do
      let runs ← plan.rows.mapM (selectPlanned P H s)
      let s' ← retireRuns P runs s
      let result : CleanupScheduledRunsResult δ := ⟨runs.length, runs.map RunRow.runId⟩
      let t ← writeDecision P s' ⟨.retention requestHash, .cleanupTerminal, requestHash, none,
        .cleanup result, plan.settledBefore⟩
      .ok (.cleanup result, t)

end Retention

section Mutations

/-- What the runtime does around one mutation. -/
structure ScheduledRuntime where
  beforeEffect : Bool
  admitted : Bool
  lostAcknowledgement : Bool
  liveRenewalNow : Option CanonicalInstant × Option CanonicalInstant

def transaction (runtime : ScheduledRuntime) (request : ScheduledRequest δ)
    (s : ScheduledState δ Ω) : Except ScheduledFault (Committed δ Ω) :=
  match request with
  | .claimDue request => claim P H request s
  | .renew request => renewLease P H request runtime.liveRenewalNow s
  | .bindAcceptedSource request => bind P H request s
  | .complete request => completeRun P H request s
  | .abandon request => abandonRun P H request s
  | .cleanupTerminal request => cleanup P H request s
  | .applyRetention plan => applyRetention P H plan s

def boundedError : ScheduledFault → ScheduledRunStoreError
  | .abortMutation error => error
  | .corruptState => runErrorOf .corruptState
  | .constraint => { runErrorOf .storageUnavailable with retryable := false }
  | .refused => { runErrorOf .storageUnavailable with retryable := false }

def mutate (runtime : ScheduledRuntime) (request : Option (ScheduledRequest δ))
    (s : ScheduledState δ Ω) :
    Except ScheduledRunStoreError (ScheduledAnswer δ) × ScheduledState δ Ω :=
  match request with
  | none => (.error (runErrorOf .invalidRequest), s)
  | some request =>
    if !normalise P request then (.error (runErrorOf .invalidRequest), s)
    else if runtime.beforeEffect then (.error (runErrorOf .storageUnavailable), s)
    else if !runtime.admitted then (.error (boundedError .refused), s)
    else
      match transaction P H runtime request s with
      | .error fault => (.error (boundedError fault), s)
      | .ok (answer, t) =>
        if runtime.lostAcknowledgement then
          (.error ⟨.storageUnavailable, .unknown, true, none, none⟩, t)
        else (.ok answer, t)

end Mutations

end Piclaw.Scheduled
