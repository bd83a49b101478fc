import Piclaw.ScheduledSchema

/-!
# EF-S07 requests

The normalised requests of the scheduled-run store with the checks that relate their fields. The
store's platform supplies the SHA-256 digests that name runs and lease tokens, the digest of a
canonical request, the sizes of JSON texts, locale comparison and the cron parser. Nothing is
assumed about collisions.

A `ScheduledHost` is what the store reads and writes in tables of other owners: accepted sources,
the outbox inserter, and the projections that the host shows for a task.
-/

namespace Piclaw.Scheduled
open Relational

section Requests
variable (δ : Type)

structure RunEffect where
  idempotencyKey : ScheduledId
  requestHash : δ
  operationId : Option ScheduledId
  sourceSeq : Option SafeNatural
  provenanceRef : ScheduledRef
  redactionClass : RedactionClass
  deriving DecidableEq

structure OutboxIntent where
  effect : RunEffect δ
  outboxId : ScheduledId
  kind : OutboxKind
  payloadRef : OpaqueRef
  destinationRef : Option OpaqueRef
  availableAt : CanonicalInstant
  enqueuedAt : CanonicalInstant
  repeatability : OutboxRepeatability
  deriving DecidableEq

inductive ReclaimEvidence where
  | repeatable
  | reconciledAbsent (reconciliationRef : ScheduledRef)
  | agentReconciledAbsent (reconciliationRef : ScheduledRef)
  deriving DecidableEq

structure ReclaimAuthority where
  runId : δ
  expectedAttempt : PositiveInteger
  evidence : ReclaimEvidence
  deriving DecidableEq

structure ClaimDueRunsRequest where
  now : CanonicalInstant
  limit : ℕ
  workerId : ScheduledId
  leaseTokenPrefix : ScheduledId
  leaseDurationMs : ℕ
  reclaimAuthorities : List (ReclaimAuthority δ)
  deriving DecidableEq

structure Fence where
  runId : δ
  workerId : ScheduledId
  expectedAttempt : PositiveInteger
  expectedTaskRevision : PositiveInteger
  leaseToken : ScheduledRef
  now : CanonicalInstant
  deriving DecidableEq

structure RenewScheduledRunRequest extends Fence δ where
  leaseExpiresAt : CanonicalInstant
  deriving DecidableEq

structure BindScheduledSourceRequest extends Fence δ where
  effect : RunEffect δ
  sourceSeq : PositiveInteger
  operationId : ScheduledId
  boundAt : CanonicalInstant
  deriving DecidableEq

structure ResultPayload where
  result : Option String
  error : Option String
  deriving DecidableEq

structure CompleteScheduledRunRequest extends Fence δ where
  effect : RunEffect δ
  resultPayload : Option ResultPayload
  status : ResultStatus
  durationMs : SafeNatural
  resultRef : Option OpaqueRef
  errorCode : Option ScheduledTag
  completedAt : CanonicalInstant
  outboxIntents : List (OutboxIntent δ)
  deriving DecidableEq

structure AbandonScheduledRunRequest extends Fence δ where
  effect : RunEffect δ
  reasonTag : ScheduledTag
  abandonedAt : CanonicalInstant
  retryAt : Option CanonicalInstant
  deriving DecidableEq

structure CleanupScheduledRunsRequest where
  settledBefore : CanonicalInstant
  limit : ℕ
  deriving DecidableEq

structure RetentionCursor where
  settledAt : CanonicalInstant
  runId : δ
  deriving DecidableEq

structure RetentionPlanRow extends RetentionCursor δ where
  sha256 : δ
  serializedBytes : ℕ
  deriving DecidableEq

structure ScheduledRetentionPlan where
  settledBefore : CanonicalInstant
  after : Option (RetentionCursor δ)
  through : Option (RetentionCursor δ)
  examined : ℕ
  rows : List (RetentionPlanRow δ)
  nextCursor : Option (RetentionCursor δ)
  deriving DecidableEq

inductive ScheduledRequest where
  | claimDue (request : ClaimDueRunsRequest δ)
  | renew (request : RenewScheduledRunRequest δ)
  | bindAcceptedSource (request : BindScheduledSourceRequest δ)
  | complete (request : CompleteScheduledRunRequest δ)
  | abandon (request : AbandonScheduledRunRequest δ)
  | cleanupTerminal (request : CleanupScheduledRunsRequest)
  | applyRetention (plan : ScheduledRetentionPlan δ)

end Requests

structure ScheduledPlatform (δ : Type) where
  deriveScheduledRunId : ScheduledId → PositiveInteger → CanonicalInstant → δ
  deriveScheduledLeaseToken : ScheduledId → δ → ℕ → ScheduledRef
  hashScheduledLeaseToken : String → δ
  canonicalRequestHash : ScheduledRequest δ → δ
  canonicalRecordHash : ScheduledRunRecord δ → δ
  taskConfigHash : ScheduledTaskSnapshot δ → δ
  recordBytes : ScheduledRunRecord δ → ℕ
  resultLength : StoredResult δ → ℕ
  runIdText : δ → String
  localeCompare : String → String → Ordering
  validTimezone : String → Bool
  computeNextRun : String → String → CanonicalInstant → Option CanonicalInstant

section Errors

inductive ScheduledRunStoreErrorTag where
  | invalidRequest
  | idempotencyConflict
  | taskNotFound
  | taskInactive
  | taskRevisionMismatch
  | leaseConflict
  | leaseExpired
  | notFound
  | invalidTransition
  | corruptState
  | storageUnavailable
  deriving DecidableEq

structure ScheduledRunStoreError where
  tag : ScheduledRunStoreErrorTag
  certainty : EffectCertainty
  retryable : Bool
  observedAttempt : Option ℕ
  observedTaskRevision : Option PositiveInteger
  deriving DecidableEq

def runErrorOf (tag : ScheduledRunStoreErrorTag) : ScheduledRunStoreError :=
  ⟨tag, .notApplied, decide (tag = .storageUnavailable), none, none⟩

/-- What a mutation can throw: an `AbortMutation`, a `CorruptState`, a violated constraint, or a
refusal by the process admission. -/
inductive ScheduledFault where
  | abortMutation (error : ScheduledRunStoreError)
  | corruptState
  | constraint
  | refused
  deriving DecidableEq

abbrev abort {α : Type} (tag : ScheduledRunStoreErrorTag) : Except ScheduledFault α :=
  .error (.abortMutation (runErrorOf tag))

abbrev constrained {α : Type} : Option α → Except ScheduledFault α := require .constraint

/-- A check whose failure throws. -/
def ensure (condition : Bool) (fault : ScheduledFault) : Except ScheduledFault Unit :=
  if condition then .ok () else .error fault

abbrev ensureOr (condition : Bool) (tag : ScheduledRunStoreErrorTag) : Except ScheduledFault Unit :=
  ensure condition (.abortMutation (runErrorOf tag))

end Errors

section Host

structure SourceOwner where
  sourceId : String
  kind : AcceptedSourceKind
  primarySourceSeq : ℕ
  deriving DecidableEq

structure LinkedDecision (δ : Type) where
  method : OutboxMutationMethod
  requestHash : δ
  outcome : DecisionOutcome
  outboxId : ScheduledId
  attempt : ℕ
  leaseTokenHash : Option δ
  resultIsNull : Bool
  deriving DecidableEq

/-- An outbox row with the decision that enqueued it. -/
structure LinkedOutbox (δ : Type) where
  outboxId : ScheduledId
  requestHash : δ
  operationId : Option ScheduledId
  sourceSeq : Option ℕ
  decision : Option (LinkedDecision δ)
  deriving DecidableEq

inductive InserterError where
  | idempotencyConflict
  | other
  deriving DecidableEq

structure ScheduledHost (δ Ω : Type) where
  sourceOwner : Ω → ScheduledId → PositiveInteger → ScheduledId → Option SourceOwner
  outboxExists : Ω → OutboxIntent δ → Bool
  outboxInsert : Ω → OutboxIntent δ → Except InserterError Ω
  linkedOutbox : Ω → ScheduledId → Option (LinkedOutbox δ)
  outboxUnsettled : Ω → ScheduledId → Bool
  projectScheduledTask : ScheduledTables δ → Ω → ScheduledId → Option δ → Except ScheduledFault Ω
  projectScheduledHistory :
    ScheduledTables δ → Ω → CompleteScheduledRunRequest δ → Except ScheduledFault Ω
  historyRetains : Ω → RunRow δ → Bool
  nativeRetention : Ω → Bool
  budgetUnresolved : Ω → ScheduledId → Bool
  insertDefinition : Ω → ScheduledTaskSnapshot δ → Except ScheduledFault Ω

end Host

section Normalisers
variable {δ : Type} [DecidableEq δ] (P : ScheduledPlatform δ)

/-- 2000-01-01T00:00:00.000Z, the anchor at which a stored cron expression is parsed again. -/
def snapshotAnchor : CanonicalInstant := ⟨946684800000, by decide⟩

def scheduleValid (schedule : Schedule) (timezone : String) (anchor : CanonicalInstant) : Bool :=
  match schedule with
  | .interval _ => true
  | .once _ => true
  | .cron expression => (P.computeNextRun expression timezone anchor).isSome

def decodeTaskSnapshot (snapshot : ScheduledTaskSnapshot δ) : Bool :=
  P.validTimezone snapshot.timezone &&
    scheduleValid P snapshot.schedule snapshot.timezone snapshotAnchor &&
    (snapshot.muted != snapshot.notifyOnComplete) &&
    (decide (snapshot.kind = .agent) ==
      decide (snapshot.executionRepeatability = .agentSource)) &&
    decide (snapshot.configHash = P.taskConfigHash snapshot)

def normaliseClaim (request : ClaimDueRunsRequest δ) : Bool :=
  decide (1 ≤ request.limit) && decide (request.limit ≤ 100) &&
    decide (1 ≤ request.leaseDurationMs) && decide (request.leaseDurationMs ≤ 86400000) &&
    (addCanonicalDuration request.now request.leaseDurationMs).isSome &&
    decide (request.reclaimAuthorities.length ≤ 100) &&
    decide (request.reclaimAuthorities.map ReclaimAuthority.runId).Nodup

def normaliseRenew (request : RenewScheduledRunRequest δ) : Bool :=
  decide (request.now < request.leaseExpiresAt)

def normaliseBind (request : BindScheduledSourceRequest δ) : Bool :=
  decide (request.effect.requestHash = P.canonicalRequestHash (.bindAcceptedSource request))

def intentOrdered (intent : OutboxIntent δ) : Bool :=
  decide (intent.enqueuedAt ≤ intent.availableAt)

def normaliseComplete (request : CompleteScheduledRunRequest δ) : Bool :=
  (request.resultPayload.isNone || decide (request.status = .error) ||
      decide (request.resultRef.map Subtype.val =
        some ("task_run_result:" ++ P.runIdText request.runId))) &&
    (match request.status with
      | .success => request.errorCode.isNone && request.resultRef.isSome
      | .error => request.errorCode.isSome && request.resultRef.isNone) &&
    decide (request.outboxIntents.length ≤ 100) &&
    decide (request.outboxIntents.map OutboxIntent.outboxId).Nodup &&
    request.outboxIntents.all intentOrdered &&
    decide (request.effect.requestHash = P.canonicalRequestHash (.complete request))

def normaliseAbandon (request : AbandonScheduledRunRequest δ) : Bool :=
  decide (∀ retry ∈ request.retryAt, request.abandonedAt < retry) &&
    decide (request.effect.requestHash = P.canonicalRequestHash (.abandon request))

def normaliseCleanup (request : CleanupScheduledRunsRequest) : Bool :=
  decide (1 ≤ request.limit) && decide (request.limit ≤ 100)

def cursorBefore (a b : RetentionCursor δ) : Bool :=
  decide (a.settledAt < b.settledAt) ||
    (decide (a.settledAt = b.settledAt) && decide (P.runIdText a.runId < P.runIdText b.runId))

/-- Each row of the plan lies after the one before it and not after `through`. -/
def planRowsOrdered (through : Option (RetentionCursor δ)) :
    Option (RetentionCursor δ) → List (RetentionPlanRow δ) → Bool
  | _, [] => true
  | previous, row :: rows =>
    decide (1 ≤ row.serializedBytes) &&
      previous.all (fun p => cursorBefore P p row.toRetentionCursor) &&
      through.any (fun t => !cursorBefore P t row.toRetentionCursor) &&
      planRowsOrdered through (some row.toRetentionCursor) rows

def normalisePlan (plan : ScheduledRetentionPlan δ) : Bool :=
  let inWindow (cursor : RetentionCursor δ) : Bool := decide (cursor.settledAt < plan.settledBefore)
  decide (plan.examined ≤ 100) && decide (plan.rows.length ≤ plan.examined) &&
    plan.after.all inWindow && plan.through.all inWindow && plan.nextCursor.all inWindow &&
    (if plan.examined = 0 then decide (plan.through = plan.after)
      else plan.through.any (fun t => plan.after.all (fun a => cursorBefore P a t))) &&
    (plan.nextCursor.isNone || decide (plan.nextCursor = plan.through)) &&
    plan.rows.all (fun row => inWindow row.toRetentionCursor) &&
    planRowsOrdered P plan.through plan.after plan.rows

def normalise : ScheduledRequest δ → Bool
  | .claimDue request => normaliseClaim request
  | .renew request => normaliseRenew request
  | .bindAcceptedSource request => normaliseBind P request
  | .complete request => normaliseComplete P request
  | .abandon request => normaliseAbandon P request
  | .cleanupTerminal request => normaliseCleanup request
  | .applyRetention plan => normalisePlan P plan

end Normalisers

end Piclaw.Scheduled
