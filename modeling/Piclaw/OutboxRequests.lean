import Piclaw.OutboxSchema

/-!
# EF-S05 requests

One structure for each normalised outbox request. The fields carry the normaliser's checks, so a
value of these types is a request that `normaliseOutboxMutation` returns; an input that it rejects
has no counterpart and is answered `invalid_request` by the store. An enqueue request is sealed:
its effect identity quotes the digest of the request itself.

`hashOutboxRequest` is the digest under which decisions and leases are filed. The lease token and
the lease expiry are among the omitted fields, so two claims that differ only there share it.
-/

namespace Piclaw
variable {δ : Type}

def OutboxRepeatability.name : OutboxRepeatability → String
  | .repeatable => "repeatable"
  | .reconciliationRequired => "reconciliation_required"

def RedactionClass.name : RedactionClass → String
  | .publicClass => "public"
  | .privateClass => "private"
  | .secretClass => "secret"

section Json

def jsonText {p : String → Prop} (s : {s : String // p s}) : CanonicalJsonValue := .string s.1

def jsonNullableText {p : String → Prop} : Option {s : String // p s} → CanonicalJsonValue
  | none => .null
  | some s => .string s.1

def jsonNatural (n : ℕ) : CanonicalJsonValue := .number n

end Json

structure EffectIdentity (δ : Type) where
  idempotencyKey : BoundedText 512
  requestHash : δ
  operationId : Option (BoundedText 512)
  sourceSeq : Option SafeNatural
  provenanceRef : BoundedText 2048
  redactionClass : RedactionClass
  deriving DecidableEq

/-- The request hash itself is omitted from every canonical text. -/
def EffectIdentity.json (effect : EffectIdentity δ) : CanonicalJsonValue :=
  .object
    [("idempotencyKey", jsonText effect.idempotencyKey),
      ("operationId", jsonNullableText effect.operationId),
      ("sourceSeq", match effect.sourceSeq with
        | none => .null
        | some n => jsonNatural n.1),
      ("provenanceRef", jsonText effect.provenanceRef),
      ("redactionClass", .string effect.redactionClass.name)]

structure EnqueueFields (δ : Type) where
  effect : EffectIdentity δ
  outboxId : BoundedText 512
  kind : OutboxKind
  payloadRef : BoundedText 2048
  destinationRef : Option (BoundedText 2048)
  availableAt : Instant
  enqueuedAt : Instant
  repeatability : OutboxRepeatability
  deriving DecidableEq

def EnqueueFields.json (r : EnqueueFields δ) : CanonicalJsonValue :=
  .object
    [("effect", r.effect.json), ("outboxId", jsonText r.outboxId), ("kind", .string r.kind.name),
      ("payloadRef", jsonText r.payloadRef), ("destinationRef", jsonNullableText r.destinationRef),
      ("availableAt", jsonText r.availableAt), ("enqueuedAt", jsonText r.enqueuedAt),
      ("repeatability", .string r.repeatability.name)]

structure EnqueueOutboxRequest (P : Platform δ) extends EnqueueFields δ where
  sealed : hashCanonicalRequest P toEnqueueFields.json = effect.requestHash

/-- The kinds of a request are sorted by name and repeat nothing. -/
def normalisedKinds (kinds : List OutboxKind) : Prop :=
  kinds ≠ [] ∧ kinds.Pairwise (fun a b => a.name < b.name)

instance : DecidablePred normalisedKinds := fun _ => inferInstanceAs (Decidable (_ ∧ _))

structure ClaimOutboxRequest where
  kinds : List OutboxKind
  workerId : BoundedText 512
  leaseToken : BoundedText 2048
  now : Instant
  leaseExpiresAt : Instant
  kinds_normalised : normalisedKinds kinds
  now_lt_expiry : now < leaseExpiresAt

def ClaimOutboxRequest.json (r : ClaimOutboxRequest) : CanonicalJsonValue :=
  .object
    [("kinds", .array (r.kinds.map fun kind => .string kind.name)),
      ("workerId", jsonText r.workerId), ("leaseToken", jsonText r.leaseToken),
      ("now", jsonText r.now), ("leaseExpiresAt", jsonText r.leaseExpiresAt)]

inductive ReclaimAuthority where
  | repeatable
  | reconciledAbsent (reconciliationRef : BoundedText 2048)
  deriving DecidableEq

def ReclaimAuthority.json : ReclaimAuthority → CanonicalJsonValue
  | .repeatable => .object [("kind", .string "repeatable")]
  | .reconciledAbsent ref =>
    .object [("kind", .string "reconciled_absent"), ("reconciliationRef", jsonText ref)]

structure ReclaimOutboxRequest where
  outboxId : BoundedText 512
  expectedAttempt : PositiveInteger
  workerId : BoundedText 512
  leaseToken : BoundedText 2048
  now : Instant
  leaseExpiresAt : Instant
  authority : ReclaimAuthority
  now_lt_expiry : now < leaseExpiresAt

def ReclaimOutboxRequest.json (r : ReclaimOutboxRequest) : CanonicalJsonValue :=
  .object
    [("outboxId", jsonText r.outboxId), ("expectedAttempt", jsonNatural r.expectedAttempt.1),
      ("workerId", jsonText r.workerId), ("leaseToken", jsonText r.leaseToken),
      ("now", jsonText r.now), ("leaseExpiresAt", jsonText r.leaseExpiresAt),
      ("authority", r.authority.json)]

structure WorkerResultRequest where
  outboxId : BoundedText 512
  workerId : BoundedText 512
  expectedAttempt : PositiveInteger
  leaseToken : BoundedText 2048
  deriving DecidableEq

def WorkerResultRequest.entries (r : WorkerResultRequest) : List (String × CanonicalJsonValue) :=
  [("outboxId", jsonText r.outboxId), ("workerId", jsonText r.workerId),
    ("expectedAttempt", jsonNatural r.expectedAttempt.1), ("leaseToken", jsonText r.leaseToken)]

structure CompleteOutboxRequest extends WorkerResultRequest where
  receiptRef : Option (BoundedText 2048)
  completedAt : Instant

def CompleteOutboxRequest.json (r : CompleteOutboxRequest) : CanonicalJsonValue :=
  .object (r.entries ++
    [("receiptRef", jsonNullableText r.receiptRef), ("completedAt", jsonText r.completedAt)])

structure FailOutboxRequest extends WorkerResultRequest where
  errorTag : DiagnosticTag
  retryAt : Option Instant
  failedAt : Instant

def FailOutboxRequest.json (r : FailOutboxRequest) : CanonicalJsonValue :=
  .object (r.entries ++
    [("errorTag", jsonText r.errorTag), ("certainty", .string "not_applied"),
      ("retryAt", jsonNullableText r.retryAt), ("failedAt", jsonText r.failedAt)])

structure MarkOutboxUnknownRequest extends WorkerResultRequest where
  errorTag : DiagnosticTag
  observedAt : Instant

def MarkOutboxUnknownRequest.json (r : MarkOutboxUnknownRequest) : CanonicalJsonValue :=
  .object (r.entries ++
    [("errorTag", jsonText r.errorTag), ("certainty", .string "unknown"),
      ("observedAt", jsonText r.observedAt)])

inductive Resolution where
  | applied (receiptRef : Option (BoundedText 2048))
  | notApplied (errorTag : DiagnosticTag) (retryAt : Option Instant)
  | cancelled (reasonTag : DiagnosticTag)
  deriving DecidableEq

def Resolution.json : Resolution → CanonicalJsonValue
  | .applied receiptRef =>
    .object [("kind", .string "applied"), ("receiptRef", jsonNullableText receiptRef)]
  | .notApplied errorTag retryAt =>
    .object
      [("kind", .string "not_applied"), ("errorTag", jsonText errorTag),
        ("retryAt", jsonNullableText retryAt)]
  | .cancelled reasonTag =>
    .object [("kind", .string "cancelled"), ("reasonTag", jsonText reasonTag)]

structure ResolveUnknownOutboxRequest where
  outboxId : BoundedText 512
  expectedAttempt : PositiveInteger
  reconciliationRef : BoundedText 2048
  reconciledAt : Instant
  resolution : Resolution

def ResolveUnknownOutboxRequest.json (r : ResolveUnknownOutboxRequest) : CanonicalJsonValue :=
  .object
    [("outboxId", jsonText r.outboxId), ("expectedAttempt", jsonNatural r.expectedAttempt.1),
      ("reconciliationRef", jsonText r.reconciliationRef),
      ("reconciledAt", jsonText r.reconciledAt), ("resolution", r.resolution.json)]

structure CleanupTerminalOutboxRequest where
  cleanupId : BoundedText 512
  before : Instant
  after : Option OutboxCursor
  limit : {n : ℕ // 1 ≤ n ∧ n ≤ 100}

def OutboxCursor.json (cursor : OutboxCursor) : CanonicalJsonValue :=
  .object
    [("stateChangedAt", jsonText cursor.stateChangedAt), ("outboxId", jsonText cursor.outboxId)]

def CleanupTerminalOutboxRequest.json (r : CleanupTerminalOutboxRequest) : CanonicalJsonValue :=
  .object
    [("cleanupId", jsonText r.cleanupId), ("before", jsonText r.before),
      ("after", match r.after with
        | none => .null
        | some cursor => cursor.json),
      ("limit", jsonNatural r.limit.1)]

/-- A normalised mutation of the outbox. -/
inductive OutboxMutation (P : Platform δ) where
  | enqueue (request : EnqueueOutboxRequest P)
  | claimNext (request : ClaimOutboxRequest)
  | reclaim (request : ReclaimOutboxRequest)
  | complete (request : CompleteOutboxRequest)
  | fail (request : FailOutboxRequest)
  | markUnknown (request : MarkOutboxUnknownRequest)
  | resolveUnknown (request : ResolveUnknownOutboxRequest)
  | cleanupTerminal (request : CleanupTerminalOutboxRequest)

inductive OutboxStoreErrorTag where
  | invalidRequest
  | idempotencyConflict
  | notFound
  | invalidTransition
  | corruptState
  | storageUnavailable
  deriving DecidableEq

structure OutboxStoreError where
  tag : OutboxStoreErrorTag
  certainty : EffectCertainty
  retryable : Bool
  deriving DecidableEq

/-- `errorOf(tag)` with its default certainty and retryability. -/
def errorOf (tag : OutboxStoreErrorTag) : OutboxStoreError := ⟨tag, .notApplied, false⟩

def storageUnavailable : OutboxStoreError := ⟨.storageUnavailable, .notApplied, true⟩

def lostAcknowledgement : OutboxStoreError := ⟨.storageUnavailable, .unknown, true⟩

structure OutboxLease (δ : Type) where
  record : OutboxRecord δ
  workerId : BoundedText 512
  deriving DecidableEq

/-- What a mutation answers when it does not fail. -/
inductive OutboxAnswer (δ : Type) where
  | applied (record : OutboxRecord δ)
  | replayed (record : OutboxRecord δ)
  | stale
  | leaseApplied (lease : OutboxLease δ)
  | leaseReplayed (lease : OutboxLease δ)
  | empty
  | emptyReplayed
  | cleaned (result : CleanupTerminalOutboxResult)
  | cleanupReplayed (result : CleanupTerminalOutboxResult)
  deriving DecidableEq

section Samples

def sampleOpening : Instant := ⟨"2026-01-01T00:00:00.000Z", by decide⟩
def sampleExpiry : Instant := ⟨"2026-01-01T00:01:00.000Z", by decide⟩
def sampleRenewal : Instant := ⟨"2026-01-01T00:02:00.000Z", by decide⟩
def sampleClosing : Instant := ⟨"2026-01-01T00:03:00.000Z", by decide⟩

def sampleOutboxId : BoundedText 512 := ⟨"outbox-1", by decide⟩
def sampleWorkerId : BoundedText 512 := ⟨"worker-1", by decide⟩
def sampleToken : BoundedText 2048 := ⟨"token-1", by decide⟩
def sampleNextToken : BoundedText 2048 := ⟨"token-2", by decide⟩
def sampleRef : BoundedText 2048 := ⟨"ref-1", by decide⟩
def sampleTag : DiagnosticTag := ⟨"timeout", by decide⟩
def sampleFirstAttempt : PositiveInteger := ⟨1, by decide⟩

def sampleEffect (requestHash : OpenDigest) : EffectIdentity OpenDigest where
  idempotencyKey := ⟨"key-1", by decide⟩
  requestHash := requestHash
  operationId := none
  sourceSeq := none
  provenanceRef := sampleRef
  redactionClass := .privateClass

def sampleEnqueueFields (requestHash : OpenDigest) : EnqueueFields OpenDigest where
  effect := sampleEffect requestHash
  outboxId := sampleOutboxId
  kind := .channelDelivery
  payloadRef := sampleRef
  destinationRef := none
  availableAt := sampleOpening
  enqueuedAt := sampleOpening
  repeatability := .reconciliationRequired

def sampleEnqueue : EnqueueOutboxRequest openPlatform where
  toEnqueueFields :=
    sampleEnqueueFields (hashCanonicalRequest openPlatform (sampleEnqueueFields (.text "")).json)
  sealed := by decide

def sampleClaim : ClaimOutboxRequest where
  kinds := [.channelDelivery]
  workerId := sampleWorkerId
  leaseToken := sampleToken
  now := sampleOpening
  leaseExpiresAt := sampleExpiry
  kinds_normalised := by decide
  now_lt_expiry := by decide

def sampleReclaim : ReclaimOutboxRequest where
  outboxId := sampleOutboxId
  expectedAttempt := sampleFirstAttempt
  workerId := sampleWorkerId
  leaseToken := sampleNextToken
  now := sampleRenewal
  leaseExpiresAt := sampleClosing
  authority := .reconciledAbsent sampleRef
  now_lt_expiry := by decide

end Samples

end Piclaw
