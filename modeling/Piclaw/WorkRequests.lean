import Piclaw.WorkSchema
import Piclaw.OutboxRequests

/-!
# EF-S01 requests

One structure for each normalised request of the work store, typed by what its normaliser admits.
`WorkMutation` collects the seven mutations; a `SealedMutation` quotes the digest of its own
canonical text, as the normaliser demands. The withdrawal and the attachment of a queued source
are requests of the host, with digests of their own.
-/

namespace Piclaw
variable {δ : Type}

section Names

def AcceptedSourceKind.name : AcceptedSourceKind → String
  | .message => "message"
  | .steer => "steer"
  | .followUp => "follow_up"
  | .continuation => "continuation"
  | .control => "control"
  | .cancellation => "cancellation"
  | .scheduledAgent => "scheduled_agent"
  | .internal => "internal"

def OperationIntentKind.name : OperationIntentKind → String
  | .openHarness => "open_harness"
  | .prompt => "prompt"
  | .queueInput => "queue_input"
  | .abort => "abort"
  | .resume => "resume"
  | .settle => "settle"
  | .maintenance => "maintenance"

def QueuedInputKind.name : QueuedInputKind → String
  | .steer => "steer"
  | .followUp => "follow_up"
  | .nextRun => "next_run"

def QueuedInputState.name : QueuedInputState → String
  | .accepted => "accepted"
  | .queued => "queued"
  | .consumed => "consumed"
  | .disposed => "disposed"

end Names

section Effects

/-- An effect identity whose operation and source are of the types `ω` and `σ`. -/
structure WorkEffect (δ ω σ : Type) where
  idempotencyKey : Text
  requestHash : δ
  operationId : ω
  sourceSeq : σ
  provenanceRef : Text
  redactionClass : RedactionClass
  deriving DecidableEq

abbrev WorkEffectIdentity (δ : Type) := WorkEffect δ (Option Text) (Option SafeNatural)
abbrev OperationEffect (δ : Type) := WorkEffect δ Text (Option SafeNatural)
abbrev AttachmentEffect (δ : Type) := WorkEffect δ Text PositiveInteger
abbrev DetachedEffect (δ : Type) := WorkEffect δ Unit Unit

def jsonNullableNatural {p : ℕ → Prop} : Option {n : ℕ // p n} → CanonicalJsonValue
  | none => .null
  | some n => jsonNatural n.1

def WorkEffect.json {ω σ : Type} (jsonOperation : ω → CanonicalJsonValue)
    (jsonSource : σ → CanonicalJsonValue) (effect : WorkEffect δ ω σ) : CanonicalJsonValue :=
  .object
    [("idempotencyKey", jsonText effect.idempotencyKey),
      ("operationId", jsonOperation effect.operationId),
      ("sourceSeq", jsonSource effect.sourceSeq),
      ("provenanceRef", jsonText effect.provenanceRef),
      ("redactionClass", .string effect.redactionClass.name)]

def WorkEffectIdentity.json (effect : WorkEffectIdentity δ) : CanonicalJsonValue :=
  WorkEffect.json jsonNullableText jsonNullableNatural effect

def OperationEffect.json (effect : OperationEffect δ) : CanonicalJsonValue :=
  WorkEffect.json jsonText jsonNullableNatural effect

def AttachmentEffect.json (effect : AttachmentEffect δ) : CanonicalJsonValue :=
  WorkEffect.json jsonText (fun n => jsonNatural n.1) effect

def DetachedEffect.json (effect : DetachedEffect δ) : CanonicalJsonValue :=
  WorkEffect.json (fun _ => .null) (fun _ => .null) effect

end Effects

section Mutations

structure AcceptSourceRequest (δ : Type) where
  effect : WorkEffectIdentity δ
  chatJid : Text
  sourceId : Text
  kind : AcceptedSourceKind
  payloadRef : Text
  targetOperationId : Option Text
  parentSourceSeq : Option PositiveInteger
  acceptedAt : Instant
  createWakeIntent : Bool
  deriving DecidableEq

def AcceptSourceRequest.json (r : AcceptSourceRequest δ) : CanonicalJsonValue :=
  .object
    [("effect", r.effect.json), ("chatJid", jsonText r.chatJid), ("sourceId", jsonText r.sourceId),
      ("kind", .string r.kind.name), ("payloadRef", jsonText r.payloadRef),
      ("targetOperationId", jsonNullableText r.targetOperationId),
      ("parentSourceSeq", jsonNullableNatural r.parentSourceSeq),
      ("acceptedAt", jsonText r.acceptedAt), ("createWakeIntent", .boolean r.createWakeIntent)]

structure ClaimNextSourceRequest (δ : Type) where
  effect : WorkEffectIdentity δ
  chatJid : Text
  expectedFrontier : SafeNatural
  newOperationId : Text
  claimedAt : Instant
  deriving DecidableEq

def ClaimNextSourceRequest.json (r : ClaimNextSourceRequest δ) : CanonicalJsonValue :=
  .object
    [("effect", r.effect.json), ("chatJid", jsonText r.chatJid),
      ("expectedFrontier", jsonNatural r.expectedFrontier.1),
      ("newOperationId", jsonText r.newOperationId), ("claimedAt", jsonText r.claimedAt)]

structure AppendOperationIntentRequest (δ : Type) where
  effect : OperationEffect δ
  expectedVersion : PositiveInteger
  intentId : Text
  kind : OperationIntentKind
  payloadRef : Text
  createdAt : Instant
  deriving DecidableEq

def AppendOperationIntentRequest.json (r : AppendOperationIntentRequest δ) : CanonicalJsonValue :=
  .object
    [("effect", r.effect.json), ("expectedVersion", jsonNatural r.expectedVersion.1),
      ("intentId", jsonText r.intentId), ("kind", .string r.kind.name),
      ("payloadRef", jsonText r.payloadRef), ("createdAt", jsonText r.createdAt)]

structure AcceptCancellationRequest (δ : Type) where
  effect : OperationEffect δ
  expectedVersion : PositiveInteger
  sourceId : Text
  sourceSeq : PositiveInteger
  cause : Text
  requestedAt : Instant
  deriving DecidableEq

def AcceptCancellationRequest.json (r : AcceptCancellationRequest δ) : CanonicalJsonValue :=
  .object
    [("effect", r.effect.json), ("expectedVersion", jsonNatural r.expectedVersion.1),
      ("sourceId", jsonText r.sourceId), ("sourceSeq", jsonNatural r.sourceSeq.1),
      ("cause", jsonText r.cause), ("requestedAt", jsonText r.requestedAt)]

structure BindHarnessRequest (δ : Type) where
  effect : OperationEffect δ
  expectedVersion : PositiveInteger
  sessionId : Text
  harnessOperationId : Text
  deriving DecidableEq

def BindHarnessRequest.json (r : BindHarnessRequest δ) : CanonicalJsonValue :=
  .object
    [("effect", r.effect.json), ("expectedVersion", jsonNatural r.expectedVersion.1),
      ("sessionId", jsonText r.sessionId), ("harnessOperationId", jsonText r.harnessOperationId)]

/-- A harness correlation that names its operation. -/
structure ExpectedHarness where
  sessionId : Text
  harnessOperationId : Text
  deriving DecidableEq

def ExpectedHarness.json (h : ExpectedHarness) : CanonicalJsonValue :=
  .object
    [("sessionId", jsonText h.sessionId), ("harnessOperationId", jsonText h.harnessOperationId)]

def ExpectedHarness.correlation (h : ExpectedHarness) : HarnessCorrelation :=
  ⟨h.sessionId, some h.harnessOperationId⟩

structure FinishHarnessRequest (δ : Type) where
  effect : OperationEffect δ
  expectedVersion : PositiveInteger
  expectedHarness : ExpectedHarness
  deriving DecidableEq

def FinishHarnessRequest.json (r : FinishHarnessRequest δ) : CanonicalJsonValue :=
  .object
    [("method", .string "finishHarness.v1"), ("effect", r.effect.json),
      ("expectedVersion", jsonNatural r.expectedVersion.1),
      ("expectedHarness", r.expectedHarness.json)]

structure RecordQueuedInputRequest (δ : Type) where
  effect : OperationEffect δ
  expectedVersion : PositiveInteger
  sourceSeq : PositiveInteger
  queueKind : QueuedInputKind
  harnessEntryId : Option Text
  state : QueuedInputState
  deriving DecidableEq

def RecordQueuedInputRequest.json (r : RecordQueuedInputRequest δ) : CanonicalJsonValue :=
  .object
    [("effect", r.effect.json), ("expectedVersion", jsonNatural r.expectedVersion.1),
      ("sourceSeq", jsonNatural r.sourceSeq.1), ("queueKind", .string r.queueKind.name),
      ("harnessEntryId", jsonNullableText r.harnessEntryId), ("state", .string r.state.name)]

inductive WorkMutation (δ : Type) where
  | acceptSource (request : AcceptSourceRequest δ)
  | claimNext (request : ClaimNextSourceRequest δ)
  | appendIntent (request : AppendOperationIntentRequest δ)
  | acceptCancellation (request : AcceptCancellationRequest δ)
  | bindHarness (request : BindHarnessRequest δ)
  | finishHarness (request : FinishHarnessRequest δ)
  | recordQueuedInput (request : RecordQueuedInputRequest δ)
  deriving DecidableEq

namespace WorkMutation

def method : WorkMutation δ → WorkMethod
  | acceptSource _ => .acceptSource
  | claimNext _ => .claimNext
  | appendIntent _ => .appendIntent
  | acceptCancellation _ => .acceptCancellation
  | bindHarness _ => .bindHarness
  | finishHarness _ => .finishHarness
  | recordQueuedInput _ => .recordQueuedInput

def idempotencyKey : WorkMutation δ → Text
  | acceptSource r => r.effect.idempotencyKey
  | claimNext r => r.effect.idempotencyKey
  | appendIntent r => r.effect.idempotencyKey
  | acceptCancellation r => r.effect.idempotencyKey
  | bindHarness r => r.effect.idempotencyKey
  | finishHarness r => r.effect.idempotencyKey
  | recordQueuedInput r => r.effect.idempotencyKey

def requestHash : WorkMutation δ → δ
  | acceptSource r => r.effect.requestHash
  | claimNext r => r.effect.requestHash
  | appendIntent r => r.effect.requestHash
  | acceptCancellation r => r.effect.requestHash
  | bindHarness r => r.effect.requestHash
  | finishHarness r => r.effect.requestHash
  | recordQueuedInput r => r.effect.requestHash

def json : WorkMutation δ → CanonicalJsonValue
  | acceptSource r => r.json
  | claimNext r => r.json
  | appendIntent r => r.json
  | acceptCancellation r => r.json
  | bindHarness r => r.json
  | finishHarness r => r.json
  | recordQueuedInput r => r.json

end WorkMutation

/-- A mutation that `normaliseMutationRequest` returns. -/
abbrev SealedMutation (P : Platform δ) :=
  {m : WorkMutation δ // m.requestHash = hashCanonicalRequest P m.json}

def semanticSourceHash (P : Platform δ) (r : AcceptSourceRequest δ) : δ :=
  hashCanonicalRequest P <| .object
    [("chatJid", jsonText r.chatJid), ("sourceId", jsonText r.sourceId),
      ("kind", .string r.kind.name), ("payloadRef", jsonText r.payloadRef),
      ("targetOperationId", jsonNullableText r.targetOperationId),
      ("parentSourceSeq", jsonNullableNatural r.parentSourceSeq),
      ("acceptedAt", jsonText r.acceptedAt), ("createWakeIntent", .boolean r.createWakeIntent),
      ("provenanceRef", jsonText r.effect.provenanceRef),
      ("redactionClass", .string r.effect.redactionClass.name)]

def semanticIntentHash (P : Platform δ) (r : AppendOperationIntentRequest δ) : δ :=
  hashCanonicalRequest P <| .object
    [("operationId", jsonText r.effect.operationId), ("intentId", jsonText r.intentId),
      ("kind", .string r.kind.name), ("payloadRef", jsonText r.payloadRef),
      ("createdAt", jsonText r.createdAt)]

end Mutations

section HostRequests

structure WithdrawFields (δ : Type) where
  effect : DetachedEffect δ
  chatJid : Text
  sourceId : Text
  sourceHash : δ
  payloadRef : Text
  actor : Text
  deriving DecidableEq

def WithdrawFields.json (P : Platform δ) (r : WithdrawFields δ) : CanonicalJsonValue :=
  .object
    [("method", .string "withdrawUnclaimedSource.v1"), ("effect", r.effect.json),
      ("chatJid", jsonText r.chatJid), ("sourceId", jsonText r.sourceId),
      ("sourceHash", .string (P.hexDigest r.sourceHash)), ("payloadRef", jsonText r.payloadRef),
      ("actor", jsonText r.actor)]

structure WithdrawUnclaimedSourceRequest (P : Platform δ) extends WithdrawFields δ where
  sealed : effect.requestHash = hashCanonicalRequest P (toWithdrawFields.json P)

structure AttachFields (δ : Type) where
  effect : AttachmentEffect δ
  chatJid : Text
  expectedVersion : PositiveInteger
  expectedHarness : ExpectedHarness
  sourceId : Text
  sourceHash : δ
  payloadRef : Text
  createdAt : Instant
  deriving DecidableEq

def AttachFields.json (P : Platform δ) (r : AttachFields δ) : CanonicalJsonValue :=
  .object
    [("method", .string "attachQueuedSource.v1"), ("effect", r.effect.json),
      ("chatJid", jsonText r.chatJid), ("expectedVersion", jsonNatural r.expectedVersion.1),
      ("expectedHarness", r.expectedHarness.json), ("sourceId", jsonText r.sourceId),
      ("sourceHash", .string (P.hexDigest r.sourceHash)), ("payloadRef", jsonText r.payloadRef),
      ("createdAt", jsonText r.createdAt)]

structure AttachQueuedSourceRequest (P : Platform δ) extends AttachFields δ where
  sealed : effect.requestHash = hashCanonicalRequest P (toAttachFields.json P)

end HostRequests

section Answers

inductive ServiceWorkErrorTag where
  | idempotencyConflict
  | frontierMismatch
  | versionMismatch
  | ownerConflict
  | invalidTransition
  | notFound
  | corruptState
  | storageUnavailable
  deriving DecidableEq

structure ServiceWorkError where
  tag : ServiceWorkErrorTag
  certainty : EffectCertainty
  retryable : Bool
  observedVersion : Option ℕ
  observedFrontier : Option ℕ
  conflictingOperationId : Option Text
  deriving DecidableEq

def serviceError (tag : ServiceWorkErrorTag) : ServiceWorkError :=
  ⟨tag, .notApplied, false, none, none, none⟩

def workStorageUnavailable : ServiceWorkError :=
  { serviceError .storageUnavailable with retryable := true }

def workLostAcknowledgement : ServiceWorkError :=
  { serviceError .storageUnavailable with certainty := .unknown, retryable := true }

/-- The value of an applied mutation; `nothing` is a claim that found no pending source. -/
inductive WorkValue where
  | source (snapshot : AcceptedSourceSnapshot)
  | operation (snapshot : OperationSnapshot)
  | claimed (source : AcceptedSourceSnapshot) (operation : OperationSnapshot)
  | nothing
  deriving DecidableEq

end Answers

end Piclaw
