import Piclaw.Canonical
import Piclaw.KeyedTable
import Piclaw.Values

/-!
# The EF-S05 outbox schema

The five tables of the service outbox with the constraints their CREATE TABLE statements declare:
primary keys, UNIQUE(kind, idempotency_key) and every CHECK. Columns are typed by what the request
normaliser admits; the CHECK clauses stand beside those types, because they reject some admitted
values (a text that starts with NUL, an expanded instant, an attempt past the safe integers) and
because the state check relates columns to each other.

`DecisionKey` lists the six shapes of `decision_key`. A digest of type `δ` satisfies the hash check
by definition.
-/

namespace Piclaw
open Relational

inductive OutboxKind where
  | wakeChat
  | timelineBroadcast
  | channelDelivery
  | notification
  | schedulerRunLog
  | maintenance
  deriving DecidableEq

def OutboxKind.name : OutboxKind → String
  | .wakeChat => "wake_chat"
  | .timelineBroadcast => "timeline_broadcast"
  | .channelDelivery => "channel_delivery"
  | .notification => "notification"
  | .schedulerRunLog => "scheduler_run_log"
  | .maintenance => "maintenance"

inductive OutboxState where
  | pending
  | started
  | completed
  | failed
  | unknown
  | cancelled
  deriving DecidableEq

inductive EffectCertainty where
  | notApplied
  | applied
  | unknown
  deriving DecidableEq

inductive OutboxRepeatability where
  | repeatable
  | reconciliationRequired
  deriving DecidableEq

inductive RedactionClass where
  | publicClass
  | privateClass
  | secretClass
  deriving DecidableEq

inductive OutboxMutationMethod where
  | enqueue
  | claimNext
  | reclaim
  | complete
  | fail
  | markUnknown
  | resolveUnknown
  | cleanupTerminal
  deriving DecidableEq

abbrev SafeNatural := {n : ℕ // n ≤ maxSafeInteger}
abbrev PositiveInteger := {n : ℕ // 1 ≤ n ∧ n ≤ maxSafeInteger}

structure OutboxRecord (δ : Type) where
  outboxId : BoundedText 512
  kind : OutboxKind
  state : OutboxState
  idempotencyKey : BoundedText 512
  requestHash : δ
  operationId : Option (BoundedText 512)
  sourceSeq : Option SafeNatural
  provenanceRef : BoundedText 2048
  redactionClass : RedactionClass
  payloadRef : BoundedText 2048
  destinationRef : Option (BoundedText 2048)
  availableAt : Instant
  enqueuedAt : Instant
  stateChangedAt : Instant
  repeatability : OutboxRepeatability
  attempt : ℕ
  workerId : Option (BoundedText 512)
  claimedAt : Option Instant
  leaseToken : Option (BoundedText 2048)
  leaseExpiresAt : Option Instant
  certainty : Option EffectCertainty
  retryAt : Option Instant
  receiptRef : Option (BoundedText 2048)
  lastErrorTag : Option DiagnosticTag
  resultAt : Option Instant
  reconciliationRef : Option (BoundedText 2048)
  reconciledAt : Option Instant
  cancellationReasonTag : Option DiagnosticTag
  deriving DecidableEq

/-- A nullable column satisfies its check when it is NULL or its value does. -/
def nullOr {α : Type} (check : α → Prop) (v : Option α) : Prop := ∀ x ∈ v, check x

instance {α : Type} (check : α → Prop) [DecidablePred check] (v : Option α) :
    Decidable (nullOr check v) :=
  inferInstanceAs (Decidable (∀ x ∈ v, check x))

@[simp] theorem nullOr_none {α : Type} (check : α → Prop) : nullOr check none := by
  simp [nullOr]

@[simp] theorem nullOr_some {α : Type} (check : α → Prop) (x : α) :
    nullOr check (some x) ↔ check x := by
  simp [nullOr]

namespace OutboxRecord
variable {δ : Type}

def columnChecks (r : OutboxRecord δ) : Prop :=
  sqlText 512 r.outboxId.1 ∧ sqlText 512 r.idempotencyKey.1 ∧
    nullOr (fun x => sqlText 512 x.1) r.operationId ∧ sqlText 2048 r.provenanceRef.1 ∧
    sqlText 2048 r.payloadRef.1 ∧ nullOr (fun x => sqlText 2048 x.1) r.destinationRef ∧
    sqlInstant r.availableAt.1 ∧ sqlInstant r.enqueuedAt.1 ∧ sqlInstant r.stateChangedAt.1 ∧
    r.attempt ≤ maxSafeInteger ∧ nullOr (fun x => sqlText 512 x.1) r.workerId ∧
    nullOr (fun x => sqlInstant x.1) r.claimedAt ∧ nullOr (fun x => sqlText 2048 x.1) r.leaseToken ∧
    nullOr (fun x => sqlInstant x.1) r.leaseExpiresAt ∧ nullOr (fun x => sqlInstant x.1) r.retryAt ∧
    nullOr (fun x => sqlText 2048 x.1) r.receiptRef ∧
    nullOr (fun x => sqlText 128 x.1) r.lastErrorTag ∧ nullOr (fun x => sqlInstant x.1) r.resultAt ∧
    nullOr (fun x => sqlText 2048 x.1) r.reconciliationRef ∧
    nullOr (fun x => sqlInstant x.1) r.reconciledAt ∧
    nullOr (fun x => sqlText 128 x.1) r.cancellationReasonTag

/-- The columns that hold a lease. -/
def leaseColumns (r : OutboxRecord δ) :
    Option (BoundedText 512) × Option Instant × Option (BoundedText 2048) × Option Instant :=
  (r.workerId, r.claimedAt, r.leaseToken, r.leaseExpiresAt)

def unleased :
    Option (BoundedText 512) × Option Instant × Option (BoundedText 2048) × Option Instant :=
  (none, none, none, none)

def startedCheck (r : OutboxRecord δ) : Prop :=
  r.certainty = none ∧ 1 ≤ r.attempt ∧ r.workerId ≠ none ∧ r.leaseToken ≠ none ∧
    (∃ claimed ∈ r.claimedAt, ∃ expires ∈ r.leaseExpiresAt,
      claimed < expires ∧ r.stateChangedAt = claimed) ∧
    r.retryAt = none ∧ r.receiptRef = none ∧ r.lastErrorTag = none ∧ r.resultAt = none ∧
    r.reconciledAt = none ∧ r.cancellationReasonTag = none

/-- The table check that ties the nullable columns to the state. -/
def stateCheck (r : OutboxRecord δ) : Prop :=
  match r.state with
  | .pending =>
    r.certainty = some .notApplied ∧ r.attempt = 0 ∧ r.leaseColumns = unleased ∧
      r.retryAt = none ∧ r.receiptRef = none ∧ r.lastErrorTag = none ∧ r.resultAt = none ∧
      r.reconciliationRef = none ∧ r.reconciledAt = none ∧ r.cancellationReasonTag = none
  | .started => r.startedCheck
  | .completed =>
    r.certainty = some .applied ∧ 1 ≤ r.attempt ∧ r.leaseColumns = unleased ∧
      r.retryAt = none ∧ r.lastErrorTag = none ∧ r.resultAt = some r.stateChangedAt ∧
      r.cancellationReasonTag = none
  | .failed =>
    r.certainty = some .notApplied ∧ 1 ≤ r.attempt ∧ r.leaseColumns = unleased ∧
      r.receiptRef = none ∧ r.lastErrorTag ≠ none ∧ r.resultAt = some r.stateChangedAt ∧
      nullOr (fun retry => r.stateChangedAt < retry) r.retryAt ∧ r.cancellationReasonTag = none
  | .unknown =>
    r.certainty = some .unknown ∧ 1 ≤ r.attempt ∧ r.leaseColumns = unleased ∧
      r.retryAt = none ∧ r.receiptRef = none ∧ r.lastErrorTag ≠ none ∧
      r.resultAt = some r.stateChangedAt ∧ r.reconciliationRef = none ∧ r.reconciledAt = none ∧
      r.cancellationReasonTag = none
  | .cancelled =>
    r.certainty = some .notApplied ∧ 1 ≤ r.attempt ∧ r.leaseColumns = unleased ∧
      r.retryAt = none ∧ r.receiptRef = none ∧ r.lastErrorTag = none ∧
      r.resultAt = some r.stateChangedAt ∧ r.reconciliationRef ≠ none ∧
      r.reconciledAt = some r.stateChangedAt ∧ r.cancellationReasonTag ≠ none

def check (r : OutboxRecord δ) : Prop :=
  r.columnChecks ∧ r.enqueuedAt ≤ r.availableAt ∧ r.stateCheck

instance : DecidablePred (columnChecks (δ := δ)) := fun _ => by
  dsimp only [columnChecks]
  infer_instance

instance : DecidablePred (startedCheck (δ := δ)) := fun _ => by
  dsimp only [startedCheck]
  infer_instance

instance : DecidablePred (stateCheck (δ := δ)) := fun r => by
  dsimp only [stateCheck]
  split <;> infer_instance

instance : DecidablePred (check (δ := δ)) := fun _ =>
  inferInstanceAs (Decidable (_ ∧ _ ∧ _))

end OutboxRecord

structure OutboxCursor where
  stateChangedAt : Instant
  outboxId : BoundedText 512
  deriving DecidableEq

structure CleanupTerminalOutboxResult where
  deletedIds : List (BoundedText 512)
  deletedCount : ℕ
  nextCursor : Option OutboxCursor
  deriving DecidableEq

inductive LeaseMethod where
  | claimNext
  | reclaim
  deriving DecidableEq

structure LeaseRow (δ : Type) where
  tokenHash : δ
  requestHash : δ
  method : LeaseMethod
  outboxId : BoundedText 512
  attempt : ℕ
  workerId : BoundedText 512
  claimedAt : Instant
  leaseExpiresAt : Instant
  reconciliationRef : Option (BoundedText 2048)
  deriving DecidableEq

def LeaseRow.check {δ : Type} (r : LeaseRow δ) : Prop :=
  sqlText 512 r.outboxId.1 ∧ 1 ≤ r.attempt ∧ r.attempt ≤ maxSafeInteger ∧
    sqlText 512 r.workerId.1 ∧ sqlInstant r.claimedAt.1 ∧ sqlInstant r.leaseExpiresAt.1 ∧
    r.claimedAt < r.leaseExpiresAt ∧ nullOr (fun x => sqlText 2048 x.1) r.reconciliationRef

inductive WorkerMethod where
  | complete
  | fail
  | markUnknown
  deriving DecidableEq

structure OutcomeRow (δ : Type) where
  outboxId : BoundedText 512
  attempt : ℕ
  method : WorkerMethod
  requestHash : δ
  state : OutboxState
  certainty : EffectCertainty
  resultAt : Instant
  receiptRef : Option (BoundedText 2048)
  errorTag : Option DiagnosticTag
  retryAt : Option Instant
  reconciliationRef : Option (BoundedText 2048)
  deriving DecidableEq

def OutcomeRow.check {δ : Type} (r : OutcomeRow δ) : Prop :=
  1 ≤ r.attempt ∧ r.attempt ≤ maxSafeInteger ∧ sqlInstant r.resultAt.1 ∧
    nullOr (fun x => sqlText 2048 x.1) r.receiptRef ∧
    nullOr (fun x => sqlText 128 x.1) r.errorTag ∧
    nullOr (fun x => sqlInstant x.1 ∧ r.resultAt < x) r.retryAt ∧
    nullOr (fun x => sqlText 2048 x.1) r.reconciliationRef ∧
    ((r.state = .completed ∧ r.certainty = .applied ∧ r.errorTag = none ∧ r.retryAt = none) ∨
      (r.state = .failed ∧ r.certainty = .notApplied ∧ r.receiptRef = none ∧ r.errorTag ≠ none) ∨
      (r.state = .unknown ∧ r.certainty = .unknown ∧ r.receiptRef = none ∧ r.errorTag ≠ none ∧
        r.retryAt = none))

structure ResolutionRow (δ : Type) where
  outboxId : BoundedText 512
  attempt : ℕ
  requestHash : δ
  state : OutboxState
  certainty : EffectCertainty
  reconciledAt : Instant
  reconciliationRef : BoundedText 2048
  receiptRef : Option (BoundedText 2048)
  errorTag : Option DiagnosticTag
  retryAt : Option Instant
  cancellationReasonTag : Option DiagnosticTag
  deriving DecidableEq

def ResolutionRow.check {δ : Type} (r : ResolutionRow δ) : Prop :=
  1 ≤ r.attempt ∧ r.attempt ≤ maxSafeInteger ∧ sqlInstant r.reconciledAt.1 ∧
    sqlText 2048 r.reconciliationRef.1 ∧ nullOr (fun x => sqlText 2048 x.1) r.receiptRef ∧
    nullOr (fun x => sqlText 128 x.1) r.errorTag ∧
    nullOr (fun x => sqlInstant x.1 ∧ r.reconciledAt < x) r.retryAt ∧
    nullOr (fun x => sqlText 128 x.1) r.cancellationReasonTag ∧
    ((r.state = .completed ∧ r.certainty = .applied ∧ r.errorTag = none ∧ r.retryAt = none ∧
        r.cancellationReasonTag = none) ∨
      (r.state = .failed ∧ r.certainty = .notApplied ∧ r.receiptRef = none ∧ r.errorTag ≠ none ∧
        r.cancellationReasonTag = none) ∨
      (r.state = .cancelled ∧ r.certainty = .notApplied ∧ r.receiptRef = none ∧
        r.errorTag = none ∧ r.retryAt = none ∧ r.cancellationReasonTag ≠ none))

inductive DecisionKey (δ : Type) where
  | enqueue (kind : OutboxKind) (idempotencyKey : BoundedText 512)
  | claim (tokenHash : δ)
  | reclaim (outboxId : BoundedText 512) (expectedAttempt : ℕ)
  | outcome (outboxId : BoundedText 512) (expectedAttempt : ℕ)
  | resolve (outboxId : BoundedText 512) (expectedAttempt : ℕ)
  | cleanup (cleanupId : BoundedText 512)
  deriving DecidableEq

inductive DecisionOutcome where
  | applied
  | stale
  | empty
  deriving DecidableEq

structure DecisionRow (δ : Type) where
  key : DecisionKey δ
  method : OutboxMutationMethod
  requestHash : δ
  outcome : DecisionOutcome
  outboxId : Option (BoundedText 512)
  attempt : Option ℕ
  tokenHash : Option δ
  resultJson : Option CleanupTerminalOutboxResult
  deriving DecidableEq

section Receipts

def hexDigit (n : ℕ) : Char := (['0', '1', '2', '3', '4', '5', '6', '7', '8', '9', 'a', 'b', 'c',
  'd', 'e', 'f'])[n]?.getD '0'

/-- `JSON.stringify` of one character of a text. -/
def stringifyCharacter (c : Char) : List Char :=
  if c.toNat = 0x22 ∨ c.toNat = 0x5C then [Char.ofNat 0x5C, c]
  else if c.toNat = 0x08 then [Char.ofNat 0x5C, 'b']
  else if c.toNat = 0x09 then [Char.ofNat 0x5C, 't']
  else if c.toNat = 0x0A then [Char.ofNat 0x5C, 'n']
  else if c.toNat = 0x0C then [Char.ofNat 0x5C, 'f']
  else if c.toNat = 0x0D then [Char.ofNat 0x5C, 'r']
  else if c.toNat < 0x20 then
    [Char.ofNat 0x5C, 'u', '0', '0', hexDigit (c.toNat / 16), hexDigit (c.toNat % 16)]
  else [c]

def stringifyText (s : String) : List Char :=
  '"' :: s.toList.flatMap stringifyCharacter ++ ['"']

def stringifyIds (ids : List (BoundedText 512)) : List Char :=
  List.intercalate [','] (ids.map fun id => stringifyText id.1)

def stringifyCursor : Option OutboxCursor → List Char
  | none => "null".toList
  | some cursor =>
    '{' :: stringifyText "stateChangedAt" ++ ':' :: stringifyText cursor.stateChangedAt.1 ++
      ',' :: stringifyText "outboxId" ++ ':' :: stringifyText cursor.outboxId.1 ++ ['}']

/-- `JSON.stringify` of a cleanup result. -/
def stringifyCleanup (result : CleanupTerminalOutboxResult) : List Char :=
  '{' :: stringifyText "deletedIds" ++ ':' :: '[' :: stringifyIds result.deletedIds ++
    ']' :: ',' :: stringifyText "deletedCount" ++ ':' :: Nat.toDigits 10 result.deletedCount ++
    ',' :: stringifyText "nextCursor" ++ ':' :: stringifyCursor result.nextCursor ++ ['}']

/-- The receipt's column check. JSON text contains no NUL, so its SQL length is its length. -/
def receiptCheck (result : CleanupTerminalOutboxResult) : Prop :=
  2 ≤ (stringifyCleanup result).length ∧ (stringifyCleanup result).length ≤ 65536

instance : DecidablePred receiptCheck := fun _ => inferInstanceAs (Decidable (_ ∧ _))

end Receipts

def DecisionRow.check {δ : Type} (r : DecisionRow δ) : Prop :=
  nullOr (fun x => sqlText 512 x.1) r.outboxId ∧ nullOr (· ≤ maxSafeInteger) r.attempt ∧
    nullOr receiptCheck r.resultJson ∧
    ((r.method = .cleanupTerminal ∧ r.outboxId = none ∧ r.resultJson ≠ none) ∨
      (r.method ≠ .cleanupTerminal ∧ r.resultJson = none)) ∧
    ((r.method = .cleanupTerminal ∧ r.outboxId = none) ∨
      (r.method = .claimNext ∧ (r.outcome = .empty ∨ r.outboxId ≠ none)) ∨
      (r.method ≠ .cleanupTerminal ∧ r.method ≠ .claimNext ∧ r.outboxId ≠ none)) ∧
    ((r.outcome = .empty ∧ r.method = .claimNext ∧ r.outboxId = none) ∨ r.outcome ≠ .empty)

section Schemas
variable (δ : Type)

instance : DecidablePred (LeaseRow.check (δ := δ)) := fun _ => by
  dsimp only [LeaseRow.check]
  infer_instance

instance : DecidablePred (OutcomeRow.check (δ := δ)) := fun _ => by
  dsimp only [OutcomeRow.check]
  infer_instance

instance : DecidablePred (ResolutionRow.check (δ := δ)) := fun _ => by
  dsimp only [ResolutionRow.check]
  infer_instance

instance : DecidablePred (DecisionRow.check (δ := δ)) := fun _ => by
  dsimp only [DecisionRow.check]
  infer_instance

def outboxSchema : Schema (OutboxRecord δ) (BoundedText 512) (OutboxKind × BoundedText 512) where
  key r := r.outboxId
  unique r := some (r.kind, r.idempotencyKey)
  check := OutboxRecord.check
  decidableCheck := inferInstance

def leaseSchema : Schema (LeaseRow δ) δ Empty where
  key r := r.tokenHash
  unique _ := none
  check := LeaseRow.check
  decidableCheck := inferInstance

def outcomeSchema : Schema (OutcomeRow δ) (BoundedText 512 × ℕ) Empty where
  key r := (r.outboxId, r.attempt)
  unique _ := none
  check := OutcomeRow.check
  decidableCheck := inferInstance

def resolutionSchema : Schema (ResolutionRow δ) (BoundedText 512 × ℕ) Empty where
  key r := (r.outboxId, r.attempt)
  unique _ := none
  check := ResolutionRow.check
  decidableCheck := inferInstance

def decisionSchema : Schema (DecisionRow δ) (DecisionKey δ) Empty where
  key r := r.key
  unique _ := none
  check := DecisionRow.check
  decidableCheck := inferInstance

/-- The contents of the EF-S05 tables. -/
@[ext]
structure OutboxTables where
  outbox : Table (outboxSchema δ)
  leases : Table (leaseSchema δ)
  outcomes : Table (outcomeSchema δ)
  resolutions : Table (resolutionSchema δ)
  decisions : Table (decisionSchema δ)

def OutboxTables.empty : OutboxTables δ where
  outbox := Table.empty _
  leases := Table.empty _
  outcomes := Table.empty _
  resolutions := Table.empty _
  decisions := Table.empty _

end Schemas

end Piclaw
