import Piclaw.KeyedTable
import Piclaw.OutboxSchema

/-!
# The EF-S01 work schema

The tables of the service work store. A chat numbers its accepted sources, owns at most one open
operation and remembers how far its sources are closed. An operation holds sources, which are its
members, and may queue some of them at its harness.

The columns of an operation that are set together stand together: the cancellation, the harness
binding and the terminal group. A foreign key is not declared here, because every statement that
inserts a reference runs after the code has read the row it refers to.
-/

namespace Piclaw
open Relational

inductive AcceptedSourceKind where
  | message
  | steer
  | followUp
  | continuation
  | control
  | cancellation
  | scheduledAgent
  | internal
  deriving DecidableEq

inductive AcceptedSourceState where
  | pending
  | claimed
  | queued
  | consumed
  | disposed
  deriving DecidableEq

inductive PiclawOperationPhase where
  | accepted
  | claimed
  | startingHarness
  | executing
  | suspended
  | cancelling
  | settling
  | terminal
  deriving DecidableEq

inductive PiclawDisposition where
  | completed
  | cancelled
  | failed
  | skipped
  | superseded
  deriving DecidableEq

inductive OperationIntentKind where
  | openHarness
  | prompt
  | queueInput
  | abort
  | resume
  | settle
  | maintenance
  deriving DecidableEq

inductive QueuedInputKind where
  | steer
  | followUp
  | nextRun
  deriving DecidableEq

inductive QueuedInputState where
  | accepted
  | queued
  | consumed
  | disposed
  deriving DecidableEq

/-- A source is closed once it is consumed or disposed. -/
def AcceptedSourceState.closed : AcceptedSourceState → Bool
  | .consumed | .disposed => true
  | _ => false

/-- A source is held while an operation works on it. -/
def AcceptedSourceState.held : AcceptedSourceState → Bool
  | .claimed | .queued => true
  | _ => false

structure ChatRow where
  chatJid : Text
  nextSourceSeq : ℕ
  consumedThroughSourceSeq : ℕ
  activeOperationId : Option Text
  deriving DecidableEq

structure SourceRow (δ : Type) where
  chatJid : Text
  sourceSeq : ℕ
  sourceId : Text
  sourceHash : δ
  kind : AcceptedSourceKind
  state : AcceptedSourceState
  payloadRef : Text
  targetOperationId : Option Text
  parentSourceSeq : Option ℕ
  acceptedAt : Instant
  dispositionReason : Option Text
  provenanceRef : Text
  createWakeIntent : Bool
  deriving DecidableEq

structure CancellationColumns where
  sourceId : Text
  sourceSeq : ℕ
  cause : Text
  requestedAt : Instant
  deriving DecidableEq

structure HarnessCorrelation where
  sessionId : Text
  harnessOperationId : Option Text
  deriving DecidableEq

structure TerminalSnapshot where
  disposition : PiclawDisposition
  messageRowId : Option PositiveInteger
  errorCode : Option DiagnosticTag
  committedAt : Instant
  deriving DecidableEq

structure OperationRow where
  operationId : Text
  chatJid : Text
  version : ℕ
  phase : PiclawOperationPhase
  primarySourceSeq : ℕ
  cancellation : Option CancellationColumns
  harness : Option HarnessCorrelation
  terminal : Option TerminalSnapshot
  deriving DecidableEq

structure OperationSourceRow where
  chatJid : Text
  operationId : Text
  sourceSeq : ℕ
  deriving DecidableEq

structure IntentRow (δ : Type) where
  operationId : Text
  intentId : Text
  intentHash : δ
  kind : OperationIntentKind
  payloadRef : Text
  createdAt : Instant
  deriving DecidableEq

structure QueuedInputRow where
  chatJid : Text
  operationId : Text
  sourceSeq : ℕ
  queueKind : QueuedInputKind
  harnessEntryId : Option Text
  state : QueuedInputState
  deriving DecidableEq

structure WakeIntentRow where
  chatJid : Text
  sourceSeq : ℕ
  deriving DecidableEq

section Snapshots

structure AcceptedSourceSnapshot where
  chatJid : Text
  sourceSeq : ℕ
  sourceId : Text
  kind : AcceptedSourceKind
  state : AcceptedSourceState
  payloadRef : Text
  targetOperationId : Option Text
  parentSourceSeq : Option ℕ
  acceptedAt : Instant
  dispositionReason : Option Text
  provenanceRef : Text
  deriving DecidableEq

structure CancellationSnapshot where
  sourceSeq : ℕ
  cause : Text
  requestedAt : Instant
  deriving DecidableEq

structure OperationSnapshot where
  operationId : Text
  chatJid : Text
  version : ℕ
  phase : PiclawOperationPhase
  primarySourceSeq : ℕ
  claimedSourceSeqs : List ℕ
  cancellation : Option CancellationSnapshot
  harness : Option HarnessCorrelation
  terminal : Option TerminalSnapshot
  deriving DecidableEq

end Snapshots

/-- What a decision stores of the value that a mutation returned. -/
inductive StoredDecision where
  | source (chatJid : Text) (sourceSeq : ℕ) (state : AcceptedSourceState)
  | operation (operation : OperationSnapshot)
  | claim (chatJid : Text) (sourceSeq : ℕ) (operation : OperationSnapshot)
  | empty
  deriving DecidableEq

inductive WorkMethod where
  | acceptSource
  | claimNext
  | appendIntent
  | acceptCancellation
  | bindHarness
  | finishHarness
  | recordQueuedInput
  | withdrawUnclaimedSource
  | attachQueuedSource
  deriving DecidableEq

structure WorkDecisionRow (δ : Type) where
  idempotencyKey : Text
  method : WorkMethod
  requestHash : δ
  result : StoredDecision
  deriving DecidableEq

section Schemas
variable (δ : Type)

def chatSchema : Schema ChatRow Text Empty where
  key r := r.chatJid
  unique _ := none
  check r := 1 ≤ r.nextSourceSeq
  decidableCheck := inferInstance

def sourceSchema : Schema (SourceRow δ) (Text × ℕ) (Text × Text) where
  key r := (r.chatJid, r.sourceSeq)
  unique r := some (r.chatJid, r.sourceId)
  check r := 1 ≤ r.sourceSeq
  decidableCheck := inferInstance

/-- The partial index `one_active_operation` is unique over the operations that are not terminal. -/
def operationSchema : Schema OperationRow Text Text where
  key r := r.operationId
  unique r := if r.phase = .terminal then none else some r.chatJid
  check r := 1 ≤ r.version
  decidableCheck := inferInstance

def operationSourceSchema : Schema OperationSourceRow (Text × ℕ) (Text × ℕ) where
  key r := (r.operationId, r.sourceSeq)
  unique r := some (r.chatJid, r.sourceSeq)
  check _ := True
  decidableCheck := inferInstance

def intentSchema : Schema (IntentRow δ) (Text × Text) Empty where
  key r := (r.operationId, r.intentId)
  unique _ := none
  check _ := True
  decidableCheck := inferInstance

def queuedInputSchema : Schema QueuedInputRow (Text × ℕ) Empty where
  key r := (r.operationId, r.sourceSeq)
  unique _ := none
  check _ := True
  decidableCheck := inferInstance

def wakeIntentSchema : Schema WakeIntentRow (Text × ℕ) Empty where
  key r := (r.chatJid, r.sourceSeq)
  unique _ := none
  check _ := True
  decidableCheck := inferInstance

def workDecisionSchema : Schema (WorkDecisionRow δ) Text Empty where
  key r := r.idempotencyKey
  unique _ := none
  check _ := True
  decidableCheck := inferInstance

/-- The tables that say which operation works on which source. -/
@[ext]
structure Ledger where
  chats : Table chatSchema
  sources : Table (sourceSchema δ)
  operations : Table operationSchema
  operationSources : Table operationSourceSchema
  queuedInputs : Table queuedInputSchema

/-- The contents of the EF-S01 tables. -/
@[ext]
structure WorkTables extends Ledger δ where
  intents : Table (intentSchema δ)
  wakeIntents : Table wakeIntentSchema
  decisions : Table (workDecisionSchema δ)

def Ledger.empty : Ledger δ where
  chats := Table.empty _
  sources := Table.empty _
  operations := Table.empty _
  operationSources := Table.empty _
  queuedInputs := Table.empty _

def WorkTables.empty : WorkTables δ where
  toLedger := Ledger.empty δ
  intents := Table.empty _
  wakeIntents := Table.empty _
  decisions := Table.empty _

end Schemas

end Piclaw
