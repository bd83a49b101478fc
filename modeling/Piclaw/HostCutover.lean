import Piclaw.Values
import Piclaw.Canonical
import Piclaw.Transactions
import Piclaw.AgentQueueRuns

/-!
# The writer cutover

One `HostCutoverController` domain: the manifest row, the table of post-cutover work and the eight
ledger tables of the host store. `begin` and `verify` wait for callbacks, so each is a first turn and
the turns in which its callbacks come back; everything else is one turn. The ports of the controller
answer anew in every turn.

`returned`, `latestBegin`, `committed` and the list of calls in flight record the history of the
domain; no turn reads the first three.
-/

namespace Piclaw

open Relational

inductive CutoverPhase where
  | source
  | copying
  | verified
  | active
  | reconciliationRequired
  deriving DecidableEq

structure CopiedSource where
  originalSessionId : String
  sourceSHA256 : String
  manifestSHA256 : String
  importHash : String
  rootId : ℕ
  deriving DecidableEq

structure CutoverRequest where
  requestKey : String
  sourceDigest : String
  importHash : String
  installation : Option (List CopiedSource)
  deriving DecidableEq

structure CutoverReceipt where
  sourceDigest : String
  receiptHash : String
  deriving DecidableEq

structure AcceptedEvidence where
  sourceId : String
  evidenceHash : String
  deriving DecidableEq

structure RollbackCheckpoint where
  digest : String
  accepted : List AcceptedEvidence
  deriving DecidableEq

structure CutoverManifest where
  phase : CutoverPhase
  revision : ℕ
  writer : String
  request : CutoverRequest
  receipt : Option CutoverReceipt
  rollbackCheckpoint : Option RollbackCheckpoint
  deriving DecidableEq

inductive RollbackReason where
  | checkpointUnavailable
  | sourceChanged
  | hostNotDrained
  | acceptedWorkChanged
  | recordedWork
  deriving DecidableEq

inductive RollbackDisposition where
  | safeToRestore
  | reconciliationRequired
  deriving DecidableEq

structure RollbackPlan where
  disposition : RollbackDisposition
  revision : ℕ
  sourceDigest : String
  checkpointDigest : Option String
  currentDigest : Option String
  unresolvedAcceptedUUIDs : List String
  reasons : List RollbackReason
  deriving DecidableEq

structure DrainReport where
  sourceDigest : String
  pending : ℕ
  inflight : ℕ
  deriving DecidableEq

/-- What the ports answer in one turn; `checkDrained n` is the answer to the `n`-th call. -/
structure CutoverPorts where
  assertOwner : Bool
  assertCurrentWriter : String → Bool
  checkDrained : ℕ → DrainReport

inductive CutoverFault where
  | rejected
  | reconciliationRequired
  deriving DecidableEq

def ensure (c : Prop) [Decidable c] (fault : CutoverFault) : Except CutoverFault Unit :=
  if c then .ok () else .error fault

theorem ensure_bind_eq_ok {α : Type} {c : Prop} [Decidable c] {fault : CutoverFault}
    {f : Unit → Except CutoverFault α} {a : α} :
    (ensure c fault >>= f) = .ok a ↔ c ∧ f () = .ok a := by
  unfold ensure
  split_ifs with hc
  · rw [ok_bind]
    exact (and_iff_right hc).symm
  · constructor
    · intro h
      cases h
    · exact fun h => absurd h.1 hc

theorem ensure_eq_ok {c : Prop} [Decidable c] {fault : CutoverFault} :
    ensure c fault = .ok () ↔ c := by
  unfold ensure
  split_ifs with hc
  · exact iff_of_true rfl hc
  · refine iff_of_false (fun h => ?_) hc
    cases h

/-! ## Requests -/

def isRef (s : String) : Bool :=
  match s.toList with
  | [] => false
  | c :: rest =>
    (c.isAlphanum && decide (rest.length ≤ 199)) &&
      rest.all fun c => c.isAlphanum || c = ':' || c = '_' || c = '-'

def isDigest (s : String) : Bool :=
  decide (s.toList.length = 64) && s.toList.all fun c => c.isDigit || ('a' ≤ c && c ≤ 'f')

/-- The text equals its own `trim()`. -/
def unpadded (s : String) : Bool :=
  (s.toList.head?.all fun c => !isTrimmed c) && s.toList.getLast?.all fun c => !isTrimmed c

def CopiedSource.valid (s : CopiedSource) : Bool :=
  (decide (s.originalSessionId ≠ "") && unpadded s.originalSessionId &&
    decide (s.rootId ≤ maxSafeInteger) && decide (0 < s.rootId)) &&
    (isDigest s.sourceSHA256 && isDigest s.manifestSHA256 && isDigest s.importHash)

def validInstallation (sources : List CopiedSource) : Bool :=
  (!sources.isEmpty && sources.all CopiedSource.valid) &&
    (decide (sources.map CopiedSource.rootId).Nodup &&
      decide (sources.map CopiedSource.originalSessionId).Nodup)

def requestSnapshot (r : CutoverRequest) : Except CutoverFault CutoverRequest := do
  ensure (isRef r.requestKey = true ∧ isDigest r.sourceDigest = true ∧
    isDigest r.importHash = true) .rejected
  ensure (r.installation.all validInstallation = true) .rejected
  return r

def CopiedSource.canonical (s : CopiedSource) : CanonicalJsonValue :=
  .object [("originalSessionId", .string s.originalSessionId),
    ("sourceSHA256", .string s.sourceSHA256), ("manifestSHA256", .string s.manifestSHA256),
    ("importHash", .string s.importHash), ("rootId", .number s.rootId)]

def CutoverRequest.canonical (r : CutoverRequest) : CanonicalJsonValue :=
  .object ([("requestKey", .string r.requestKey), ("sourceDigest", .string r.sourceDigest),
    ("importHash", .string r.importHash)] ++
      r.installation.toList.map fun sources =>
        ("installation", .object [("kind", .string "copied-installation"), ("version", .number 2),
          ("sources", .array (sources.map CopiedSource.canonical))]))

/-! ## The ledger -/

inductive LedgerTable where
  | sources
  | operations
  | operationSources
  | intents
  | queuedInputs
  | commits
  | bindings
  | intentBindings
  deriving DecidableEq

namespace LedgerTable

def all : List LedgerTable :=
  [.sources, .operations, .operationSources, .intents, .queuedInputs, .commits, .bindings,
    .intentBindings]

def columns : LedgerTable → List String
  | .sources =>
    ["chat_jid", "source_seq", "source_id", "source_hash", "kind", "state", "payload_ref",
      "target_operation_id", "parent_source_seq", "accepted_at", "disposition_reason",
      "provenance_ref", "create_wake_intent"]
  | .operations =>
    ["operation_id", "chat_jid", "version", "phase", "primary_source_seq",
      "cancellation_source_id", "cancellation_source_seq", "cancellation_cause",
      "cancellation_requested_at", "harness_session_id", "harness_lane", "harness_operation_id",
      "harness_state", "harness_watch_generation", "terminal_disposition",
      "terminal_message_row_id", "terminal_error_code", "terminal_committed_at"]
  | .operationSources => ["chat_jid", "operation_id", "source_seq"]
  | .intents =>
    ["operation_id", "intent_id", "intent_hash", "kind", "payload_ref", "created_at"]
  | .queuedInputs =>
    ["chat_jid", "operation_id", "source_seq", "queue_kind", "harness_entry_id", "state"]
  | .commits =>
    ["idempotency_key", "request_hash", "operation_id", "chat_jid", "operation_version",
      "disposition", "message_row_id", "consumed_through_source_seq", "outbox_count",
      "media_count", "committed_at", "terminal_authority_present"]
  | .bindings =>
    ["domain", "incarnation", "conversation_id", "chat_jid", "branch_id", "operation_id",
      "source_seq", "source_id", "payload_ref", "request_id", "request_hash", "submission_id"]
  | .intentBindings =>
    ["domain", "incarnation", "conversation_id", "chat_jid", "branch_id", "operation_id",
      "source_seq", "source_id", "payload_ref", "request_id", "request_hash", "submission_id"]

end LedgerTable

/-- A cell as the query returns it; `other` is a blob or a big integer. -/
inductive LedgerCell where
  | null
  | text (s : String)
  | number (n : ℤ)
  | other
  deriving DecidableEq

/-- A row as the query returns it: the columns of its table, with their cells. -/
def LedgerRow (t : LedgerTable) : Type :=
  {r : List (String × LedgerCell) // r.map Prod.fst = t.columns}

instance (t : LedgerTable) : DecidableEq (LedgerRow t) :=
  inferInstanceAs (DecidableEq {r : List (String × LedgerCell) // r.map Prod.fst = t.columns})

/-- The ledger tables; a table that does not exist has no list of rows. -/
abbrev HostLedger : Type := (t : LedgerTable) → Option (List (LedgerRow t))

def LedgerCell.canonical : LedgerCell → CanonicalJsonValue
  | .text s => .string s
  | .number n => .number n
  | _ => .null

def LedgerRow.canonical {t : LedgerTable} (r : LedgerRow t) : CanonicalJsonValue :=
  .object (r.1.map fun e => (e.1, e.2.canonical))

def LedgerRow.supported {t : LedgerTable} (r : LedgerRow t) : Bool :=
  r.1.all fun e => decide (e.2 ≠ .other)

def LedgerRow.cell {t : LedgerTable} (column : String) (r : LedgerRow t) : Option LedgerCell :=
  r.1.lookup column

structure CutoverHost (δ : Type) where
  platform : Platform δ
  localeCompare : String → String → Ordering
  sourceEngineId : String
  candidateStoreRef : String
  distinct : sourceEngineId ≠ candidateStoreRef

structure CutoverRow (δ : Type) where
  requestHash : δ
  manifest : CutoverManifest

inductive BeginStage where
  | copying
  | importing
  deriving DecidableEq

structure BeginCall where
  number : ℕ
  revision : ℕ
  request : CutoverRequest
  stage : BeginStage
  deriving DecidableEq

structure VerifyCall where
  number : ℕ
  revision : ℕ
  request : CutoverRequest
  receipt : CutoverReceipt
  deriving DecidableEq

structure CutoverState (δ : Type) where
  row : Option (CutoverRow δ)
  work : List (String × String)
  ledger : HostLedger
  begins : List BeginCall
  verifies : List VerifyCall
  calls : ℕ
  returned : List (ℕ × CutoverReceipt)
  latestBegin : Option ℕ
  committed : Option HostLedger

namespace CutoverHost

variable {δ : Type} (H : CutoverHost δ)

def hash (v : CanonicalJsonValue) : String :=
  H.platform.hexDigest (hashCanonicalRequest H.platform v)

/-- The digests of some rows, in an order that does not depend on theirs. -/
def hashes (items : List CanonicalJsonValue) : List String :=
  (items.map H.hash).insertionSort (· ≤ ·)

def strings (items : List String) : CanonicalJsonValue := .array (items.map .string)

def tableHashes (ledger : HostLedger) (t : LedgerTable) (p : LedgerRow t → Bool) : List String :=
  H.hashes (((ledger t).getD []).filter p |>.map LedgerRow.canonical)

/-- The rows of one accepted source: its own, those of its operations, its bindings and the
operation it targets. -/
def evidence (ledger : HostLedger) (source : LedgerRow .sources) : CanonicalJsonValue :=
  let sameSource {t : LedgerTable} (row : LedgerRow t) : Bool :=
    decide (row.cell "chat_jid" = source.cell "chat_jid") &&
      decide (row.cell "source_seq" = source.cell "source_seq")
  let ids := (((ledger .operationSources).getD []).filter sameSource).map
    fun row => row.cell "operation_id"
  let owned {t : LedgerTable} (row : LedgerRow t) : Bool :=
    ids.contains (row.cell "operation_id")
  .array
    [strings (H.hashes [source.canonical]),
      strings (H.tableHashes ledger .operations owned),
      strings (H.tableHashes ledger .operationSources owned),
      strings (H.tableHashes ledger .intents owned),
      strings (H.tableHashes ledger .queuedInputs owned),
      strings (H.tableHashes ledger .commits owned),
      strings (H.tableHashes ledger .bindings sameSource),
      strings (H.tableHashes ledger .intentBindings sameSource),
      strings (H.tableHashes ledger .operations fun row =>
        decide (row.cell "operation_id" = source.cell "target_operation_id"))]

def acceptedEvidence (ledger : HostLedger) (source : LedgerRow .sources) :
    Except CutoverFault AcceptedEvidence :=
  match source.cell "source_id" with
  | some (.text sourceId) => .ok ⟨sourceId, H.hash (H.evidence ledger source)⟩
  | _ => .error .rejected

def evidenceLe (a b : AcceptedEvidence) : Prop :=
  H.localeCompare a.sourceId b.sourceId = .lt ∨
    (H.localeCompare a.sourceId b.sourceId = .eq ∧
      H.localeCompare a.evidenceHash b.evidenceHash ≠ .gt)

instance : DecidableRel H.evidenceLe := fun a b => by
  unfold evidenceLe
  infer_instance

def supportedTable (ledger : HostLedger) (t : LedgerTable) : Bool :=
  ((ledger t).getD []).all LedgerRow.supported

def ledgerDigest (ledger : HostLedger) : String :=
  H.hash (.array (LedgerTable.all.map fun t => strings (H.tableHashes ledger t fun _ => true)))

def rollbackFrontier (ledger : HostLedger) : Except CutoverFault (Option RollbackCheckpoint) := do
  if LedgerTable.all.any fun t => (ledger t).isNone then return none
  ensure (LedgerTable.all.all (supportedTable ledger) = true) .rejected
  let accepted ← ((ledger .sources).getD []).mapM (H.acceptedEvidence ledger)
  return some ⟨H.ledgerDigest ledger, accepted.insertionSort H.evidenceLe⟩

/-- The frontier is read for an active writer only. -/
def activeFrontier (active : Bool) (ledger : HostLedger) :
    Except CutoverFault (Option RollbackCheckpoint) :=
  if active then H.rollbackFrontier ledger else .ok none

variable (ports : CutoverPorts) (s : CutoverState δ)

/-- The `n`-th question whether the source and the host are drained. -/
def drained (n : ℕ) (request : CutoverRequest) : Except CutoverFault Unit :=
  ensure (ports.checkDrained n = ⟨request.sourceDigest, 0, 0⟩) .rejected

def rollbackReasons (active : Bool) (current checkpoint : Option RollbackCheckpoint)
    (report : DrainReport) (sourceDigest : String) (work : ℕ) : List RollbackReason :=
  (if active ∧ (current.isNone ∨ checkpoint.isNone) then [.checkpointUnavailable] else []) ++
  (if report.sourceDigest ≠ sourceDigest then [.sourceChanged] else []) ++
  (if report.pending ≠ 0 ∨ report.inflight ≠ 0 then [.hostNotDrained] else []) ++
  (if active ∧ current.isSome ∧ checkpoint.isSome ∧
      current.map RollbackCheckpoint.digest ≠ checkpoint.map RollbackCheckpoint.digest
    then [.acceptedWorkChanged] else []) ++
  (if work ≠ 0 then [.recordedWork] else [])

def rollbackPlan (n work : ℕ) (m : CutoverManifest) : Except CutoverFault RollbackPlan := do
  let active := decide (m.writer = H.candidateStoreRef)
  let current ← H.activeFrontier active s.ledger
  let checkpoint := m.rollbackCheckpoint
  let reasons := rollbackReasons active current checkpoint (ports.checkDrained n)
    m.request.sourceDigest work
  let known := (checkpoint.map RollbackCheckpoint.accepted).getD []
  let unresolved := (((current.map RollbackCheckpoint.accepted).getD []).filter
    fun row => !known.contains row).map AcceptedEvidence.sourceId
  return {
    disposition := if reasons = [] then .safeToRestore else .reconciliationRequired
    revision := m.revision
    sourceDigest := m.request.sourceDigest
    checkpointDigest := checkpoint.map RollbackCheckpoint.digest
    currentDigest := current.map RollbackCheckpoint.digest
    unresolvedAcceptedUUIDs := unresolved.dedup.insertionSort (· ≤ ·)
    reasons := reasons }

/-- The count of recorded work that every read of the manifest carries. -/
def postCutoverCount : ℕ := s.work.length

/-- Reads the manifest of the owned domain. -/
def readRow : Except CutoverFault (CutoverRow δ) := do
  ensure (ports.assertOwner = true) .rejected
  require .rejected s.row

/-- `preflight`; a request that is no request is `none`. -/
def preflight (request : CutoverRequest) : Except CutoverFault (CutoverState δ) := do
  let r ← requestSnapshot request
  ensure (ports.assertOwner = true) .rejected
  ensure (ports.assertCurrentWriter H.sourceEngineId = true) .rejected
  drained ports 0 r
  let hash := hashCanonicalRequest H.platform r.canonical
  match s.row with
  | some prior => do
    ensure (H.platform.hexDigest prior.requestHash = H.platform.hexDigest hash) .rejected
    return s
  | none => return { s with row := some ⟨hash, ⟨.source, 0, H.sourceEngineId, r, none, none⟩⟩ }

/-- What a call may change: the manifest and the table of recorded work. -/
structure ChangeBody where
  manifest : CutoverManifest
  work : List (String × String)

/-- The compare-and-set of the manifest. `finalCheck` runs before and after the update. -/
def change (expected : ℕ) (phases : List CutoverPhase)
    (body : CutoverManifest → Except CutoverFault ChangeBody)
    (finalCheck : ℕ → CutoverManifest → Except CutoverFault Unit) :
    Except CutoverFault (CutoverState δ × CutoverManifest) := do
  let row ← readRow ports s
  let m := row.manifest
  ensure (m.revision = expected ∧ m.phase ∈ phases) .rejected
  ensure (ports.assertCurrentWriter m.writer = true) .rejected
  let next ← body m
  finalCheck 0 m
  let m' := { next.manifest with revision := next.manifest.revision + 1 }
  finalCheck 1 m
  return ({ s with row := some { row with manifest := m' }, work := next.work }, m')

def noFinalCheck : ℕ → CutoverManifest → Except CutoverFault Unit := fun _ _ => .ok ()

/-- A receipt that the request determines. -/
def receiptOf (value : CutoverReceipt) (request : CutoverRequest) :
    Except CutoverFault CutoverReceipt := do
  ensure (isDigest value.sourceDigest = true ∧ isDigest value.receiptHash = true) .rejected
  ensure (value.sourceDigest = request.sourceDigest ∧ value.receiptHash = request.importHash)
    .rejected
  return value

/-- `begin` up to its first callback. -/
def beginIntent (expected : ℕ) : Except CutoverFault (CutoverState δ) := do
  let (s, intent) ← change ports s expected [.source, .copying]
    (fun m => do
      drained ports 0 m.request
      return ⟨{ m with phase := .copying }, s.work⟩) noFinalCheck
  let request ← requestSnapshot intent.request
  return { s with
    begins := s.begins ++ [⟨s.calls, intent.revision, request, .copying⟩]
    calls := s.calls + 1
    latestBegin := some s.calls }

/-- The copy of a begin has come back. -/
def copyReturned (call : BeginCall) (value : Option CutoverReceipt) :
    Except CutoverFault (CutoverState δ) := do
  let _ ← receiptOf (← require .rejected value) call.request
  ensure (ports.assertOwner = true) .rejected
  return { s with
    begins := s.begins.map fun c =>
      if c.number = call.number then { c with stage := .importing } else c }

/-- The import of a begin has come back, and the begin runs to its end. -/
def importReturned (call : BeginCall) (value : Option CutoverReceipt) :
    Except CutoverFault (CutoverState δ) := do
  let receipt ← receiptOf (← require .rejected value) call.request
  ensure (ports.assertOwner = true) .rejected
  let (s, _) ← change ports s call.revision [.copying]
    (fun m => do
      drained ports 0 m.request
      return ⟨{ m with receipt := some receipt }, s.work⟩) noFinalCheck
  return s

/-- `verify` up to its callback. -/
def verifyStart (expected : ℕ) : Except CutoverFault (CutoverState δ) := do
  let row ← readRow ports s
  let m := row.manifest
  ensure (m.revision = expected ∧ m.phase = .copying) .rejected
  let receipt ← require .rejected m.receipt
  let request ← requestSnapshot m.request
  return { s with
    verifies := s.verifies ++ [⟨s.calls, expected, request, receipt⟩]
    calls := s.calls + 1 }

/-- The verifier has come back. -/
def verifierReturned (call : VerifyCall) (value : Option CutoverReceipt) :
    Except CutoverFault (CutoverState δ) := do
  let verified ← receiptOf (← require .rejected value) call.request
  ensure (ports.assertOwner = true) .rejected
  let (s, _) ← change ports s call.revision [.copying]
    (fun m => do
      drained ports 0 m.request
      return ⟨{ m with phase := .verified, receipt := some verified }, s.work⟩) noFinalCheck
  return s

/-- `commitWriter`; `guards` is the answer of the admission guard, in the body and in each final
check. -/
def commitWriter (expected : ℕ) (guards : ℕ → Bool) : Except CutoverFault (CutoverState δ) := do
  let (s, _) ← change ports s expected [.verified]
    (fun m => do
      ensure (guards 0 = true) .rejected
      drained ports 0 m.request
      ensure (m.receipt.isSome = true) .rejected
      let checkpoint ← H.rollbackFrontier s.ledger
      return ⟨{ m with
        rollbackCheckpoint := checkpoint
        phase := .active
        writer := H.candidateStoreRef }, s.work⟩)
    (fun n _ => ensure (guards (n + 1) = true) .rejected)
  return { s with committed := some s.ledger }

def recordPostCutoverWork (expected : ℕ) (operationId contentHash : String) :
    Except CutoverFault (CutoverState δ) := do
  ensure (isRef operationId = true ∧ isDigest contentHash = true) .rejected
  let (s, _) ← change ports s expected [.active, .reconciliationRequired]
    (fun m =>
      match s.work.lookup operationId with
      | some prior => do
        ensure (prior = contentHash) .rejected
        return ⟨m, s.work⟩
      | none => return ⟨m, s.work ++ [(operationId, contentHash)]⟩) noFinalCheck
  return s

def prepareRollback (expected : ℕ) : Except CutoverFault RollbackPlan := do
  let row ← readRow ports s
  let m := row.manifest
  ensure (m.revision = expected) .rejected
  ensure (ports.assertCurrentWriter m.writer = true) .rejected
  H.rollbackPlan ports s 0 (postCutoverCount s) m

def ensureSafe (n : ℕ) (m : CutoverManifest) : Except CutoverFault Unit := do
  let plan ← H.rollbackPlan ports s n (postCutoverCount s) m
  ensure (plan.disposition = .safeToRestore) .rejected
  drained ports (n + 1) m.request

/-- The switch of `rollback`, in the transaction that comes after `prepareRollback`. -/
def switchBack (expected : ℕ) : Except CutoverFault (CutoverState δ) := do
  let (s, _) ← change ports s expected
    [.source, .copying, .verified, .active, .reconciliationRequired]
    (fun m => do
      H.ensureSafe ports s 1 m
      return ⟨{ m with phase := .source, writer := H.sourceEngineId, receipt := none }, s.work⟩)
    (fun n m => H.ensureSafe ports s (2 * n + 3) m)
  return s

/-- `rollback`. Its first transaction may have seen an `earlier` state. -/
def rollback (expected : ℕ) (earlier : CutoverState δ) : Except CutoverFault (CutoverState δ) := do
  let plan ← H.prepareRollback ports earlier expected
  ensure (plan.disposition = .safeToRestore) .reconciliationRequired
  H.switchBack ports s expected

end CutoverHost

/-- One turn of the domain. The results of callbacks are `none` when they fail. -/
inductive CutoverTurn (δ : Type) where
  | preflight (ports : CutoverPorts) (request : CutoverRequest)
  | begin (ports : CutoverPorts) (expected : ℕ)
  | copyReturned (ports : CutoverPorts) (number : ℕ) (value : Option CutoverReceipt)
  | importReturned (ports : CutoverPorts) (number : ℕ) (value : Option CutoverReceipt)
  | verify (ports : CutoverPorts) (expected : ℕ)
  | verifierReturned (ports : CutoverPorts) (number : ℕ) (value : Option CutoverReceipt)
  | commitWriter (ports : CutoverPorts) (expected : ℕ) (guards : ℕ → Bool)
  | recordPostCutoverWork (ports : CutoverPorts) (expected : ℕ) (operationId contentHash : String)
  | rollback (ports : CutoverPorts) (expected : ℕ) (earlier : CutoverState δ)
  | changeLedger (ledger : HostLedger)

/-- A call that throws has no effect. -/
def settleCall {δ : Type} (s : CutoverState δ) : Except CutoverFault (CutoverState δ) → CutoverState δ
  | .ok s' => s'
  | .error _ => s

def cutoverStep {δ : Type} (H : CutoverHost δ) (s : CutoverState δ) :
    CutoverTurn δ → CutoverState δ
  | .preflight ports request => settleCall s (H.preflight ports s request)
  | .begin ports expected => settleCall s (CutoverHost.beginIntent ports s expected)
  | .copyReturned ports number value =>
    match s.begins.find? fun c => decide (c.number = number ∧ c.stage = .copying) with
    | none => s
    | some call =>
      settleCall { s with begins := s.begins.filter fun c => decide (c.number ≠ number) }
        (CutoverHost.copyReturned ports s call value)
  | .importReturned ports number value =>
    match s.begins.find? fun c => decide (c.number = number ∧ c.stage = .importing) with
    | none => s
    | some call =>
      let s := { s with
        begins := s.begins.filter fun c => decide (c.number ≠ number)
        returned := value.toList.map (fun receipt => (number, receipt)) ++ s.returned }
      settleCall s (CutoverHost.importReturned ports s call value)
  | .verify ports expected => settleCall s (CutoverHost.verifyStart ports s expected)
  | .verifierReturned ports number value =>
    match s.verifies.find? fun c => decide (c.number = number) with
    | none => s
    | some call =>
      let s := { s with verifies := s.verifies.filter fun c => decide (c.number ≠ number) }
      settleCall s (CutoverHost.verifierReturned ports s call value)
  | .commitWriter ports expected guards => settleCall s (H.commitWriter ports s expected guards)
  | .recordPostCutoverWork ports expected operationId contentHash =>
    settleCall s (CutoverHost.recordPostCutoverWork ports s expected operationId contentHash)
  | .rollback ports expected earlier => settleCall s (H.rollback ports s expected earlier)
  | .changeLedger ledger => { s with ledger := ledger }

def CutoverState.empty {δ : Type} (ledger : HostLedger) : CutoverState δ :=
  ⟨none, [], ledger, [], [], 0, [], none, none⟩

end Piclaw
