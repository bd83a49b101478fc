import Piclaw.HostCutoverRollback

/-!
# The EF-S07 scheduled-run schema

The tables of the scheduled-run store: task heads, their immutable revisions, the occurrences that
workers run, the evidence that each statement leaves beside them, and the tombstones that remain
after retention.

A canonical instant has a four-digit year, so its text is determined by its time value and texts
are ordered as time values are. `CanonicalInstant` is that time value. Every text of a request
passes its column's length check, because `ScheduledId` and its companions carry both checks.
-/

namespace Piclaw.Scheduled
open Relational

section Values

/-- 0000-01-01T00:00:00.000Z and 9999-12-31T23:59:59.999Z. -/
def firstInstant : ℤ := -62167219200000
def lastInstant : ℤ := 253402300799999

abbrev CanonicalInstant := {t : ℤ // firstInstant ≤ t ∧ t ≤ lastInstant}

instance : DecidableLT CanonicalInstant := fun a b => inferInstanceAs (Decidable (a.1 < b.1))

instance : DecidableLE CanonicalInstant := fun a b => inferInstanceAs (Decidable (a.1 ≤ b.1))

def canonicalInstant (t : ℤ) : Option CanonicalInstant :=
  if h : firstInstant ≤ t ∧ t ≤ lastInstant then some ⟨t, h⟩ else none

def addCanonicalDuration (value : CanonicalInstant) (durationMs : ℕ) : Option CanonicalInstant :=
  if 1 ≤ durationMs ∧ durationMs ≤ maxSafeInteger then canonicalInstant (value.1 + durationMs)
  else none

def visible (maxLength : ℕ) (s : String) : Bool :=
  decide (1 ≤ s.toList.length) && decide (s.toList.length ≤ maxLength) &&
    s.toList.all (fun c => !isTrimmed c) && decide (sqlText maxLength s)

def validId (s : String) : Bool := visible 512 s

def validOpaqueRef (s : String) : Bool := visible 2048 s

def validRef (s : String) : Bool :=
  decide (1 ≤ s.toList.length) && decide (s.toList.length ≤ 2048) && decide (sqlText 2048 s)

def validTag (s : String) : Bool :=
  decide (1 ≤ s.toList.length) && decide (s.toList.length ≤ 128) && s.toList.all tagCharacter

abbrev ScheduledId := {s : String // validId s}
abbrev ScheduledRef := {s : String // validRef s}
abbrev OpaqueRef := {s : String // validOpaqueRef s}
abbrev ScheduledTag := {s : String // validTag s}

end Values

section Columns

inductive TaskStatus where
  | active
  | paused
  | completed
  | deleted
  deriving DecidableEq

inductive TaskKind where
  | agent
  | shell
  | internal
  deriving DecidableEq

inductive ExecutionRepeatability where
  | agentSource
  | repeatable
  | reconciliationRequired
  deriving DecidableEq

inductive Schedule where
  | cron (expression : String)
  | interval (milliseconds : PositiveInteger)
  | once (scheduleValue : CanonicalInstant)
  deriving DecidableEq

inductive RunState where
  | claimed
  | sourceBound
  | completed
  | abandoned
  deriving DecidableEq

inductive ResultStatus where
  | success
  | error
  deriving DecidableEq

inductive HeadDisposition where
  | pending
  | advanced
  | paused
  | deleted
  | superseded
  deriving DecidableEq

inductive AuthorityKind where
  | new
  | agentReconciledAbsent
  | repeatable
  | reconciledAbsent
  deriving DecidableEq

inductive MutationMethod where
  | claimDue
  | renew
  | bindAcceptedSource
  | complete
  | abandon
  | cleanupTerminal
  deriving DecidableEq

def RunState.active : RunState → Bool
  | .claimed | .sourceBound => true
  | _ => false

end Columns

section Rows
variable (δ : Type)

/-- The columns of a task configuration that the store reads. -/
structure ScheduledTaskSnapshot where
  taskId : ScheduledId
  revision : PositiveInteger
  configHash : δ
  chatJid : ScheduledId
  kind : TaskKind
  schedule : Schedule
  timezone : String
  notifyOnComplete : Bool
  muted : Bool
  executionRepeatability : ExecutionRepeatability
  deriving DecidableEq

structure ScheduledTaskHead where
  taskId : ScheduledId
  revision : PositiveInteger
  status : TaskStatus
  nextRunAt : Option CanonicalInstant
  deriving DecidableEq

structure RevisionRow where
  taskId : ScheduledId
  revision : PositiveInteger
  configHash : δ
  snapshot : ScheduledTaskSnapshot δ
  deriving DecidableEq

structure RunRow where
  runId : δ
  taskId : ScheduledId
  taskRevision : PositiveInteger
  scheduledFor : CanonicalInstant
  state : RunState
  attempt : ℕ
  workerId : Option ScheduledId
  leaseTokenHash : Option δ
  claimedAt : CanonicalInstant
  leaseExpiresAt : Option CanonicalInstant
  acceptedSourceSeq : Option PositiveInteger
  operationId : Option ScheduledId
  resultStatus : Option ResultStatus
  durationMs : Option SafeNatural
  resultRef : Option OpaqueRef
  errorCode : Option ScheduledTag
  nextRunAt : Option CanonicalInstant
  headDisposition : HeadDisposition
  settledAt : Option CanonicalInstant
  abandonmentReasonTag : Option ScheduledTag
  deriving DecidableEq

structure RunLeaseRow where
  runId : δ
  attempt : ℕ
  tokenHash : δ
  workerId : ScheduledId
  claimedAt : CanonicalInstant
  leaseExpiresAt : CanonicalInstant
  authorityKind : AuthorityKind
  reconciliationRef : Option ScheduledRef
  deriving DecidableEq

structure RenewalRow where
  runId : δ
  attempt : ℕ
  ordinal : ℕ
  requestHash : δ
  previousExpiresAt : CanonicalInstant
  leaseExpiresAt : CanonicalInstant
  renewedAt : CanonicalInstant
  deriving DecidableEq

structure BindingRow where
  runId : δ
  requestHash : δ
  idempotencyKey : ScheduledId
  chatJid : ScheduledId
  sourceSeq : PositiveInteger
  operationId : ScheduledId
  boundAt : CanonicalInstant
  deriving DecidableEq

structure RunLogRow where
  runId : δ
  taskId : ScheduledId
  taskRevision : PositiveInteger
  scheduledFor : CanonicalInstant
  taskKind : TaskKind
  completedAt : CanonicalInstant
  durationMs : SafeNatural
  status : ResultStatus
  resultRef : Option OpaqueRef
  errorCode : Option ScheduledTag
  deriving DecidableEq

structure NextDecisionRow where
  runId : δ
  taskId : ScheduledId
  taskRevision : PositiveInteger
  scheduledFor : CanonicalInstant
  computedNextRunAt : Option CanonicalInstant
  effectiveNextRunAt : Option CanonicalInstant
  headDisposition : HeadDisposition
  decidedAt : CanonicalInstant
  decisionHash : δ
  deriving DecidableEq

structure AbandonmentRow where
  runId : δ
  requestHash : δ
  reasonTag : ScheduledTag
  abandonedAt : CanonicalInstant
  retryAt : Option CanonicalInstant
  deriving DecidableEq

structure OutboxLinkRow where
  runId : δ
  ordinal : ℕ
  outboxId : ScheduledId
  deriving DecidableEq

structure TombstoneRow where
  runId : δ
  taskId : ScheduledId
  taskRevision : PositiveInteger
  scheduledFor : CanonicalInstant
  state : RunState
  attempt : ℕ
  status : Option ResultStatus
  nextRunAt : Option CanonicalInstant
  headDisposition : HeadDisposition
  settledAt : CanonicalInstant
  decisionMethod : MutationMethod
  decisionHash : δ
  deriving DecidableEq

structure ScheduledRunRecord where
  runId : δ
  taskId : ScheduledId
  taskRevision : PositiveInteger
  scheduledFor : CanonicalInstant
  state : RunState
  attempt : ℕ
  workerId : Option ScheduledId
  leaseExpiresAt : Option CanonicalInstant
  acceptedSourceSeq : Option PositiveInteger
  operationId : Option ScheduledId
  status : Option ResultStatus
  durationMs : Option SafeNatural
  resultRef : Option OpaqueRef
  errorCode : Option ScheduledTag
  nextRunAt : Option CanonicalInstant
  headDisposition : HeadDisposition
  settledAt : Option CanonicalInstant
  abandonmentReasonTag : Option ScheduledTag
  outboxIds : List ScheduledId
  retained : Bool
  deriving DecidableEq

structure ClaimReplayRow where
  runId : δ
  attempt : ℕ
  state : RunState
  deriving DecidableEq

structure CleanupScheduledRunsResult where
  removed : ℕ
  runIds : List δ
  deriving DecidableEq

/-- The values that a decision keeps as JSON. -/
inductive StoredResult where
  | replayRows (rows : List (ClaimReplayRow δ))
  | record (record : ScheduledRunRecord δ)
  | cleanup (result : CleanupScheduledRunsResult δ)
  deriving DecidableEq

inductive RunDecisionKey where
  | claim (prefixHash : δ)
  | renew (runId : δ) (attempt : ℕ) (tokenHash : δ) (leaseExpiresAt : CanonicalInstant)
  | effect (idempotencyKey : ScheduledId)
  | cleanupTerminal (settledBefore : CanonicalInstant) (limit : ℕ)
  | retention (requestHash : δ)
  deriving DecidableEq

structure RunDecisionRow where
  decisionKey : RunDecisionKey δ
  method : MutationMethod
  requestHash : δ
  runId : Option δ
  result : StoredResult δ
  decidedAt : CanonicalInstant
  deriving DecidableEq

end Rows

section Checks
variable {δ : Type}

/-- The first alternative of the occurrence check: a leased run without a result. -/
def RunRow.activeCheck (r : RunRow δ) : Prop :=
  r.workerId ≠ none ∧ r.leaseTokenHash ≠ none ∧ (∃ expires ∈ r.leaseExpiresAt, r.claimedAt < expires) ∧
    r.resultStatus = none ∧ r.durationMs = none ∧ r.resultRef = none ∧ r.errorCode = none ∧
    r.nextRunAt = none ∧ r.headDisposition = .pending ∧ r.settledAt = none ∧
    r.abandonmentReasonTag = none

def RunRow.completedCheck (r : RunRow δ) : Prop :=
  r.workerId = none ∧ r.leaseTokenHash = none ∧ r.leaseExpiresAt = none ∧ r.durationMs ≠ none ∧
    r.settledAt ≠ none ∧ r.abandonmentReasonTag = none ∧ r.headDisposition ≠ .pending ∧
    ((r.resultStatus = some .success ∧ r.resultRef ≠ none ∧ r.errorCode = none) ∨
      (r.resultStatus = some .error ∧ r.resultRef = none ∧ r.errorCode ≠ none))

def RunRow.abandonedCheck (r : RunRow δ) : Prop :=
  r.workerId = none ∧ r.leaseTokenHash = none ∧ r.leaseExpiresAt = none ∧ r.resultStatus = none ∧
    r.durationMs = none ∧ r.resultRef = none ∧ r.errorCode = none ∧ r.settledAt ≠ none ∧
    r.abandonmentReasonTag ≠ none ∧ r.headDisposition ≠ .pending

def RunRow.check (r : RunRow δ) : Prop :=
  1 ≤ r.attempt ∧ r.attempt ≤ maxSafeInteger ∧
    ((r.state.active = true ∧ r.activeCheck) ∨ (r.state = .completed ∧ r.completedCheck) ∨
      (r.state = .abandoned ∧ r.abandonedCheck)) ∧
    (r.acceptedSourceSeq.isSome = r.operationId.isSome) ∧
    (r.state = .sourceBound → r.acceptedSourceSeq ≠ none)

instance : DecidablePred (RunRow.check (δ := δ)) := fun r => by
  have h₁ : Decidable (r.activeCheck) := by dsimp only [RunRow.activeCheck]; infer_instance
  have h₂ : Decidable (r.completedCheck) := by dsimp only [RunRow.completedCheck]; infer_instance
  have h₃ : Decidable (r.abandonedCheck) := by dsimp only [RunRow.abandonedCheck]; infer_instance
  dsimp only [RunRow.check]
  infer_instance

def RunLeaseRow.check (r : RunLeaseRow δ) : Prop :=
  1 ≤ r.attempt ∧ r.attempt ≤ maxSafeInteger ∧ r.claimedAt < r.leaseExpiresAt

def RenewalRow.check (r : RenewalRow δ) : Prop :=
  1 ≤ r.attempt ∧ r.attempt ≤ maxSafeInteger ∧ 1 ≤ r.ordinal ∧ r.ordinal ≤ maxSafeInteger ∧
    r.previousExpiresAt < r.leaseExpiresAt ∧ r.renewedAt < r.leaseExpiresAt

def NextDecisionRow.check (r : NextDecisionRow δ) : Prop := r.headDisposition ≠ .pending

def AbandonmentRow.check (r : AbandonmentRow δ) : Prop :=
  nullOr (fun retry => r.abandonedAt < retry) r.retryAt

def TombstoneRow.check (r : TombstoneRow δ) : Prop :=
  1 ≤ r.attempt ∧ r.attempt ≤ maxSafeInteger ∧ r.headDisposition ≠ .pending ∧
    ((r.state = .completed ∧ r.decisionMethod = .complete) ∨
      (r.state = .abandoned ∧ r.decisionMethod = .abandon))

end Checks

section Schemas
variable (δ : Type)

abbrev Slot := ScheduledId × PositiveInteger × CanonicalInstant

def taskSchema : Schema ScheduledTaskHead ScheduledId Empty where
  key r := r.taskId
  unique _ := none
  check _ := True
  decidableCheck := inferInstance

def revisionSchema : Schema (RevisionRow δ) (ScheduledId × PositiveInteger) (ScheduledId × δ) where
  key r := (r.taskId, r.revision)
  unique r := some (r.taskId, r.configHash)
  check _ := True
  decidableCheck := inferInstance

def occurrenceSchema : Schema (RunRow δ) δ Slot where
  key r := r.runId
  unique r := some (r.taskId, r.taskRevision, r.scheduledFor)
  check := RunRow.check
  decidableCheck := inferInstance

def runLeaseSchema : Schema (RunLeaseRow δ) (δ × ℕ) δ where
  key r := (r.runId, r.attempt)
  unique r := some r.tokenHash
  check := RunLeaseRow.check
  decidableCheck := fun _ => inferInstanceAs (Decidable (_ ∧ _ ∧ _))

def renewalSchema : Schema (RenewalRow δ) (δ × ℕ × ℕ) Empty where
  key r := (r.runId, r.attempt, r.ordinal)
  unique _ := none
  check := RenewalRow.check
  decidableCheck := fun _ => inferInstanceAs (Decidable (_ ∧ _ ∧ _ ∧ _ ∧ _ ∧ _))

def bindingSchema : Schema (BindingRow δ) δ ScheduledId where
  key r := r.runId
  unique r := some r.idempotencyKey
  check _ := True
  decidableCheck := inferInstance

def runLogSchema : Schema (RunLogRow δ) δ Empty where
  key r := r.runId
  unique _ := none
  check _ := True
  decidableCheck := inferInstance

def nextDecisionSchema : Schema (NextDecisionRow δ) δ Empty where
  key r := r.runId
  unique _ := none
  check := NextDecisionRow.check
  decidableCheck := fun r => inferInstanceAs (Decidable (r.headDisposition ≠ .pending))

def abandonmentSchema : Schema (AbandonmentRow δ) δ Empty where
  key r := r.runId
  unique _ := none
  check := AbandonmentRow.check
  decidableCheck := fun r =>
    inferInstanceAs (Decidable (nullOr (fun retry => r.abandonedAt < retry) r.retryAt))

def outboxLinkSchema : Schema (OutboxLinkRow δ) (δ × ℕ) ScheduledId where
  key r := (r.runId, r.ordinal)
  unique r := some r.outboxId
  check r := r.ordinal ≤ 99
  decidableCheck := inferInstance

def runDecisionSchema : Schema (RunDecisionRow δ) (RunDecisionKey δ) Empty where
  key r := r.decisionKey
  unique _ := none
  check _ := True
  decidableCheck := inferInstance

def tombstoneSchema : Schema (TombstoneRow δ) δ Slot where
  key r := r.runId
  unique r := some (r.taskId, r.taskRevision, r.scheduledFor)
  check := TombstoneRow.check
  decidableCheck := fun _ => inferInstanceAs (Decidable (_ ∧ _ ∧ _ ∧ (_ ∨ _)))

/-- The contents of the EF-S07 tables. -/
structure ScheduledTables where
  tasks : Table taskSchema
  revisions : Table (revisionSchema δ)
  occurrences : Table (occurrenceSchema δ)
  leases : Table (runLeaseSchema δ)
  renewals : Table (renewalSchema δ)
  bindings : Table (bindingSchema δ)
  logs : Table (runLogSchema δ)
  next : Table (nextDecisionSchema δ)
  abandonments : Table (abandonmentSchema δ)
  links : Table (outboxLinkSchema δ)
  decisions : Table (runDecisionSchema δ)
  tombstones : Table (tombstoneSchema δ)

def ScheduledTables.empty : ScheduledTables δ where
  tasks := Table.empty _
  revisions := Table.empty _
  occurrences := Table.empty _
  leases := Table.empty _
  renewals := Table.empty _
  bindings := Table.empty _
  logs := Table.empty _
  next := Table.empty _
  abandonments := Table.empty _
  links := Table.empty _
  decisions := Table.empty _
  tombstones := Table.empty _

end Schemas

end Piclaw.Scheduled
