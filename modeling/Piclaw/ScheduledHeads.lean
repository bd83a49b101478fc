import Piclaw.ScheduledRuns

/-!
# Scheduled task authorities

The owners of a task's head beside the run store: creation, revision and status changes of the
production records, and `pause` and `resume` of the isolated task authority. A status change that
resumes a paused task goes to the slot that `visibleScheduledNextRun` shows for it.

`taskStep` is the scheduler as one system: mutations of runs and changes of heads, in any order.
-/

namespace Piclaw.Scheduled
open Relational
variable {δ Ω : Type} [DecidableEq δ] (P : ScheduledPlatform δ) (H : ScheduledHost δ Ω)

/-- The statuses of a task record. -/
inductive RequestedStatus where
  | active
  | paused
  | completed
  deriving DecidableEq

def RequestedStatus.status : RequestedStatus → TaskStatus
  | .active => .active
  | .paused => .paused
  | .completed => .completed

/-- The fields of a task record that its authority reads; `definition` is the snapshot derived
from its body, absent when the body cannot be represented. -/
structure ScheduledTask (δ : Type) where
  id : ScheduledId
  revision : PositiveInteger
  status : RequestedStatus
  nextRun : Option CanonicalInstant
  definition : Option (ScheduledTaskSnapshot δ)
  deriving DecidableEq

def taskHead (task : ScheduledTask δ) : ScheduledTaskHead :=
  ⟨task.id, task.revision, task.status.status, if task.status = .completed then none else task.nextRun⟩

def insertVersion (s : ScheduledState δ Ω) (task : ScheduledTask δ) :
    Except ScheduledFault (ScheduledState δ Ω) := do
  let definition ← require .refused task.definition
  let snapshot := { definition with taskId := task.id, revision := task.revision }
  let revisions ← constrained
    (s.revisions.insert? ⟨task.id, task.revision, snapshot.configHash, snapshot⟩)
  let host ← H.insertDefinition s.host snapshot
  .ok { s with revisions := revisions, host := host }

def projectHead (s : ScheduledState δ Ω) (taskId : ScheduledId) :
    Except ScheduledFault (ScheduledState δ Ω) := do
  let host ← H.projectScheduledTask s.toScheduledTables s.host taskId none
  .ok { s with host := host }

def createScheduledTaskAuthorityRecord (task : ScheduledTask δ) (s : ScheduledState δ Ω) :
    Except ScheduledFault (ScheduledState δ Ω) := do
  ensure (readScheduledTaskHead s task.id).isNone .refused
  let (written, s₁) ← writeScheduledTaskHead s none (taskHead task)
  ensure written .refused
  let s₂ ← insertVersion H s₁ task
  projectHead H s₂ task.id

def reviseScheduledTaskAuthorityRecord (task : ScheduledTask δ) (s : ScheduledState δ Ω) :
    Except ScheduledFault (ScheduledState δ Ω) := do
  match readScheduledTaskHead s task.id with
  | none => .error .refused
  | some previous => do
    ensure (decide (previous.status ≠ .deleted) &&
      decide (previous.revision.1 + 1 = task.revision.1)) .refused
    let s₁ ← insertVersion H s task
    let (written, s₂) ← writeScheduledTaskHead s₁ (some previous) (taskHead task)
    ensure written .refused
    projectHead H s₂ task.id

/-- The decision taken for exactly this slot while the task was paused. -/
def pausedDecision (s : ScheduledState δ Ω) (taskId : ScheduledId) (revision : PositiveInteger)
    (scheduledFor : CanonicalInstant) : Option (NextDecisionRow δ) :=
  s.next.rows.find? (fun r => decide (r.taskId = taskId) && decide (r.taskRevision = revision) &&
    decide (r.scheduledFor = scheduledFor) && decide (r.headDisposition = .paused))

def visibleScheduledNextRun (s : ScheduledState δ Ω) (taskId : ScheduledId)
    (revision : PositiveInteger) (heldSlot : Option CanonicalInstant) (paused : Bool) :
    Option CanonicalInstant :=
  if !paused then heldSlot
  else
    match heldSlot with
    | none => none
    | some slot =>
      match pausedDecision s taskId revision slot with
      | some held => held.computedNextRunAt
      | none => heldSlot

/-- The head that a status change writes over `head`. -/
def statusHead (s : ScheduledState δ Ω) (head : ScheduledTaskHead) (status : RequestedStatus) :
    ScheduledTaskHead :=
  if status = .active ∧ head.status = .paused then
    let nextRunAt := visibleScheduledNextRun s head.taskId head.revision head.nextRunAt true
    { head with status := if nextRunAt.isNone then .completed else .active, nextRunAt := nextRunAt }
  else if status = .completed then { head with status := .completed, nextRunAt := none }
  else { head with status := status.status }

def setScheduledTaskAuthorityStatus (taskId : ScheduledId) (status : RequestedStatus)
    (s : ScheduledState δ Ω) : Except ScheduledFault (ScheduledState δ Ω) := do
  match readScheduledTaskHead s taskId with
  | none => .ok s
  | some head =>
    if head.status = .deleted then .ok s
    else do
      let (written, s₁) ← writeScheduledTaskHead s (some head) (statusHead s head status)
      ensure written .refused
      projectHead H s₁ taskId

namespace TaskAuthority

def pause (taskId : ScheduledId) (s : ScheduledState δ Ω) :
    Except ScheduledFault (ScheduledState δ Ω) := do
  match readScheduledTaskHead s taskId with
  | none => .error .refused
  | some head => do
    ensure (decide (head.status = .active)) .refused
    let (written, t) ← writeScheduledTaskHead s (some head) { head with status := .paused }
    ensure written .refused
    .ok t

/-- The decision with the latest slot among those taken while the task was paused. -/
def latestPaused (s : ScheduledState δ Ω) (taskId : ScheduledId) (revision : PositiveInteger) :
    Option (NextDecisionRow δ) :=
  ((s.next.rows.filter (fun r => decide (r.taskId = taskId) && decide (r.taskRevision = revision) &&
    decide (r.headDisposition = .paused))).insertionSort
      (fun a b => b.scheduledFor ≤ a.scheduledFor)).head?

def resumedSlot (s : ScheduledState δ Ω) (task : ScheduledTaskHead) : Option CanonicalInstant :=
  match latestPaused s task.taskId task.revision with
  | some held => held.computedNextRunAt
  | none => task.nextRunAt

def resumedHead (s : ScheduledState δ Ω) (task : ScheduledTaskHead) : ScheduledTaskHead :=
  { task with
    status := if (resumedSlot s task).isNone then .completed else .active
    nextRunAt := resumedSlot s task }

def resume (taskId : ScheduledId) (s : ScheduledState δ Ω) :
    Except ScheduledFault (ScheduledState δ Ω) := do
  match readScheduledTaskHead s taskId with
  | none => .error .refused
  | some task => do
    ensure (decide (task.status = .paused)) .refused
    let (written, t) ← writeScheduledTaskHead s (some task) (resumedHead s task)
    ensure written .refused
    .ok t

end TaskAuthority

inductive TaskCall (δ : Type) where
  | mutation (runtime : ScheduledRuntime) (request : Option (ScheduledRequest δ))
  | create (task : ScheduledTask δ)
  | revise (task : ScheduledTask δ)
  | setStatus (taskId : ScheduledId) (status : RequestedStatus)
  | pause (taskId : ScheduledId)
  | resume (taskId : ScheduledId)

/-- A transaction that throws leaves the state as it was. -/
def committed (s : ScheduledState δ Ω) : Except ScheduledFault (ScheduledState δ Ω) →
    ScheduledState δ Ω
  | .ok t => t
  | .error _ => s

def taskStep (s : ScheduledState δ Ω) : TaskCall δ → ScheduledState δ Ω
  | .mutation runtime request => (mutate P H runtime request s).2
  | .create task => committed s (createScheduledTaskAuthorityRecord H task s)
  | .revise task => committed s (reviseScheduledTaskAuthorityRecord H task s)
  | .setStatus taskId status => committed s (setScheduledTaskAuthorityStatus H taskId status s)
  | .pause taskId => committed s (TaskAuthority.pause taskId s)
  | .resume taskId => committed s (TaskAuthority.resume taskId s)

/-- A host whose tables start at `host`, before any task exists. -/
def ScheduledState.initial (host : Ω) : ScheduledState δ Ω := ⟨ScheduledTables.empty δ, host⟩

section Samples

/-- Digests that show what they digest. -/
inductive SampleDigest where
  | run (scheduledFor : ℤ)
  | token (text : String)
  | request (number : ℕ)
  | config
  deriving DecidableEq

def sampleRunText : SampleDigest → String
  | .run 1000 => "run-1"
  | .run _ => "run-2"
  | _ => "other"

def sampleTokenText : SampleDigest → ScheduledRef
  | .run 1000 => ⟨"token-1", by decide⟩
  | _ => ⟨"token-2", by decide⟩

def samplePlatform : ScheduledPlatform SampleDigest where
  deriveScheduledRunId _ _ scheduledFor := .run scheduledFor.1
  deriveScheduledLeaseToken _ runId _ := sampleTokenText runId
  hashScheduledLeaseToken := .token
  canonicalRequestHash
    | .claimDue request => .request (request.now.1.toNat)
    | .complete request => .request (request.completedAt.1.toNat)
    | _ => .request 0
  canonicalRecordHash _ := .request 1
  taskConfigHash _ := .config
  recordBytes _ := 100
  resultLength _ := 100
  runIdText := sampleRunText
  localeCompare := compare
  validTimezone _ := true
  computeNextRun _ _ _ := none

/-- A host without projections, sources or outbox rows. -/
def sampleHost : ScheduledHost SampleDigest Unit where
  sourceOwner _ _ _ _ := none
  outboxExists _ _ := false
  outboxInsert _ _ := .ok ()
  linkedOutbox _ _ := none
  outboxUnsettled _ _ := false
  projectScheduledTask _ _ _ _ := .ok ()
  projectScheduledHistory _ _ _ := .ok ()
  historyRetains _ _ := false
  nativeRetention _ := false
  budgetUnresolved _ _ := false
  insertDefinition _ _ := .ok ()

def sampleId : ScheduledId := ⟨"task-1", by decide⟩
def sampleInstant (t : ℤ) : CanonicalInstant := (canonicalInstant t).getD snapshotAnchor

def sampleTask : ScheduledTask SampleDigest where
  id := sampleId
  revision := sampleFirstAttempt
  status := .active
  nextRun := some (sampleInstant 1000)
  definition := some
    { taskId := sampleId
      revision := sampleFirstAttempt
      configHash := .config
      chatJid := sampleId
      kind := .shell
      schedule := .interval ⟨1000, by decide⟩
      timezone := "UTC"
      notifyOnComplete := true
      muted := false
      executionRepeatability := .repeatable }

def sampleRuntime : ScheduledRuntime := ⟨false, true, false, none, none⟩

def sampleClaimDue (now : ℤ) (leaseTokenPrefix : ScheduledId) : TaskCall SampleDigest :=
  .mutation sampleRuntime (some (.claimDue
    { now := sampleInstant now
      limit := 1
      workerId := sampleId
      leaseTokenPrefix := leaseTokenPrefix
      leaseDurationMs := 60000
      reclaimAuthorities := [] }))

def sampleComplete (scheduledFor completedAt : ℤ) (key : ScheduledId) : TaskCall SampleDigest :=
  .mutation sampleRuntime (some (.complete
    { runId := .run scheduledFor
      workerId := sampleId
      expectedAttempt := sampleFirstAttempt
      expectedTaskRevision := sampleFirstAttempt
      leaseToken := sampleTokenText (.run scheduledFor)
      now := sampleInstant completedAt
      effect :=
        { idempotencyKey := key
          requestHash := .request completedAt.toNat
          operationId := none
          sourceSeq := none
          provenanceRef := ⟨"sample", by decide⟩
          redactionClass := .privateClass }
      resultPayload := none
      status := .success
      durationMs := ⟨1, by decide⟩
      resultRef := some ⟨"result", by decide⟩
      errorCode := none
      completedAt := sampleInstant completedAt
      outboxIntents := [] }))

def firstKey : ScheduledId := ⟨"first", by decide⟩
def secondKey : ScheduledId := ⟨"second", by decide⟩

/-- The task is paused while its first run settles, resumed, run once more and paused again. -/
def pausedTwice : List (TaskCall SampleDigest) :=
  [.create sampleTask, sampleClaimDue 1000 firstKey, .setStatus sampleId .paused,
    sampleComplete 1000 1001 firstKey, .setStatus sampleId .active,
    sampleClaimDue 2001 secondKey, sampleComplete 2001 2002 secondKey,
    .setStatus sampleId .paused]

end Samples

end Piclaw.Scheduled
