import Piclaw.ScheduledHeads

/-!
# Admitted schedules and their successors

A task definition is admitted when its interval is a safe integer. A completed run of it needs a
successor, the instant at which it was completed plus the interval, and instants end with the year
9999. The two bounds are compared nowhere, so a run of an admitted task may be impossible to
complete.
-/

namespace Piclaw.Scheduled
open Relational
variable {δ Ω : Type} [DecidableEq δ] {P : ScheduledPlatform δ} {H : ScheduledHost δ Ω}

section Instants

/-- Leap years from the year 0 up to `year`, itself not counted. -/
def leapYearsBefore (year : ℕ) : ℕ := (year + 3) / 4 - (year + 99) / 100 + (year + 399) / 400

def daysBefore (year month day : ℕ) : ℕ :=
  365 * year + leapYearsBefore year +
    ((List.range (month - 1)).map fun m => daysInMonth year (m + 1)).sum + (day - 1)

def timeValue (year : ℕ) : List ℕ → ℤ
  | [month, day, hour, minute, second, milli] =>
    firstInstant + ((((daysBefore year month day * 24 + hour) * 60 + minute) * 60 + second) * 1000 +
      milli : ℕ)
  | _ => firstInstant

/-- The time value of a canonical text. -/
def instantOf (value : String) : Option CanonicalInstant := do
  let (year, cs) ← takeDigits 4 value.toList
  let fields ← parseWithinYear cs
  if validWithinYear year fields then canonicalInstant (timeValue year fields) else none

example : instantOf "2000-01-01T00:00:00.000Z" = some snapshotAnchor := by decide +kernel

end Instants

section Admission

inductive ScheduleType where
  | cron
  | interval
  | once
  deriving DecidableEq

structure InternalTask where
  discriminator : ScheduledTag
  reference : ScheduledRef
  deriving DecidableEq

structure ScheduledTaskAuthorityInput where
  taskId : ScheduledId
  chatJid : ScheduledId
  kind : TaskKind
  payloadRef : OpaqueRef
  modelLabel : Option ScheduledId
  scheduleType : ScheduleType
  scheduleValue : String
  timezone : String
  notifyOnComplete : Bool
  muted : Bool
  cwd : Option ScheduledRef
  timeoutSec : Option ℕ
  internalTask : Option InternalTask
  redactionClass : RedactionClass
  executionRepeatability : ExecutionRepeatability
  nextRunAt : CanonicalInstant
  authoredAt : CanonicalInstant
  deriving DecidableEq

/-- `/^[1-9]\d*$/` and a safe integer. A number above the bound may be rounded, but not below it. -/
def intervalOf (value : String) : Option PositiveInteger :=
  match value.toList with
  | [] => none
  | c :: cs =>
    if c.isDigit && decide (c ≠ '0') && cs.all Char.isDigit then
      positiveInteger? (decimal (c :: cs))
    else none

variable (P : ScheduledPlatform δ)

/-- The schedule that `scheduleValid` accepts, with its value read. -/
def validSchedule (type : ScheduleType) (value timezone : String) (anchor : CanonicalInstant) :
    Option Schedule :=
  if utf16Length value < 1 ∨ 1024 < utf16Length value then none
  else
    match type with
    | .interval => (intervalOf value).map .interval
    | .once => (instantOf value).map .once
    | .cron => if (P.computeNextRun value timezone anchor).isSome then some (.cron value) else none

def shapeValid (row : ScheduledTaskAuthorityInput) : Bool :=
  (row.muted != row.notifyOnComplete) &&
    row.timeoutSec.all (fun t => decide (1 ≤ t) && decide (t ≤ 86400)) &&
    (decide (row.kind = .agent) == decide (row.executionRepeatability = .agentSource)) &&
    (decide (row.kind = .internal) == row.internalTask.isSome) &&
    (decide (row.kind = .shell) || (row.cwd.isNone && row.timeoutSec.isNone))

def normaliseTaskAuthorityInput (row : ScheduledTaskAuthorityInput) : Option Schedule := do
  if P.validTimezone row.timezone then
    let schedule ← validSchedule P row.scheduleType row.scheduleValue row.timezone row.nextRunAt
    if (match schedule with | .once value => decide (value = row.nextRunAt) | _ => true) &&
        shapeValid row then some schedule
    else none
  else none

/-- `configHash` is the hash of the definition's projection. -/
def makeTaskSnapshot (configHash : δ) (row : ScheduledTaskAuthorityInput) (schedule : Schedule)
    (revision : PositiveInteger) : ScheduledTaskSnapshot δ where
  taskId := row.taskId
  revision := revision
  configHash := configHash
  chatJid := row.chatJid
  kind := row.kind
  schedule := schedule
  timezone := row.timezone
  notifyOnComplete := row.notifyOnComplete
  muted := row.muted
  executionRepeatability := row.executionRepeatability

theorem intervalOf_eq_some {value : String} {n : PositiveInteger} (h : intervalOf value = some n) :
    n.1 = decimal value.toList := by
  unfold intervalOf at h
  cases hvalue : value.toList with
  | nil => simp [hvalue] at h
  | cons c cs =>
    rw [hvalue] at h
    simp only at h
    split_ifs at h
    unfold positiveInteger? at h
    split_ifs at h
    cases h
    rfl

omit [DecidableEq δ] in
/-- An admitted definition has the schedule of its type, an interval the number its text shows. -/
theorem normaliseTaskAuthorityInput_schedule {row : ScheduledTaskAuthorityInput}
    {schedule : Schedule} (h : normaliseTaskAuthorityInput P row = some schedule) :
    match row.scheduleType with
    | .interval => ∃ n : PositiveInteger, schedule = .interval n ∧
        n.1 = decimal row.scheduleValue.toList
    | .once => ∃ value, schedule = .once value
    | .cron => schedule = .cron row.scheduleValue := by
  unfold normaliseTaskAuthorityInput at h
  split_ifs at h with htimezone
  obtain ⟨found, hfound, h⟩ := Option.bind_eq_some_iff.mp h
  split_ifs at h with hshape
  cases h
  unfold validSchedule at hfound
  obtain ⟨-, hfound⟩ := Option.ite_none_left_eq_some.mp hfound
  cases htype : row.scheduleType with
  | interval =>
    rw [htype] at hfound
    obtain ⟨n, hn, rfl⟩ := Option.map_eq_some_iff.mp hfound
    exact ⟨n, rfl, intervalOf_eq_some hn⟩
  | once =>
    rw [htype] at hfound
    obtain ⟨value, -, rfl⟩ := Option.map_eq_some_iff.mp hfound
    exact ⟨value, rfl⟩
  | cron =>
    rw [htype] at hfound
    simp only at hfound
    split_ifs at hfound
    cases hfound
    rfl

end Admission

section Successors

theorem canonicalInstant_eq_none {t : ℤ} :
    canonicalInstant t = none ↔ t < firstInstant ∨ lastInstant < t := by
  unfold canonicalInstant
  split_ifs with h
  · simp only [false_iff]
    omega
  · simp only [true_iff]
    omega

theorem addCanonicalDuration_isSome {value : CanonicalInstant} {n : PositiveInteger} :
    (addCanonicalDuration value n.1).isSome ↔ value.1 + n.1 ≤ lastInstant := by
  have hrange := n.2
  have hvalue := value.2
  unfold addCanonicalDuration
  rw [if_pos hrange, ← not_iff_not, Bool.not_eq_true, Option.isSome_eq_false_iff,
    Option.isNone_iff_eq_none, canonicalInstant_eq_none]
  omega

theorem ensure_then {condition : Bool} {fault : ScheduledFault} {α : Type}
    {x : Unit → Except ScheduledFault α} :
    (ensure condition fault >>= x) = if condition then x () else .error fault := by
  cases condition <;> rfl

omit [DecidableEq δ] in
/-- A head decision is refused as corrupt only for want of a successor. -/
theorem decideHead_corrupt {s : ScheduledState δ Ω} {run : RunRow δ}
    {snapshot : ScheduledTaskSnapshot δ} {settledAt : CanonicalInstant}
    {retryAt : Option CanonicalInstant} :
    decideHead P s run snapshot settledAt retryAt = .error .corruptState ↔
      (∀ value, snapshot.schedule ≠ .once value) ∧
      retryAt.or (computeScheduledSuccessor P snapshot run.scheduledFor settledAt) = none := by
  unfold decideHead
  rw [ensure_then]
  split_ifs with hsettled
  · have hleft : ¬ ((∀ value, snapshot.schedule ≠ .once value) ∧
        retryAt.or (computeScheduledSuccessor P snapshot run.scheduledFor settledAt) = none) := by
      rintro ⟨honce, hnone⟩
      rw [hnone] at hsettled
      cases hschedule : snapshot.schedule with
      | once value => exact honce value hschedule
      | interval n => simp [hschedule] at hsettled
      | cron expression => simp [hschedule] at hsettled
    simp only [hleft, iff_false]
    -- a decided head is no corrupt state: the branches answer or abort
    cases readScheduledTaskHead s run.taskId with
    | none => simp
    | some head =>
      simp only
      split_ifs
      · simp
      · simp
      · cases head.status <;> simp
  · simp only [true_iff]
    simp only [Bool.or_eq_true, not_or, Bool.not_eq_true, Option.isSome_eq_false_iff,
      Option.isNone_iff_eq_none] at hsettled
    refine ⟨fun value hschedule => ?_, hsettled.2⟩
    simp [hschedule] at hsettled

/-- The instant after the interval that the definition's text shows still has a four-digit year. -/
def SuccessorInRange (row : ScheduledTaskAuthorityInput) (completedAt : CanonicalInstant) : Prop :=
  row.scheduleType = .interval →
    completedAt.1 + decimal row.scheduleValue.toList ≤ lastInstant

omit [DecidableEq δ] in
theorem successor_representable {row : ScheduledTaskAuthorityInput} {schedule : Schedule}
    (haccepted : normaliseTaskAuthorityInput P row = some schedule)
    (htype : row.scheduleType ≠ .cron) {s : ScheduledState δ Ω} {run : RunRow δ} {configHash : δ}
    {revision : PositiveInteger} {completedAt : CanonicalInstant} :
    decideHead P s run (makeTaskSnapshot configHash row schedule revision) completedAt none ≠
        .error .corruptState ↔ SuccessorInRange row completedAt := by
  have hschedule := normaliseTaskAuthorityInput_schedule P haccepted
  unfold SuccessorInRange
  rw [ne_eq, decideHead_corrupt]
  cases hrow : row.scheduleType with
  | cron => exact absurd hrow htype
  | once =>
    rw [hrow] at hschedule
    obtain ⟨value, rfl⟩ := hschedule
    simp [makeTaskSnapshot]
  | interval =>
    rw [hrow] at hschedule
    obtain ⟨n, rfl, hn⟩ := hschedule
    simp only [makeTaskSnapshot, computeScheduledSuccessor, Option.none_or, ne_eq, reduceCtorEq,
      not_false_eq_true, implies_true, true_and, forall_const]
    rw [← hn, ← addCanonicalDuration_isSome]
    exact Option.isSome_iff_ne_none.symm

section Samples

/-- A shell task whose interval is the largest that admission accepts. -/
def longestRow : ScheduledTaskAuthorityInput where
  taskId := sampleId
  chatJid := sampleId
  kind := .shell
  payloadRef := ⟨"payload", by decide⟩
  modelLabel := none
  scheduleType := .interval
  scheduleValue := "9007199254740991"
  timezone := "UTC"
  notifyOnComplete := true
  muted := false
  cwd := none
  timeoutSec := none
  internalTask := none
  redactionClass := .privateClass
  executionRepeatability := .repeatable
  nextRunAt := sampleInstant 1000
  authoredAt := sampleInstant 0

def longestSchedule : Schedule := .interval ⟨9007199254740991, by decide⟩

def longestSnapshot : ScheduledTaskSnapshot SampleDigest :=
  makeTaskSnapshot .config longestRow longestSchedule sampleFirstAttempt

/-- The store after the task is created and its first run claimed. -/
def longestClaimed : ScheduledState SampleDigest Unit :=
  Relational.run (taskStep samplePlatform sampleHost) (ScheduledState.initial ())
    [.create { sampleTask with definition := some longestSnapshot }, sampleClaimDue 1000 firstKey]

theorem sample_validRef : validRef "sample" = true := by decide

theorem one_le_maxSafeInteger : 1 ≤ maxSafeInteger := by decide

theorem result_validOpaqueRef : validOpaqueRef "result" = true := by decide

def longestCompletion : CompleteScheduledRunRequest SampleDigest where
  runId := .run 1000
  workerId := sampleId
  expectedAttempt := sampleFirstAttempt
  expectedTaskRevision := sampleFirstAttempt
  leaseToken := sampleTokenText (.run 1000)
  now := sampleInstant 1001
  effect :=
    { idempotencyKey := secondKey
      requestHash := .request 1001
      operationId := none
      sourceSeq := none
      provenanceRef := ⟨"sample", sample_validRef⟩
      redactionClass := .privateClass }
  resultPayload := none
  status := .success
  durationMs := ⟨1, one_le_maxSafeInteger⟩
  resultRef := some ⟨"result", result_validOpaqueRef⟩
  errorCode := none
  completedAt := sampleInstant 1001
  outboxIntents := []

/-- The occurrence that `longestCompletion` completes. -/
def longestRun : RunRow SampleDigest :=
  (longestClaimed.occurrences.find? (.run 1000)).get (by decide +kernel)

theorem longest_replay : replayRecordOrRetained samplePlatform sampleHost longestClaimed
    (.effect secondKey) .complete (.request 1001) (.run 1000) = .ok none := by decide +kernel

theorem longest_fenced : requireFencedRun samplePlatform sampleHost longestClaimed
    longestCompletion.toFence
      (samplePlatform.hashScheduledLeaseToken longestCompletion.leaseToken.1) = .ok longestRun := by decide +kernel

theorem longest_read : readSnapshot samplePlatform longestClaimed longestRun.taskId
    longestRun.taskRevision = .ok longestSnapshot := by decide +kernel

theorem longest_shape :
    validateCompletionShape longestCompletion longestRun longestSnapshot = .ok () := by
  decide +kernel

theorem longest_accepted :
    normaliseTaskAuthorityInput samplePlatform longestRow = some longestSchedule := by
  decide +kernel

end Samples

end Successors

end Piclaw.Scheduled
