import Piclaw.ScheduledHeads

/-!
# What one scheduler step can do

`ScheduledMove` lists the changes of heads, runs, next decisions and tombstones that one statement
group of the scheduler can make; every call makes a sequence of them. A move of a kind that is not
`allowed` does not occur. A settlement is `proper` when it computes a slot later than its own.
-/

namespace Piclaw.Scheduled
open Relational
open Relational.Table (Rewrites)
variable {δ Ω : Type} [DecidableEq δ] {P : ScheduledPlatform δ} {H : ScheduledHost δ Ω}
  {s s' t u : ScheduledState δ Ω}

inductive MoveKind where
  | retire
  | seam
  | complete

/-- Two rows of one slot. -/
structure SameSlot (r r' : RunRow δ) : Prop where
  runId : r'.runId = r.runId
  taskId : r'.taskId = r.taskId
  taskRevision : r'.taskRevision = r.taskRevision
  scheduledFor : r'.scheduledFor = r.scheduledFor

/-- The next decision of the run `r`. -/
structure Decides (d : NextDecisionRow δ) (r : RunRow δ) : Prop where
  runId : d.runId = r.runId
  taskId : d.taskId = r.taskId
  taskRevision : d.taskRevision = r.taskRevision
  scheduledFor : d.scheduledFor = r.scheduledFor

structure SameRuns (s s' : ScheduledState δ Ω) : Prop where
  occurrences : s'.occurrences = s.occurrences
  next : s'.next = s.next
  tombstones : s'.tombstones = s.tombstones

/-- The head points at the slot of the run. -/
def PointsAt (head : ScheduledTaskHead) (r : RunRow δ) : Prop :=
  head.revision = r.taskRevision ∧ head.nextRunAt = some r.scheduledFor

/-- What a settlement of `r` with the decision `d` does to its head. -/
inductive HeadSettles (s s' : ScheduledState δ Ω) (head : ScheduledTaskHead) (r : RunRow δ)
    (d : NextDecisionRow δ) : Prop where
  | advanced (next : ScheduledTaskHead) (hactive : head.status = .active) (hat : PointsAt head r)
      (hd : d.headDisposition = .advanced)
      (hnext : next = { head with
        status := if d.computedNextRunAt.isNone then .completed else .active
        nextRunAt := d.computedNextRunAt })
      (htasks : Rewrites s.tasks s'.tasks r.taskId head next)
  | paused (hpaused : head.status = .paused) (hat : PointsAt head r)
      (hd : d.headDisposition = .paused) (htasks : s'.tasks = s.tasks)
  | elsewhere (haway : head.status = .deleted ∨ ¬ PointsAt head r)
      (hadvanced : d.headDisposition ≠ .advanced) (hpaused : d.headDisposition ≠ .paused)
      (htasks : s'.tasks = s.tasks)

inductive HeadMove (allowed : MoveKind → Prop) (s : ScheduledState δ Ω) (prev : ScheduledTaskHead) :
    ScheduledTaskHead → Prop where
  | revised (next : ScheduledTaskHead) (hid : next.taskId = prev.taskId)
      (hrev : next.revision.1 = prev.revision.1 + 1) (hdeleted : next.status ≠ .deleted)
      (hclosed : next.status = .completed → next.nextRunAt = none) : HeadMove allowed s prev next
  | paused : HeadMove allowed s prev { prev with status := .paused }
  | reopened (hstatus : prev.status ≠ .paused) :
      HeadMove allowed s prev { prev with status := .active }
  | completed (hallowed : allowed .complete) :
      HeadMove allowed s prev { prev with status := .completed, nextRunAt := none }
  | resumed (hstatus : prev.status = .paused) : HeadMove allowed s prev (statusHead s prev .active)
  | seam (hallowed : allowed .seam) (hstatus : prev.status = .paused) :
      HeadMove allowed s prev (TaskAuthority.resumedHead s prev)

inductive ScheduledMove (allowed : MoveKind → Prop) :
    ScheduledState δ Ω → ScheduledState δ Ω → Prop where
  | quiet {s s' : ScheduledState δ Ω} (htasks : s'.tasks = s.tasks) (hruns : SameRuns s s') :
      ScheduledMove allowed s s'
  | claimed {s s' : ScheduledState δ Ω} (head : ScheduledTaskHead) (r : RunRow δ)
      (hhead : s.tasks.find? r.taskId = some head) (hactive : head.status = .active)
      (hat : PointsAt head r) (hr : r.state.active = true) (htime : r.scheduledFor ≤ r.claimedAt)
      (hnew : s.occurrences.find? r.runId = none)
      (hocc : ∀ k, s'.occurrences.find? k = if r.runId = k then some r else s.occurrences.find? k)
      (htasks : s'.tasks = s.tasks) (hnext : s'.next = s.next)
      (htombs : s'.tombstones = s.tombstones) : ScheduledMove allowed s s'
  | kept {s s' : ScheduledState δ Ω} (r r' : RunRow δ)
      (hocc : Rewrites s.occurrences s'.occurrences r.runId r r') (hr : r.state.active = true)
      (hr' : r'.state.active = true) (hslot : SameSlot r r') (htime : r.claimedAt ≤ r'.claimedAt)
      (htasks : s'.tasks = s.tasks) (hnext : s'.next = s.next)
      (htombs : s'.tombstones = s.tombstones) : ScheduledMove allowed s s'
  | settled {s s' : ScheduledState δ Ω} (head : ScheduledTaskHead) (r r' : RunRow δ)
      (d : NextDecisionRow δ) (hocc : Rewrites s.occurrences s'.occurrences r.runId r r')
      (hr : r.state.active = true) (hr' : r'.state.active = false) (hslot : SameSlot r r')
      (htime : r'.claimedAt = r.claimedAt) (hd : Decides d r)
      (hproper : ∀ c ∈ d.computedNextRunAt, r.scheduledFor < c)
      (hnew : s.next.find? d.runId = none)
      (hnext : ∀ k, s'.next.find? k = if d.runId = k then some d else s.next.find? k)
      (hhead : s.tasks.find? r.taskId = some head) (hmove : HeadSettles s s' head r d)
      (htombs : s'.tombstones = s.tombstones) : ScheduledMove allowed s s'
  | retired {s s' : ScheduledState δ Ω} (r : RunRow δ) (tombstone : TombstoneRow δ)
      (hallowed : allowed .retire) (hr : s.occurrences.find? r.runId = some r)
      (hsettled : r.state.active = false) (hfree : headHolds s r = false)
      (hid : tombstone.taskId = r.taskId ∧ tombstone.taskRevision = r.taskRevision ∧
        tombstone.scheduledFor = r.scheduledFor)
      (hocc : ∀ k, s'.occurrences.find? k = if r.runId = k then none else s.occurrences.find? k)
      (hnext : ∀ k, s'.next.find? k = if r.runId = k then none else s.next.find? k)
      (htombs : s'.tombstones.rows = tombstone :: s.tombstones.rows)
      (htasks : s'.tasks = s.tasks) : ScheduledMove allowed s s'
  | created {s s' : ScheduledState δ Ω} (head : ScheduledTaskHead)
      (hnew : s.tasks.find? head.taskId = none) (hdeleted : head.status ≠ .deleted)
      (hclosed : head.status = .completed → head.nextRunAt = none)
      (htasks : ∀ k, s'.tasks.find? k = if head.taskId = k then some head else s.tasks.find? k)
      (hruns : SameRuns s s') : ScheduledMove allowed s s'
  | headed {s s' : ScheduledState δ Ω} (prev next : ScheduledTaskHead)
      (htasks : Rewrites s.tasks s'.tasks prev.taskId prev next) (hdeleted : prev.status ≠ .deleted)
      (hmove : HeadMove allowed s prev next) (hruns : SameRuns s s') : ScheduledMove allowed s s'

abbrev ScheduledMoves (allowed : MoveKind → Prop) :
    ScheduledState δ Ω → ScheduledState δ Ω → Prop :=
  Relation.ReflTransGen (ScheduledMove allowed)

variable {allowed : MoveKind → Prop}

theorem SameRuns.refl (s : ScheduledState δ Ω) : SameRuns s s := ⟨rfl, rfl, rfl⟩

theorem ScheduledMoves.quiet (htasks : s'.tasks = s.tasks) (hruns : SameRuns s s') :
    ScheduledMoves allowed s s' :=
  .single (.quiet htasks hruns)

section Requirements

theorem ensure_bind_eq_ok {α : Type} {condition : Bool} {fault : ScheduledFault}
    {f : Unit → Except ScheduledFault α} {a : α} :
    (ensure condition fault >>= f) = .ok a ↔ condition = true ∧ f () = .ok a := by
  cases condition with
  | true => simp [ensure, ok_bind]
  | false =>
    constructor
    · intro h
      cases h
    · rintro ⟨h, -⟩
      cases h

theorem require_bind {α β : Type} {fault : ScheduledFault} {x : Option α}
    {f : α → Except ScheduledFault β} {b : β} :
    (require fault x >>= f) = .ok b ↔ ∃ a, x = some a ∧ f a = .ok b := by
  rw [bind_eq_ok]
  simp only [require_eq_ok]

theorem readRunRow_eq_some {runId : δ} {run : RunRow δ} (h : readRunRow P s runId = .ok (some run)) :
    s.occurrences.find? runId = some run ∧
      run.runId = P.deriveScheduledRunId run.taskId run.taskRevision run.scheduledFor := by
  unfold readRunRow at h
  split at h
  · cases h
  · rename_i row hrow
    split_ifs at h with hid
    cases h
    exact ⟨hrow, hid⟩

theorem runId_of_find? {runId : δ} {run : RunRow δ} (h : s.occurrences.find? runId = some run) :
    run.runId = runId :=
  Table.key_of_find? h

theorem taskId_of_find? {taskId : ScheduledId} {head : ScheduledTaskHead}
    (h : s.tasks.find? taskId = some head) : head.taskId = taskId :=
  Table.key_of_find? h

theorem readSnapshot_eq_ok {taskId : ScheduledId} {revision : PositiveInteger}
    {snapshot : ScheduledTaskSnapshot δ} (h : readSnapshot P s taskId revision = .ok snapshot) :
    ∃ row, s.revisions.find? (taskId, revision) = some row ∧ row.snapshot = snapshot := by
  unfold readSnapshot at h
  split at h
  · cases h
  · rename_i row hrow
    split_ifs at h
    cases h
    exact ⟨row, hrow, rfl⟩

/-- The fenced run is stored, active, and held by the request's worker under its token and attempt
until after the request's time. -/
theorem requireFencedRun_eq_ok {request : Fence δ} {tokenHash : δ} {run : RunRow δ}
    (h : requireFencedRun P H s request tokenHash = .ok run) :
    s.occurrences.find? run.runId = some run ∧ run.runId = request.runId ∧
      run.state.active = true ∧ run.taskRevision = request.expectedTaskRevision ∧
      run.workerId = some request.workerId ∧ run.attempt = request.expectedAttempt.1 ∧
      run.leaseTokenHash = some tokenHash ∧ ∃ expires ∈ run.leaseExpiresAt, request.now < expires := by
  unfold requireFencedRun at h
  obtain ⟨found, hfound, h⟩ := bind_eq_ok.mp h
  cases found with
  | none =>
    obtain ⟨tombstone, -, h⟩ := bind_eq_ok.mp h
    cases tombstone <;> cases h
  | some row =>
    obtain ⟨_, -, h⟩ := bind_eq_ok.mp h
    simp only [ensure_bind_eq_ok, Bool.and_eq_true, decide_eq_true_eq, Except.ok.injEq] at h
    obtain ⟨hrev, hactive, ⟨⟨hworker, hattempt⟩, htoken⟩, hlease, rfl⟩ := h
    have hrow := (readRunRow_eq_some hfound).1
    have hid := runId_of_find? hrow
    refine ⟨hid ▸ hrow, hid, hactive, hrev, hworker, hattempt, htoken, ?_⟩
    obtain ⟨expires, hexpires, hlt⟩ := (Option.any_eq_true _ _).mp hlease
    exact ⟨expires, hexpires, by simpa using hlt⟩

end Requirements

end Piclaw.Scheduled
