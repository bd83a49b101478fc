import Piclaw.ScheduledTransitions

/-!
# No head waits at a settled slot

The invariant of every run of the scheduler that does not resume through the isolated authority:
each run and tombstone of a head's revision lies at or behind the slot the head points at, and a
settled run at that very slot means that the head is paused and the run left a paused decision.
With it an active head always points at a slot that can still run, and a revision never returns to
an earlier slot.
-/

namespace Piclaw.Scheduled
open Relational
open Relational.Table (Rewrites)
variable {δ Ω : Type} [DecidableEq δ] {P : ScheduledPlatform δ} {H : ScheduledHost δ Ω}
  {s s' t u : ScheduledState δ Ω} {allowed : MoveKind → Prop}

/-- The run belongs to the head's current revision. -/
structure AtHead (head : ScheduledTaskHead) (taskId : ScheduledId) (revision : PositiveInteger) :
    Prop where
  task : taskId = head.taskId
  revision : revision = head.revision

/-- Runs and tombstones of the head's revision are not past `slot`, tombstones before it. -/
structure Behind (s : ScheduledState δ Ω) (head : ScheduledTaskHead) (slot : CanonicalInstant) :
    Prop where
  runs : ∀ k r, s.occurrences.find? k = some r → AtHead head r.taskId r.taskRevision →
    r.scheduledFor ≤ slot
  tombstones : ∀ tombstone ∈ s.tombstones.rows, AtHead head tombstone.taskId tombstone.taskRevision →
    tombstone.scheduledFor < slot

/-- A settled run at the head's slot has left a paused decision to a paused head. -/
def HeldPaused (s : ScheduledState δ Ω) (head : ScheduledTaskHead) (slot : CanonicalInstant) : Prop :=
  ∀ k r, s.occurrences.find? k = some r → AtHead head r.taskId r.taskRevision →
    r.scheduledFor = slot → r.state.active = false →
    head.status = .paused ∧
      ∃ d, s.next.find? r.runId = some d ∧ d.headDisposition = .paused ∧ Decides d r

def HeadSound (s : ScheduledState δ Ω) (head : ScheduledTaskHead) : Prop :=
  ∀ slot, head.nextRunAt = some slot → Behind s head slot ∧ HeldPaused s head slot

structure TaskSound (s : ScheduledState δ Ω) : Prop where
  owned : ∀ k r, s.occurrences.find? k = some r →
    ∃ head, s.tasks.find? r.taskId = some head ∧ r.taskRevision ≤ head.revision
  ownedTombstones : ∀ tombstone ∈ s.tombstones.rows,
    ∃ head, s.tasks.find? tombstone.taskId = some head ∧ tombstone.taskRevision ≤ head.revision
  due : ClaimedWhenDue s
  later : ∀ k d, s.next.find? k = some d → ∀ c ∈ d.computedNextRunAt, d.scheduledFor < c
  heads : ∀ k head, s.tasks.find? k = some head → HeadSound s head
  closed : ∀ k head, s.tasks.find? k = some head →
    head.status ≠ .deleted ∧ (head.status = .completed → head.nextRunAt = none)

theorem initial_sound (host : Ω) : TaskSound (ScheduledState.initial host : ScheduledState δ Ω) where
  owned _ _ h := by cases h
  ownedTombstones _ h := by cases h
  due _ _ h := by cases h
  later _ _ h := by cases h
  heads _ _ h := by cases h
  closed _ _ h := by cases h

/-- Moving a head to a later slot leaves everything behind it. -/
theorem Behind.advance {head head' : ScheduledTaskHead} {slot slot' : CanonicalInstant}
    (h : Behind s head slot) (htask : head'.taskId = head.taskId)
    (hrevision : head'.revision = head.revision) (hlt : slot < slot')
    (hnext : head'.nextRunAt = some slot') : HeadSound s head' := by
  have hat : ∀ {taskId revision}, AtHead head' taskId revision → AtHead head taskId revision :=
    fun h => ⟨h.task.trans htask, h.revision.trans hrevision⟩
  intro slot'' hslot
  rw [hnext] at hslot
  cases hslot
  refine ⟨⟨?_, ?_⟩, ?_⟩
  · intro k r hr hr'
    exact (h.runs k r hr (hat hr')).trans hlt.le
  · intro tombstone hmem hr'
    exact (h.tombstones tombstone hmem (hat hr')).trans hlt
  · intro k r hr hr' hsame
    have := h.runs k r hr (hat hr')
    rw [hsame] at this
    exact absurd hlt (not_lt_of_ge this)

theorem headSound_none {head : ScheduledTaskHead} (h : head.nextRunAt = none) :
    HeadSound s head := by
  intro slot hslot
  rw [h] at hslot
  cases hslot

section Steps

theorem TaskSound.of_eq (h : TaskSound s) (htasks : s'.tasks = s.tasks) (hruns : SameRuns s s') :
    TaskSound s' := by
  obtain ⟨hocc, hnext, htombs⟩ := hruns
  have hheads : ∀ head, HeadSound s head → HeadSound s' head := by
    intro head hhead slot hslot
    obtain ⟨hbehind, hheld⟩ := hhead slot hslot
    refine ⟨⟨?_, ?_⟩, ?_⟩
    · intro k r hr
      rw [hocc] at hr
      exact hbehind.runs k r hr
    · intro tombstone hmem
      rw [htombs] at hmem
      exact hbehind.tombstones tombstone hmem
    · intro k r hr
      rw [hocc] at hr
      rw [hnext]
      exact hheld k r hr
  constructor
  · intro k r hr
    rw [hocc] at hr
    rw [htasks]
    exact h.owned k r hr
  · intro tombstone hmem
    rw [htombs] at hmem
    rw [htasks]
    exact h.ownedTombstones tombstone hmem
  · intro k r hr
    rw [hocc] at hr
    exact h.due k r hr
  · intro k d hd
    rw [hnext] at hd
    exact h.later k d hd
  · intro k head hhead
    rw [htasks] at hhead
    exact hheads head (h.heads k head hhead)
  · intro k head hhead
    rw [htasks] at hhead
    exact h.closed k head hhead

/-- A run that appears or changes keeps the invariant when it is active and not past its head. -/
theorem TaskSound.activeRun (h : TaskSound s) {r' : RunRow δ}
    (hocc : ∀ k, s'.occurrences.find? k = if r'.runId = k then some r' else s.occurrences.find? k)
    (hactive : r'.state.active = true)
    (howned : ∃ head, s.tasks.find? r'.taskId = some head ∧ r'.taskRevision ≤ head.revision)
    (hdue : r'.scheduledFor ≤ r'.claimedAt)
    (hbehind : ∀ k head slot, s.tasks.find? k = some head → head.nextRunAt = some slot →
      AtHead head r'.taskId r'.taskRevision → r'.scheduledFor ≤ slot)
    (htasks : s'.tasks = s.tasks) (hnext : s'.next = s.next)
    (htombs : s'.tombstones = s.tombstones) : TaskSound s' := by
  have hfound : ∀ {k r}, s'.occurrences.find? k = some r →
      r = r' ∨ s.occurrences.find? k = some r := by
    intro k r hr
    rw [hocc] at hr
    split_ifs at hr
    · exact .inl (Option.some.inj hr).symm
    · exact .inr hr
  constructor
  · intro k r hr
    rw [htasks]
    rcases hfound hr with rfl | hr
    · exact howned
    · exact h.owned k r hr
  · intro tombstone hmem
    rw [htombs] at hmem
    rw [htasks]
    exact h.ownedTombstones tombstone hmem
  · intro k r hr
    rcases hfound hr with rfl | hr
    · exact hdue
    · exact h.due k r hr
  · intro k d hd
    rw [hnext] at hd
    exact h.later k d hd
  · intro k head hhead slot hslot
    rw [htasks] at hhead
    obtain ⟨hbefore, hheld⟩ := h.heads k head hhead slot hslot
    refine ⟨⟨?_, ?_⟩, ?_⟩
    · intro k' r hr hat
      rcases hfound hr with rfl | hr
      · exact hbehind k head slot hhead hslot hat
      · exact hbefore.runs k' r hr hat
    · intro tombstone hmem
      rw [htombs] at hmem
      exact hbefore.tombstones tombstone hmem
    · intro k' r hr hat hsame hsettled
      rw [hnext]
      rcases hfound hr with rfl | hr
      · rw [hactive] at hsettled
        cases hsettled
      · exact hheld k' r hr hat hsame hsettled
  · intro k head hhead
    rw [htasks] at hhead
    exact h.closed k head hhead

/-- The head that owns a run is the one stored under the run's task. -/
theorem head_of_atHead {k : ScheduledId} {head owner : ScheduledTaskHead} {taskId : ScheduledId}
    {revision : PositiveInteger} (hhead : s.tasks.find? k = some head)
    (howner : s.tasks.find? taskId = some owner) (hat : AtHead head taskId revision) :
    owner = head := by
  have hk := taskId_of_find? hhead
  rw [hat.task, hk, hhead] at howner
  exact (Option.some.inj howner).symm

/-- The runs after a settlement are the earlier ones with the settled row in place. -/
theorem found_settled {r r' : RunRow δ} {k : δ} {x : RunRow δ}
    (hocc : Rewrites s.occurrences s'.occurrences r.runId r r')
    (hx : s'.occurrences.find? k = some x) :
    x = r' ∨ (x.runId ≠ r.runId ∧ s.occurrences.find? k = some x) := by
  rcases hocc.found hx with ⟨-, rfl⟩ | ⟨hk, hx⟩
  · exact .inl rfl
  · exact .inr ⟨(runId_of_find? hx) ▸ hk, hx⟩

theorem TaskSound.settled (h : TaskSound s) {head : ScheduledTaskHead} {r r' : RunRow δ}
    {d : NextDecisionRow δ} (hocc : Rewrites s.occurrences s'.occurrences r.runId r r')
    (hr' : r'.state.active = false) (hslot : SameSlot r r') (htime : r'.claimedAt = r.claimedAt)
    (hd : Decides d r) (hproper : ∀ c ∈ d.computedNextRunAt, r.scheduledFor < c)
    (hnext : ∀ k, s'.next.find? k = if d.runId = k then some d else s.next.find? k)
    (hhead : s.tasks.find? r.taskId = some head) (hmove : HeadSettles s s' head r d)
    (htombs : s'.tombstones = s.tombstones) : TaskSound s' := by
  have hat' : ∀ {h' : ScheduledTaskHead}, AtHead h' r'.taskId r'.taskRevision →
      AtHead h' r.taskId r.taskRevision :=
    fun h' => ⟨hslot.taskId ▸ h'.task, hslot.taskRevision ▸ h'.revision⟩
  have hbehind : ∀ {h' : ScheduledTaskHead} {slot}, Behind s h' slot → Behind s' h' slot := by
    intro h' slot hb
    refine ⟨?_, ?_⟩
    · intro k x hx hat
      rcases found_settled hocc hx with rfl | ⟨-, hx⟩
      · rw [hslot.scheduledFor]
        exact hb.runs _ r hocc.before (hat' hat)
      · exact hb.runs k x hx hat
    · intro tombstone hmem
      rw [htombs] at hmem
      exact hb.tombstones tombstone hmem
  have hothers : ∀ {h' : ScheduledTaskHead} {slot}, HeldPaused s h' slot →
      (AtHead h' r.taskId r.taskRevision → r.scheduledFor = slot →
        h'.status = .paused ∧ d.headDisposition = .paused) → HeldPaused s' h' slot := by
    intro h' slot hheld hsettling k x hx hat hsame hsettled
    rcases found_settled hocc hx with rfl | ⟨hid, hx⟩
    · rw [hslot.scheduledFor] at hsame
      obtain ⟨hpaused, hdisposition⟩ := hsettling (hat' hat) hsame
      refine ⟨hpaused, d, ?_, hdisposition, ?_⟩
      · rw [hslot.runId, hnext, if_pos hd.runId]
      · exact ⟨hd.runId.trans hslot.runId.symm, hd.taskId.trans hslot.taskId.symm,
          hd.taskRevision.trans hslot.taskRevision.symm,
          hd.scheduledFor.trans hslot.scheduledFor.symm⟩
    · obtain ⟨hpaused, d', hd', hrest⟩ := hheld k x hx hat hsame hsettled
      refine ⟨hpaused, d', ?_, hrest⟩
      rw [hnext, if_neg (by rw [hd.runId]; exact hid.symm)]
      exact hd'
  have hheads : (∀ k h', s'.tasks.find? k = some h' → HeadSound s' h') ∧
      (∀ k h', s.tasks.find? k = some h' →
        ∃ h'', s'.tasks.find? k = some h'' ∧ h'.revision ≤ h''.revision) ∧
      (∀ k h', s'.tasks.find? k = some h' →
        h'.status ≠ .deleted ∧ (h'.status = .completed → h'.nextRunAt = none)) := by
    have hsame : s'.tasks = s.tasks → (head.status = .paused ∧ d.headDisposition = .paused ∨
        ¬ PointsAt head r) → (∀ k h', s'.tasks.find? k = some h' → HeadSound s' h') ∧
        (∀ k h', s.tasks.find? k = some h' →
          ∃ h'', s'.tasks.find? k = some h'' ∧ h'.revision ≤ h''.revision) ∧
        (∀ k h', s'.tasks.find? k = some h' →
          h'.status ≠ .deleted ∧ (h'.status = .completed → h'.nextRunAt = none)) := by
      intro htasks hcases
      rw [htasks]
      refine ⟨?_, fun k h' hh' => ⟨h', hh', le_rfl⟩, h.closed⟩
      intro k h' hh' slot hnextRun
      obtain ⟨hb, hheld⟩ := h.heads k h' hh' slot hnextRun
      refine ⟨hbehind hb, hothers hheld ?_⟩
      intro hat hsame
      have heq := head_of_atHead hh' hhead hat
      subst heq
      rcases hcases with hpaused | haway
      · exact hpaused
      · exact absurd ⟨hat.revision.symm, hsame ▸ hnextRun⟩ haway
    cases hmove with
    | advanced next hactive hat hdisposition hnextHead htasks =>
      refine ⟨?_, ?_, ?_⟩
      · intro k h' hh'
        rcases htasks.found hh' with ⟨rfl, rfl⟩ | ⟨hk, hh'⟩
        · cases hcomputed : d.computedNextRunAt with
          | none =>
            refine headSound_none ?_
            rw [hnextHead]
            exact hcomputed
          | some c =>
            obtain ⟨hb, -⟩ := h.heads _ head hhead _ hat.2
            refine (hbehind hb).advance ?_ ?_ (hproper c hcomputed) ?_
            · rw [hnextHead]
            · rw [hnextHead]
            · rw [hnextHead]
              exact hcomputed
        · intro slot hnextRun
          obtain ⟨hb, hheld⟩ := h.heads k h' hh' slot hnextRun
          refine ⟨hbehind hb, hothers hheld ?_⟩
          intro hat'' _
          exact absurd ((taskId_of_find? hh').symm.trans hat''.task.symm) hk
      · intro k h' hh'
        rcases htasks.lost hh' with ⟨rfl, rfl, hafter⟩ | ⟨-, hafter⟩
        · refine ⟨next, hafter, ?_⟩
          rw [hnextHead]
        · exact ⟨h', hafter, le_rfl⟩
      · intro k h' hh'
        rcases htasks.found hh' with ⟨rfl, rfl⟩ | ⟨-, hh'⟩
        · rw [hnextHead]
          dsimp only
          cases hcomputed : d.computedNextRunAt with
          | none => exact ⟨by simp, fun _ => rfl⟩
          | some c => exact ⟨by simp, by simp⟩
        · exact h.closed k h' hh'
    | paused hpaused hat hdisposition htasks => exact hsame htasks (.inl ⟨hpaused, hdisposition⟩)
    | elsewhere haway hadvanced hpaused htasks =>
      refine hsame htasks (.inr ?_)
      rcases haway with hdeleted | haway
      · exact absurd hdeleted (h.closed _ head hhead).1
      · exact haway
  obtain ⟨hsound, hgrow, hclosed⟩ := hheads
  refine ⟨?_, ?_, ?_, ?_, hsound, hclosed⟩
  · intro k x hx
    have hold : ∃ h', s.tasks.find? x.taskId = some h' ∧ x.taskRevision ≤ h'.revision := by
      rcases found_settled hocc hx with rfl | ⟨-, hx⟩
      · rw [hslot.taskId, hslot.taskRevision]
        exact h.owned _ r hocc.before
      · exact h.owned k x hx
    obtain ⟨h', hh', hle⟩ := hold
    obtain ⟨h'', hh'', hle'⟩ := hgrow _ h' hh'
    exact ⟨h'', hh'', hle.trans hle'⟩
  · intro tombstone hmem
    rw [htombs] at hmem
    obtain ⟨h', hh', hle⟩ := h.ownedTombstones tombstone hmem
    obtain ⟨h'', hh'', hle'⟩ := hgrow _ h' hh'
    exact ⟨h'', hh'', hle.trans hle'⟩
  · intro k x hx
    rcases found_settled hocc hx with rfl | ⟨-, hx⟩
    · rw [hslot.scheduledFor, htime]
      exact h.due _ r hocc.before
    · exact h.due k x hx
  · intro k x hx
    rw [hnext] at hx
    split_ifs at hx
    · cases hx
      rw [hd.scheduledFor]
      exact hproper
    · exact h.later k x hx

theorem TaskSound.retired (h : TaskSound s) {r : RunRow δ} {tombstone : TombstoneRow δ}
    (hr : s.occurrences.find? r.runId = some r) (hsettled : r.state.active = false)
    (hfree : headHolds s r = false)
    (hid : tombstone.taskId = r.taskId ∧ tombstone.taskRevision = r.taskRevision ∧
      tombstone.scheduledFor = r.scheduledFor)
    (hocc : ∀ k, s'.occurrences.find? k = if r.runId = k then none else s.occurrences.find? k)
    (hnext : ∀ k, s'.next.find? k = if r.runId = k then none else s.next.find? k)
    (htombs : s'.tombstones.rows = tombstone :: s.tombstones.rows) (htasks : s'.tasks = s.tasks) :
    TaskSound s' := by
  have hfound : ∀ {k x}, s'.occurrences.find? k = some x →
      r.runId ≠ k ∧ s.occurrences.find? k = some x := by
    intro k x hx
    rw [hocc] at hx
    split_ifs at hx with hk
    exact ⟨hk, hx⟩
  have hstrict : ∀ {k head slot}, s.tasks.find? k = some head → head.nextRunAt = some slot →
      AtHead head r.taskId r.taskRevision → r.scheduledFor < slot := by
    intro k head slot hhead hnextRun hat
    obtain ⟨hb, hheld⟩ := h.heads k head hhead slot hnextRun
    refine lt_of_le_of_ne (hb.runs _ r hr hat) ?_
    intro hsame
    obtain ⟨hpaused, -⟩ := hheld _ r hr hat hsame hsettled
    unfold headHolds at hfree
    rw [List.any_eq_false] at hfree
    refine hfree head (Table.mem_of_find? hhead) ?_
    simp only [Bool.and_eq_true, decide_eq_true_eq]
    exact ⟨⟨⟨hat.task.symm, hat.revision.symm⟩, hpaused⟩, hsame ▸ hnextRun⟩
  refine ⟨?_, ?_, ?_, ?_, ?_, ?_⟩
  · intro k x hx
    rw [htasks]
    exact h.owned k x (hfound hx).2
  · intro x hx
    rw [htasks]
    rw [htombs] at hx
    rcases List.mem_cons.mp hx with rfl | hx
    · rw [hid.1, hid.2.1]
      exact h.owned _ r hr
    · exact h.ownedTombstones x hx
  · intro k x hx
    exact h.due k x (hfound hx).2
  · intro k x hx
    rw [hnext] at hx
    split_ifs at hx
    exact h.later k x hx
  · intro k head hhead slot hnextRun
    rw [htasks] at hhead
    obtain ⟨hb, hheld⟩ := h.heads k head hhead slot hnextRun
    refine ⟨⟨?_, ?_⟩, ?_⟩
    · intro k' x hx
      exact hb.runs k' x (hfound hx).2
    · intro x hx hat
      rw [htombs] at hx
      rcases List.mem_cons.mp hx with rfl | hx
      · rw [hid.2.2]
        exact hstrict hhead hnextRun ⟨hid.1 ▸ hat.task, hid.2.1 ▸ hat.revision⟩
      · exact hb.tombstones x hx hat
    · intro k' x hx hat hsame hsettled'
      obtain ⟨hk, hx⟩ := hfound hx
      obtain ⟨hpaused, d, hd, hrest⟩ := hheld k' x hx hat hsame hsettled'
      refine ⟨hpaused, d, ?_, hrest⟩
      rw [hnext, if_neg (by rw [runId_of_find? hx]; exact hk)]
      exact hd
  · intro k head hhead
    rw [htasks] at hhead
    exact h.closed k head hhead

theorem TaskSound.created (h : TaskSound s) {head : ScheduledTaskHead}
    (hnew : s.tasks.find? head.taskId = none) (hdeleted : head.status ≠ .deleted)
    (hclosed : head.status = .completed → head.nextRunAt = none)
    (htasks : ∀ k, s'.tasks.find? k = if head.taskId = k then some head else s.tasks.find? k)
    (hruns : SameRuns s s') : TaskSound s' := by
  obtain ⟨hocc, hnext, htombs⟩ := hruns
  have hkept : ∀ {taskId h'}, s.tasks.find? taskId = some h' →
      s'.tasks.find? taskId = some h' := by
    intro taskId h' hh'
    rw [htasks, if_neg, hh']
    rintro rfl
    rw [hnew] at hh'
    cases hh'
  refine ⟨?_, ?_, ?_, ?_, ?_, ?_⟩
  · intro k r hr
    rw [hocc] at hr
    obtain ⟨h', hh', hle⟩ := h.owned k r hr
    exact ⟨h', hkept hh', hle⟩
  · intro tombstone hmem
    rw [htombs] at hmem
    obtain ⟨h', hh', hle⟩ := h.ownedTombstones tombstone hmem
    exact ⟨h', hkept hh', hle⟩
  · intro k r hr
    rw [hocc] at hr
    exact h.due k r hr
  · intro k d hd
    rw [hnext] at hd
    exact h.later k d hd
  · intro k h' hh' slot hnextRun
    rw [htasks] at hh'
    split_ifs at hh' with hk
    · cases hh'
      have hnone : ∀ {taskId revision}, AtHead head taskId revision →
          s.tasks.find? taskId = none := by
        intro taskId revision hat
        rw [hat.task]
        exact hnew
      refine ⟨⟨?_, ?_⟩, ?_⟩
      · intro k' r hr hat
        rw [hocc] at hr
        obtain ⟨owner, howner, -⟩ := h.owned k' r hr
        rw [hnone hat] at howner
        cases howner
      · intro tombstone hmem hat
        rw [htombs] at hmem
        obtain ⟨owner, howner, -⟩ := h.ownedTombstones tombstone hmem
        rw [hnone hat] at howner
        cases howner
      · intro k' r hr hat
        rw [hocc] at hr
        obtain ⟨owner, howner, -⟩ := h.owned k' r hr
        rw [hnone hat] at howner
        cases howner
    · obtain ⟨hb, hheld⟩ := h.heads k h' hh' slot hnextRun
      refine ⟨⟨?_, ?_⟩, ?_⟩
      · intro k' r hr
        rw [hocc] at hr
        exact hb.runs k' r hr
      · intro tombstone hmem
        rw [htombs] at hmem
        exact hb.tombstones tombstone hmem
      · intro k' r hr
        rw [hocc] at hr
        rw [hnext]
        exact hheld k' r hr
  · intro k h' hh'
    rw [htasks] at hh'
    split_ifs at hh'
    · cases hh'
      exact ⟨hdeleted, hclosed⟩
    · exact h.closed k h' hh'

theorem pausedDecision_eq_some {taskId : ScheduledId} {revision : PositiveInteger}
    {slot : CanonicalInstant} {d : NextDecisionRow δ}
    (h : pausedDecision s taskId revision slot = some d) :
    s.next.find? d.runId = some d ∧ d.taskId = taskId ∧ d.taskRevision = revision ∧
      d.scheduledFor = slot ∧ d.headDisposition = .paused := by
  unfold pausedDecision at h
  have hmem := List.mem_of_find?_eq_some h
  have hmatch := List.find?_some h
  simp only [Bool.and_eq_true, decide_eq_true_eq] at hmatch
  have hfind : s.next.find? d.runId = some d := Table.find?_of_mem hmem
  exact ⟨hfind, hmatch.1.1.1, hmatch.1.1.2, hmatch.1.2, hmatch.2⟩

theorem pausedDecision_isSome {r : RunRow δ} {d : NextDecisionRow δ}
    (hd : s.next.find? r.runId = some d) (hpaused : d.headDisposition = .paused)
    (hdecides : Decides d r) :
    (pausedDecision s r.taskId r.taskRevision r.scheduledFor).isSome = true := by
  unfold pausedDecision
  rw [List.find?_isSome]
  refine ⟨d, Table.mem_of_find? hd, ?_⟩
  simp only [Bool.and_eq_true, decide_eq_true_eq]
  exact ⟨⟨⟨hdecides.taskId, hdecides.taskRevision⟩, hdecides.scheduledFor⟩, hpaused⟩

/-- The head that a status change writes when it resumes: the held slot, when no run has been
settled there, or else a later one. -/
theorem TaskSound.resumedHead (h : TaskSound s) {k : ScheduledId} {prev : ScheduledTaskHead}
    (hprev : s.tasks.find? k = some prev) (hstatus : prev.status = .paused) :
    HeadSound s (statusHead s prev .active) ∧
      ((statusHead s prev .active).nextRunAt = none ∨ ∃ slot c, prev.nextRunAt = some slot ∧
        (statusHead s prev .active).nextRunAt = some c ∧ slot ≤ c) := by
  unfold statusHead
  rw [if_pos ⟨rfl, hstatus⟩]
  dsimp only
  cases hslot : prev.nextRunAt with
  | none =>
    have hvisible : visibleScheduledNextRun s prev.taskId prev.revision none true = none := rfl
    rw [hvisible]
    exact ⟨headSound_none rfl, .inl rfl⟩
  | some slot =>
    obtain ⟨hb, hheld⟩ := h.heads k prev hprev slot hslot
    cases hdecision : pausedDecision s prev.taskId prev.revision slot with
    | some d =>
      have hvisible : visibleScheduledNextRun s prev.taskId prev.revision (some slot) true =
          d.computedNextRunAt := by
        simp [visibleScheduledNextRun, hdecision]
      obtain ⟨hfind, -, -, hd, -⟩ := pausedDecision_eq_some hdecision
      rw [hvisible]
      cases hcomputed : d.computedNextRunAt with
      | none => exact ⟨headSound_none rfl, .inl rfl⟩
      | some c =>
        have hlt := h.later _ d hfind c hcomputed
        rw [hd] at hlt
        exact ⟨hb.advance rfl rfl hlt rfl, .inr ⟨slot, c, rfl, rfl, hlt.le⟩⟩
    | none =>
      have hvisible : visibleScheduledNextRun s prev.taskId prev.revision (some slot) true =
          some slot := by
        simp [visibleScheduledNextRun, hdecision]
      rw [hvisible]
      refine ⟨?_, .inr ⟨slot, slot, rfl, rfl, le_rfl⟩⟩
      intro slot' hslot'
      cases hslot'
      refine ⟨⟨?_, ?_⟩, ?_⟩
      · intro k' r hr hr'
        exact hb.runs k' r hr ⟨hr'.task, hr'.revision⟩
      · intro tombstone hmem hr'
        exact hb.tombstones tombstone hmem ⟨hr'.task, hr'.revision⟩
      · intro k' r hr hr' hsame hsettled
        obtain ⟨-, d, hd, hpaused, hdecides⟩ := hheld k' r hr ⟨hr'.task, hr'.revision⟩ hsame hsettled
        have hsome := pausedDecision_isSome hd hpaused hdecides
        rw [hr'.task, hr'.revision, hsame] at hsome
        change (pausedDecision s prev.taskId prev.revision slot).isSome = true at hsome
        rw [hdecision] at hsome
        cases hsome

/-- Every head change but a resumption through the isolated authority. -/
theorem TaskSound.changedHead (hseam : ¬ allowed .seam) (h : TaskSound s) {k : ScheduledId}
    {prev next : ScheduledTaskHead} (hprev : s.tasks.find? k = some prev)
    (hmove : HeadMove allowed s prev next) :
    HeadSound s next ∧ next.taskId = prev.taskId ∧ prev.revision ≤ next.revision ∧
      next.status ≠ .deleted ∧ (next.status = .completed → next.nextRunAt = none) := by
  have hsound := h.heads k prev hprev
  obtain ⟨hdeleted, hclosed⟩ := h.closed k prev hprev
  have hk := taskId_of_find? hprev
  cases hmove with
  | revised next hid hrev hnotDeleted hclosed' =>
    have hlt : prev.revision < next.revision := by
      change prev.revision.1 < next.revision.1
      omega
    refine ⟨?_, hid, hlt.le, hnotDeleted, hclosed'⟩
    have hnew : ∀ {owner : ScheduledTaskHead} {taskId revision}, AtHead next taskId revision →
        s.tasks.find? taskId = some owner → ¬ revision ≤ owner.revision := by
      intro owner taskId revision hat howner hle
      rw [hat.task, hid, hk, hprev] at howner
      cases howner
      rw [hat.revision] at hle
      exact absurd hlt (not_lt_of_ge hle)
    intro slot hslot
    refine ⟨⟨?_, ?_⟩, ?_⟩
    · intro k' r hr hat
      obtain ⟨owner, howner, hle⟩ := h.owned k' r hr
      exact absurd hle (hnew hat howner)
    · intro tombstone hmem hat
      obtain ⟨owner, howner, hle⟩ := h.ownedTombstones tombstone hmem
      exact absurd hle (hnew hat howner)
    · intro k' r hr hat
      obtain ⟨owner, howner, hle⟩ := h.owned k' r hr
      exact absurd hle (hnew hat howner)
  | paused =>
    refine ⟨?_, rfl, le_rfl, by simp, by simp⟩
    intro slot hslot
    obtain ⟨hb, hheld⟩ := hsound slot hslot
    refine ⟨⟨fun k' r hr hat => hb.runs k' r hr ⟨hat.task, hat.revision⟩,
      fun x hx hat => hb.tombstones x hx ⟨hat.task, hat.revision⟩⟩, ?_⟩
    intro k' r hr hat hsame hsettled
    obtain ⟨-, hrest⟩ := hheld k' r hr ⟨hat.task, hat.revision⟩ hsame hsettled
    exact ⟨rfl, hrest⟩
  | reopened hstatus =>
    refine ⟨?_, rfl, le_rfl, by simp, by simp⟩
    intro slot hslot
    obtain ⟨hb, hheld⟩ := hsound slot hslot
    refine ⟨⟨fun k' r hr hat => hb.runs k' r hr ⟨hat.task, hat.revision⟩,
      fun x hx hat => hb.tombstones x hx ⟨hat.task, hat.revision⟩⟩, ?_⟩
    intro k' r hr hat hsame hsettled
    obtain ⟨hpaused, -⟩ := hheld k' r hr ⟨hat.task, hat.revision⟩ hsame hsettled
    exact absurd hpaused hstatus
  | completed _ => exact ⟨headSound_none rfl, rfl, le_rfl, by simp, fun _ => rfl⟩
  | resumed hstatus =>
    have hnextSound := (h.resumedHead hprev hstatus).1
    revert hnextSound
    unfold statusHead
    rw [if_pos ⟨rfl, hstatus⟩]
    intro hnextSound
    refine ⟨hnextSound, rfl, le_rfl, ?_, ?_⟩
    · dsimp only
      split_ifs <;> simp
    · dsimp only
      split_ifs with hnone
      · exact fun _ => Option.isNone_iff_eq_none.mp hnone
      · simp
  | seam hallowed _ => exact absurd hallowed hseam

theorem TaskSound.headed (hseam : ¬ allowed .seam) (h : TaskSound s) {prev next : ScheduledTaskHead}
    (htasks : Rewrites s.tasks s'.tasks prev.taskId prev next) (hmove : HeadMove allowed s prev next)
    (hruns : SameRuns s s') : TaskSound s' := by
  obtain ⟨hnextSound, hid, hrevision, hclosed⟩ := h.changedHead hseam htasks.before hmove
  have hsame := hruns
  obtain ⟨hocc, hnext, htombs⟩ := hruns
  have hheads : ∀ {head}, HeadSound s head → HeadSound s' head := by
    intro head hsound slot hslot
    obtain ⟨hb, hheld⟩ := hsound slot hslot
    refine ⟨⟨?_, ?_⟩, ?_⟩
    · intro k r hr
      rw [hocc] at hr
      exact hb.runs k r hr
    · intro tombstone hmem
      rw [htombs] at hmem
      exact hb.tombstones tombstone hmem
    · intro k r hr
      rw [hocc] at hr
      rw [hnext]
      exact hheld k r hr
  have hgrow : ∀ {k head}, s.tasks.find? k = some head →
      ∃ head', s'.tasks.find? k = some head' ∧ head.revision ≤ head'.revision := by
    intro k head hhead
    rcases htasks.lost hhead with ⟨-, rfl, hafter⟩ | ⟨-, hafter⟩
    · exact ⟨next, hafter, hrevision⟩
    · exact ⟨head, hafter, le_rfl⟩
  refine ⟨?_, ?_, ?_, ?_, ?_, ?_⟩
  · intro k r hr
    rw [hocc] at hr
    obtain ⟨head, hhead, hle⟩ := h.owned k r hr
    obtain ⟨head', hhead', hle'⟩ := hgrow hhead
    exact ⟨head', hhead', hle.trans hle'⟩
  · intro tombstone hmem
    rw [htombs] at hmem
    obtain ⟨head, hhead, hle⟩ := h.ownedTombstones tombstone hmem
    obtain ⟨head', hhead', hle'⟩ := hgrow hhead
    exact ⟨head', hhead', hle.trans hle'⟩
  · intro k r hr
    rw [hocc] at hr
    exact h.due k r hr
  · intro k d hd
    rw [hnext] at hd
    exact h.later k d hd
  · intro k head hhead
    rcases htasks.found hhead with ⟨-, rfl⟩ | ⟨-, hhead⟩
    · exact hheads hnextSound
    · exact hheads (h.heads k head hhead)
  · intro k head hhead
    rcases htasks.found hhead with ⟨-, rfl⟩ | ⟨-, hhead⟩
    · exact hclosed
    · exact h.closed k head hhead

end Steps

end Piclaw.Scheduled
