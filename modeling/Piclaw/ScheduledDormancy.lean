import Piclaw.ScheduledInvariant

/-!
# A scheduled task never silently stops

Moves keep the invariant and carry every head forward: to a higher revision or, within one
revision, to a slot that is not earlier. Both hold along every run of the scheduler whose
settlements are not dated before the claims they settle.
-/

namespace Piclaw.Scheduled
open Relational
open Relational.Table (Rewrites)
variable {δ Ω : Type} [DecidableEq δ] {P : ScheduledPlatform δ} {H : ScheduledHost δ Ω}
  {s s' t u : ScheduledState δ Ω} {allowed : MoveKind → Prop}

theorem ScheduledMove.sound (hseam : ¬ allowed .seam) (h : TaskSound s)
    (hm : ScheduledMove allowed s s') : TaskSound s' := by
  cases hm with
  | quiet htasks hruns => exact h.of_eq htasks hruns
  | claimed head r hhead hactive hat hr htime hnew hocc htasks hnext htombs =>
    refine h.activeRun hocc hr ⟨head, hhead, hat.1.ge⟩ htime ?_ htasks hnext htombs
    intro k head' slot hhead' hslot hat'
    have heq := head_of_atHead hhead' hhead hat'
    subst heq
    rw [hat.2] at hslot
    exact (Option.some.inj hslot).le
  | kept r r' hocc hr hr' hslot htime htasks hnext htombs =>
    refine h.activeRun ?_ hr' ?_ ?_ ?_ htasks hnext htombs
    · intro k
      rw [hocc.find?_eq, hslot.runId]
      by_cases hk : k = r.runId
      · rw [if_pos hk, if_pos hk.symm]
      · rw [if_neg hk, if_neg (Ne.symm hk)]
    · rw [hslot.taskId, hslot.taskRevision]
      exact h.owned _ r hocc.before
    · rw [hslot.scheduledFor]
      exact (h.due _ r hocc.before).trans htime
    · intro k head slot hhead hnextRun hat
      rw [hslot.scheduledFor]
      refine (h.heads k head hhead slot hnextRun).1.runs _ r hocc.before ⟨?_, ?_⟩
      · exact hslot.taskId ▸ hat.task
      · exact hslot.taskRevision ▸ hat.revision
  | settled head r r' d hocc hr hr' hslot htime hd hproper hnew hnext hhead hmove htombs =>
    exact h.settled hocc hr' hslot htime hd hproper hnext hhead hmove htombs
  | retired r tombstone hallowed hr hsettled hfree hid hocc hnext htombs htasks =>
    exact h.retired hr hsettled hfree hid hocc hnext htombs htasks
  | created head hnew hdeleted hclosed htasks hruns =>
    exact h.created hnew hdeleted hclosed htasks hruns
  | headed prev next htasks hdeleted hmove hruns => exact h.headed hseam htasks hmove hruns

section Forward

/-- A later head: of a higher revision, or at a slot that is not earlier. -/
def HeadAfter (head head' : ScheduledTaskHead) : Prop :=
  head.revision < head'.revision ∨ (head.revision = head'.revision ∧
    ∀ slot', head'.nextRunAt = some slot' → ∃ slot, head.nextRunAt = some slot ∧ slot ≤ slot')

def HeadsForward (s s' : ScheduledState δ Ω) : Prop :=
  ∀ k head, s.tasks.find? k = some head →
    ∃ head', s'.tasks.find? k = some head' ∧ HeadAfter head head'

theorem HeadAfter.refl (head : ScheduledTaskHead) : HeadAfter head head :=
  .inr ⟨rfl, fun slot hslot => ⟨slot, hslot, le_rfl⟩⟩

theorem HeadAfter.trans {a b c : ScheduledTaskHead} (h : HeadAfter a b) (h' : HeadAfter b c) :
    HeadAfter a c := by
  rcases h with hlt | ⟨heq, hslots⟩
  · rcases h' with hlt' | ⟨heq', -⟩
    · exact .inl (hlt.trans hlt')
    · exact .inl (heq' ▸ hlt)
  · rcases h' with hlt' | ⟨heq', hslots'⟩
    · exact .inl (heq ▸ hlt')
    · refine .inr ⟨heq.trans heq', ?_⟩
      intro slot hslot
      obtain ⟨slot', hslot', hle'⟩ := hslots' slot hslot
      obtain ⟨slot'', hslot'', hle⟩ := hslots slot' hslot'
      exact ⟨slot'', hslot'', hle.trans hle'⟩

theorem HeadsForward.refl (s : ScheduledState δ Ω) : HeadsForward s s :=
  fun _ head hhead => ⟨head, hhead, .refl head⟩

theorem HeadsForward.of_eq (h : s'.tasks = s.tasks) : HeadsForward s s' := by
  intro k head hhead
  exact ⟨head, by rw [h]; exact hhead, .refl head⟩

theorem HeadsForward.trans (h : HeadsForward s t) (h' : HeadsForward t u) : HeadsForward s u := by
  intro k head hhead
  obtain ⟨head', hhead', hafter⟩ := h k head hhead
  obtain ⟨head'', hhead'', hafter'⟩ := h' k head' hhead'
  exact ⟨head'', hhead'', hafter.trans hafter'⟩

theorem HeadsForward.of_rewrites {k : ScheduledId} {head head' : ScheduledTaskHead}
    (h : Rewrites s.tasks s'.tasks k head head') (hafter : HeadAfter head head') :
    HeadsForward s s' := by
  intro k' x hx
  rcases h.lost hx with ⟨-, rfl, hfound⟩ | ⟨-, hfound⟩
  · exact ⟨head', hfound, hafter⟩
  · exact ⟨x, hfound, .refl x⟩

theorem headMove_after (hseam : ¬ allowed .seam) (h : TaskSound s) {k : ScheduledId}
    {prev next : ScheduledTaskHead} (hprev : s.tasks.find? k = some prev)
    (hmove : HeadMove allowed s prev next) : HeadAfter prev next := by
  cases hmove with
  | revised next hid hrev hdeleted hclosed =>
    refine .inl ?_
    change prev.revision.1 < next.revision.1
    omega
  | paused => exact .inr ⟨rfl, fun slot hslot => ⟨slot, hslot, le_rfl⟩⟩
  | reopened hstatus => exact .inr ⟨rfl, fun slot hslot => ⟨slot, hslot, le_rfl⟩⟩
  | completed _ => exact .inr ⟨rfl, fun slot hslot => by cases hslot⟩
  | resumed hstatus =>
    have hrevision : prev.revision = (statusHead s prev .active).revision := by
      unfold statusHead
      rw [if_pos ⟨rfl, hstatus⟩]
    refine .inr ⟨hrevision, ?_⟩
    intro slot' hslot'
    rcases (h.resumedHead hprev hstatus).2 with hnone | ⟨slot, c, hslot, hc, hle⟩
    · rw [hnone] at hslot'
      cases hslot'
    · rw [hc] at hslot'
      cases hslot'
      exact ⟨slot, hslot, hle⟩
  | seam hallowed _ => exact absurd hallowed hseam

theorem ScheduledMove.forward (hseam : ¬ allowed .seam) (h : TaskSound s)
    (hm : ScheduledMove allowed s s') : HeadsForward s s' := by
  cases hm with
  | quiet htasks hruns => exact .of_eq htasks
  | claimed head r hhead hactive hat hr htime hnew hocc htasks hnext htombs => exact .of_eq htasks
  | kept r r' hocc hr hr' hslot htime htasks hnext htombs => exact .of_eq htasks
  | settled head r r' d hocc hr hr' hslot htime hd hproper hnew hnext hhead hmove htombs =>
    cases hmove with
    | advanced next hactive hat hdisposition hnextHead htasks =>
      refine .of_rewrites htasks (.inr ⟨by rw [hnextHead], ?_⟩)
      intro slot' hslot'
      rw [hnextHead] at hslot'
      exact ⟨r.scheduledFor, hat.2, (hproper slot' hslot').le⟩
    | paused hpaused hat hdisposition htasks => exact .of_eq htasks
    | elsewhere haway hadvanced hpaused htasks => exact .of_eq htasks
  | retired r tombstone hallowed hr hsettled hfree hid hocc hnext htombs htasks =>
    exact .of_eq htasks
  | created head hnew hdeleted hclosed htasks hruns =>
    intro k head' hhead'
    refine ⟨head', ?_, .refl head'⟩
    rw [htasks, if_neg, hhead']
    rintro rfl
    rw [hnew] at hhead'
    cases hhead'
  | headed prev next htasks hdeleted hmove hruns =>
    exact .of_rewrites htasks (headMove_after hseam h htasks.before hmove)

theorem ScheduledMoves.sound (hseam : ¬ allowed .seam) (h : TaskSound s)
    (hm : ScheduledMoves allowed s s') : TaskSound s' ∧ HeadsForward s s' := by
  induction hm with
  | refl => exact ⟨h, .refl s⟩
  | tail _ hstep ih => exact ⟨hstep.sound hseam ih.1, ih.2.trans (hstep.forward hseam ih.1)⟩

end Forward

section Runs

/-- Tasks resume through their production record, not through the isolated authority. -/
def ProductionCall : TaskCall δ → Prop
  | .resume _ => False
  | _ => True

def outsideSeam : MoveKind → Prop
  | .seam => False
  | _ => True

theorem productionCall_allowed {call : TaskCall δ} (h : ProductionCall call) :
    CallAllowed outsideSeam call := by
  cases call with
  | mutation runtime request =>
    rcases request with _ | (_ | _ | _ | _ | _ | _ | _) <;> trivial
  | create task => trivial
  | revise task => trivial
  | setStatus taskId status => cases status <;> trivial
  | pause taskId => trivial
  | resume taskId => exact h.elim

theorem settledAfterClaim_iff {runId : δ} {settledAt : CanonicalInstant} :
    SettledAfterClaim s runId settledAt ↔
      (s.occurrences.find? runId).all (fun run => decide (run.claimedAt ≤ settledAt)) = true := by
  unfold SettledAfterClaim
  cases s.occurrences.find? runId <;> simp

structure SchedulerSound (s : ScheduledState δ Ω) : Prop where
  tasks : TaskSound s
  revisions : RevisionsSound s

theorem initial_scheduler (host : Ω) :
    SchedulerSound (ScheduledState.initial host : ScheduledState δ Ω) :=
  ⟨initial_sound host, fun _ _ h => by cases h⟩

/-- One call of the scheduler keeps the invariant and carries the heads forward. -/
theorem taskStep_sound (hcron : CronForward P) (h : SchedulerSound s) {call : TaskCall δ}
    (hcall : CallTimely s call ∧ ProductionCall call) :
    SchedulerSound (taskStep P H s call) ∧ HeadsForward s (taskStep P H s call) := by
  obtain ⟨hmoves, hrevisions⟩ := taskStep_moves (H := H) hcron h.revisions h.tasks.due hcall.1
    (productionCall_allowed hcall.2)
  obtain ⟨hsound, hforward⟩ := hmoves.sound (fun h => h) h.tasks
  exact ⟨⟨hsound, hrevisions⟩, hforward⟩

/-- Along every run, an active head points at a slot where no run is settled or retired, and
within one revision the head never returns to an earlier slot. -/
theorem active_head_can_run (hcron : CronForward P) (host : Ω) (first rest : List (TaskCall δ))
    (hcalls : Along (taskStep P H) (fun s call => CallTimely s call ∧ ProductionCall call)
      (ScheduledState.initial host) (first ++ rest)) :
    let s := run (taskStep P H) (ScheduledState.initial host) first
    let t := run (taskStep P H) s rest
    (∀ taskId head slot, t.tasks.find? taskId = some head → head.status = .active →
      head.nextRunAt = some slot →
      (∀ r ∈ t.occurrences.rows, r.taskId = taskId → r.taskRevision = head.revision →
        r.scheduledFor = slot → r.state = .claimed ∨ r.state = .sourceBound) ∧
      (∀ x ∈ t.tombstones.rows,
        ¬ (x.taskId = taskId ∧ x.taskRevision = head.revision ∧ x.scheduledFor = slot))) ∧
    (∀ taskId head head' slot slot', s.tasks.find? taskId = some head →
      t.tasks.find? taskId = some head' → head'.revision = head.revision →
      head.nextRunAt = some slot → head'.nextRunAt = some slot' → slot ≤ slot') := by
  intro s t
  rw [along_append] at hcalls
  have hsound : ∀ x call, SchedulerSound x → CallTimely x call ∧ ProductionCall call →
      SchedulerSound (taskStep P H x call) := fun _ _ hx hcall => (taskStep_sound hcron hx hcall).1
  have hs : SchedulerSound s := run_invariant (s := ScheduledState.initial host) hsound
    (initial_scheduler host) hcalls.1
  have ht : SchedulerSound t := run_invariant (s := s) hsound hs hcalls.2
  have hforward : HeadsForward s t := run_relates (s := s) HeadsForward.refl
    (fun _ _ _ => HeadsForward.trans) hsound
    (fun _ _ hx hcall => (taskStep_sound hcron hx hcall).2) hs hcalls.2
  refine ⟨?_, ?_⟩
  · intro taskId head slot hhead hactive hslot
    have hid := taskId_of_find? hhead
    obtain ⟨hbehind, hheld⟩ := ht.tasks.heads taskId head hhead slot hslot
    refine ⟨?_, ?_⟩
    · intro r hr htask hrevision hsame
      have hfind : t.occurrences.find? r.runId = some r := Table.find?_of_mem hr
      have hunsettled : r.state.active ≠ false := by
        intro hsettled
        obtain ⟨hpaused, -⟩ :=
          hheld _ r hfind ⟨htask.trans hid.symm, hrevision⟩ hsame hsettled
        rw [hactive] at hpaused
        cases hpaused
      cases hstate : r.state with
      | claimed => exact .inl rfl
      | sourceBound => exact .inr rfl
      | completed => simp [hstate, RunState.active] at hunsettled
      | abandoned => simp [hstate, RunState.active] at hunsettled
    · rintro x hx ⟨htask, hrevision, hsame⟩
      have hlt := hbehind.tombstones x hx ⟨htask.trans hid.symm, hrevision⟩
      exact absurd hsame hlt.ne
  · intro taskId head head' slot slot' hhead hhead' hrevision hslot hslot'
    obtain ⟨after, hafter, hle⟩ := hforward taskId head hhead
    rw [hhead'] at hafter
    cases hafter
    rcases hle with hlt | ⟨-, hslots⟩
    · exact absurd hrevision hlt.ne'
    · obtain ⟨slot'', hslot'', hle⟩ := hslots slot' hslot'
      rw [hslot] at hslot''
      cases hslot''
      exact hle

theorem active_head_can_run_paused :
    let s := run (taskStep samplePlatform sampleHost) (ScheduledState.initial ())
      [.create sampleTask, sampleClaimDue 1000 firstKey]
    let t := run (taskStep samplePlatform sampleHost) s
      [.setStatus sampleId .paused, sampleComplete 1000 1001 firstKey, .setStatus sampleId .active]
    (∀ taskId head slot, t.tasks.find? taskId = some head → head.status = .active →
      head.nextRunAt = some slot →
      (∀ r ∈ t.occurrences.rows, r.taskId = taskId → r.taskRevision = head.revision →
        r.scheduledFor = slot → r.state = .claimed ∨ r.state = .sourceBound) ∧
      (∀ x ∈ t.tombstones.rows,
        ¬ (x.taskId = taskId ∧ x.taskRevision = head.revision ∧ x.scheduledFor = slot))) ∧
    (∀ taskId head head' slot slot', s.tasks.find? taskId = some head →
      t.tasks.find? taskId = some head' → head'.revision = head.revision →
      head.nextRunAt = some slot → head'.nextRunAt = some slot' → slot ≤ slot') := by
  have hcron : CronForward samplePlatform := by
    intro expression timezone anchor c hc
    cases hc
  refine active_head_can_run hcron () [.create sampleTask, sampleClaimDue 1000 firstKey]
    [.setStatus sampleId .paused, sampleComplete 1000 1001 firstKey, .setStatus sampleId .active] ?_
  refine ⟨⟨trivial, trivial⟩, ⟨trivial, trivial⟩, ⟨trivial, trivial⟩, ⟨?_, trivial⟩,
    ⟨trivial, trivial⟩, trivial⟩
  exact settledAfterClaim_iff.mpr (by decide +kernel)

end Runs

end Piclaw.Scheduled
