import Piclaw.ScheduledDormancy

/-!
# The two ways to resume a task

The isolated authority resumes from the latest slot that was settled while the task was paused, a
status change from the slot that the head holds. The decisions of one revision that moved or held
its head form a chain: each computed the slot of the next. Along the chain the two answers differ
exactly when a run was settled, while the task was active, between those two slots.
-/

namespace Piclaw.Scheduled
open Relational
open Relational.Table (Rewrites)
variable {δ Ω : Type} [DecidableEq δ] {P : ScheduledPlatform δ} {H : ScheduledHost δ Ω}
  {s s' t u : ScheduledState δ Ω} {allowed : MoveKind → Prop}

section Decisions

/-- A decision of one revision of a task that moved its head, or would have when it was paused. -/
structure Decided (s : ScheduledState δ Ω) (taskId : ScheduledId) (revision : PositiveInteger)
    (d : NextDecisionRow δ) : Prop where
  found : s.next.find? d.runId = some d
  ofTask : d.taskId = taskId
  ofRevision : d.taskRevision = revision
  moved : d.headDisposition = .advanced ∨ d.headDisposition = .paused

structure PausedAt (s : ScheduledState δ Ω) (taskId : ScheduledId) (revision : PositiveInteger)
    (d : NextDecisionRow δ) : Prop extends Decided s taskId revision d where
  paused : d.headDisposition = .paused

structure AdvancedAt (s : ScheduledState δ Ω) (taskId : ScheduledId) (revision : PositiveInteger)
    (d : NextDecisionRow δ) : Prop extends Decided s taskId revision d where
  advanced : d.headDisposition = .advanced

structure LatestPaused (s : ScheduledState δ Ω) (taskId : ScheduledId) (revision : PositiveInteger)
    (d : NextDecisionRow δ) : Prop extends PausedAt s taskId revision d where
  latest : ∀ d', PausedAt s taskId revision d' → d'.scheduledFor ≤ d.scheduledFor

/-- The chain of decisions behind a head. -/
structure HeadHistory (s : ScheduledState δ Ω) (head : ScheduledTaskHead) : Prop where
  chain : ∀ d a, LatestPaused s head.taskId head.revision d →
    AdvancedAt s head.taskId head.revision a → d.scheduledFor < a.scheduledFor →
    ∃ c, d.computedNextRunAt = some c ∧ c ≤ a.scheduledFor
  closed : head.nextRunAt = none → ∀ d c, LatestPaused s head.taskId head.revision d →
    d.computedNextRunAt = some c → ∃ a, AdvancedAt s head.taskId head.revision a ∧ a.scheduledFor = c
  behind : ∀ slot, head.nextRunAt = some slot → ∀ d, PausedAt s head.taskId head.revision d →
    d.scheduledFor ≤ slot
  fresh : ∀ slot, head.nextRunAt = some slot →
    (∃ d, Decided s head.taskId head.revision d ∧ d.scheduledFor = slot) ∨
      ∀ d, Decided s head.taskId head.revision d → d.scheduledFor < slot
  pending : ∀ slot, head.nextRunAt = some slot → ∀ p, PausedAt s head.taskId head.revision p →
    p.scheduledFor = slot → ∀ d, Decided s head.taskId head.revision d → d.scheduledFor ≤ slot
  resumed : ∀ slot, head.nextRunAt = some slot → ∀ d, LatestPaused s head.taskId head.revision d →
    d.scheduledFor < slot → ∃ c, d.computedNextRunAt = some c ∧ c ≤ slot ∧
      (c < slot → ∃ a, AdvancedAt s head.taskId head.revision a ∧ a.scheduledFor = c)

structure HistorySound (s : ScheduledState δ Ω) : Prop where
  owned : ∀ k r, s.occurrences.find? k = some r →
    ∃ head, s.tasks.find? r.taskId = some head ∧ r.taskRevision ≤ head.revision
  due : ClaimedWhenDue s
  settled : ∀ k d, s.next.find? k = some d →
    ∃ r, s.occurrences.find? k = some r ∧ r.state.active = false ∧ Decides d r
  later : ∀ k d, s.next.find? k = some d → ∀ c ∈ d.computedNextRunAt, d.scheduledFor < c
  heads : ∀ k head, s.tasks.find? k = some head → HeadHistory s head

theorem slot_unique {k k' : δ} {r r' : RunRow δ} (hr : s.occurrences.find? k = some r)
    (hr' : s.occurrences.find? k' = some r') (htask : r.taskId = r'.taskId)
    (hrevision : r.taskRevision = r'.taskRevision) (hslot : r.scheduledFor = r'.scheduledFor) :
    r = r' := by
  refine Table.eq_of_unique (Table.mem_of_find? hr) (Table.mem_of_find? hr')
    (u := (r.taskId, r.taskRevision, r.scheduledFor)) rfl ?_
  change some (r'.taskId, r'.taskRevision, r'.scheduledFor) = _
  rw [htask, hrevision, hslot]

variable {taskId : ScheduledId} {revision : PositiveInteger}

theorem Decided.unique (h : HistorySound s) {d d' : NextDecisionRow δ}
    (hd : Decided s taskId revision d) (hd' : Decided s taskId revision d')
    (hslot : d.scheduledFor = d'.scheduledFor) : d = d' := by
  obtain ⟨r, hr, -, hdecides⟩ := h.settled _ d hd.found
  obtain ⟨r', hr', -, hdecides'⟩ := h.settled _ d' hd'.found
  have hrows : r = r' := by
    refine slot_unique hr hr' ?_ ?_ ?_
    · rw [← hdecides.taskId, ← hdecides'.taskId, hd.ofTask, hd'.ofTask]
    · rw [← hdecides.taskRevision, ← hdecides'.taskRevision, hd.ofRevision, hd'.ofRevision]
    · rw [← hdecides.scheduledFor, ← hdecides'.scheduledFor, hslot]
  have hids : d.runId = d'.runId := by rw [hdecides.runId, hdecides'.runId, hrows]
  have hfound := hd.found
  rw [hids, hd'.found] at hfound
  exact (Option.some.inj hfound).symm

theorem LatestPaused.unique (h : HistorySound s) {d d' : NextDecisionRow δ}
    (hd : LatestPaused s taskId revision d) (hd' : LatestPaused s taskId revision d') : d = d' :=
  hd.toDecided.unique h hd'.toDecided
    (le_antisymm (hd'.latest d hd.toPausedAt) (hd.latest d' hd'.toPausedAt))

/-- No decision exists at the slot of a run that is still active. -/
theorem undecided_slot (h : HistorySound s) {k : δ} {r : RunRow δ} {d : NextDecisionRow δ}
    (hr : s.occurrences.find? k = some r) (hactive : r.state.active = true)
    (hd : Decided s r.taskId r.taskRevision d) : d.scheduledFor ≠ r.scheduledFor := by
  intro hslot
  obtain ⟨r', hr', hsettled, hdecides⟩ := h.settled _ d hd.found
  have heq : r' = r := by
    refine slot_unique hr' hr ?_ ?_ ?_
    · rw [← hdecides.taskId, hd.ofTask]
    · rw [← hdecides.taskRevision, hd.ofRevision]
    · rw [← hdecides.scheduledFor, hslot]
  rw [heq, hactive] at hsettled
  cases hsettled

/-- Without decisions of its own a head has an empty history. -/
theorem headHistory_empty {head : ScheduledTaskHead}
    (h : ∀ d, ¬ Decided s head.taskId head.revision d) : HeadHistory s head where
  chain d _ hd _ _ := absurd hd.toDecided (h d)
  closed _ d _ hd _ := absurd hd.toDecided (h d)
  behind _ _ d hd := absurd hd.toDecided (h d)
  fresh _ _ := .inr fun d hd => absurd hd (h d)
  pending _ _ p hp _ := absurd hp.toDecided (h p)
  resumed _ _ d hd _ := absurd hd.toDecided (h d)

theorem Decided.mono (hnext : ∀ k d, s.next.find? k = some d → s'.next.find? k = some d)
    {d : NextDecisionRow δ} (h : Decided s taskId revision d) : Decided s' taskId revision d :=
  ⟨hnext _ d h.found, h.ofTask, h.ofRevision, h.moved⟩

/-- A history only depends on the decisions of its head's revision. -/
theorem HeadHistory.of_iff {head : ScheduledTaskHead}
    (hiff : ∀ d, Decided s' head.taskId head.revision d ↔ Decided s head.taskId head.revision d)
    (h : HeadHistory s head) : HeadHistory s' head := by
  have hpaused : ∀ d, PausedAt s' head.taskId head.revision d ↔
      PausedAt s head.taskId head.revision d :=
    fun d => ⟨fun hd => ⟨(hiff d).mp hd.toDecided, hd.paused⟩,
      fun hd => ⟨(hiff d).mpr hd.toDecided, hd.paused⟩⟩
  have hadvanced : ∀ d, AdvancedAt s' head.taskId head.revision d ↔
      AdvancedAt s head.taskId head.revision d :=
    fun d => ⟨fun hd => ⟨(hiff d).mp hd.toDecided, hd.advanced⟩,
      fun hd => ⟨(hiff d).mpr hd.toDecided, hd.advanced⟩⟩
  have hlatest : ∀ d, LatestPaused s' head.taskId head.revision d →
      LatestPaused s head.taskId head.revision d :=
    fun d hd => ⟨(hpaused d).mp hd.toPausedAt, fun d' hd' => hd.latest d' ((hpaused d').mpr hd')⟩
  constructor
  · intro d a hd ha
    exact h.chain d a (hlatest d hd) ((hadvanced a).mp ha)
  · intro hnone d c hd hc
    obtain ⟨a, ha, hslot⟩ := h.closed hnone d c (hlatest d hd) hc
    exact ⟨a, (hadvanced a).mpr ha, hslot⟩
  · intro slot hslot d hd
    exact h.behind slot hslot d ((hpaused d).mp hd)
  · intro slot hslot
    rcases h.fresh slot hslot with ⟨d, hd, hsame⟩ | hall
    · exact .inl ⟨d, (hiff d).mpr hd, hsame⟩
    · exact .inr fun d hd => hall d ((hiff d).mp hd)
  · intro slot hslot p hp hsame d hd
    exact h.pending slot hslot p ((hpaused p).mp hp) hsame d ((hiff d).mp hd)
  · intro slot hslot d hd hlt
    obtain ⟨c, hc, hle, hstep⟩ := h.resumed slot hslot d (hlatest d hd) hlt
    refine ⟨c, hc, hle, fun hlt' => ?_⟩
    obtain ⟨a, ha, hsame⟩ := hstep hlt'
    exact ⟨a, (hadvanced a).mpr ha, hsame⟩

end Decisions

section Resuming
variable {head head' : ScheduledTaskHead} {d : NextDecisionRow δ}

theorem mem_pausedRows {taskId : ScheduledId} {revision : PositiveInteger} :
    d ∈ s.next.rows.filter (fun r => decide (r.taskId = taskId) &&
      decide (r.taskRevision = revision) && decide (r.headDisposition = .paused)) ↔
      PausedAt s taskId revision d := by
  simp only [List.mem_filter, Bool.and_eq_true, decide_eq_true_eq]
  constructor
  · rintro ⟨hmem, ⟨htask, hrevision⟩, hpaused⟩
    exact ⟨⟨Table.find?_of_mem hmem, htask, hrevision, .inr hpaused⟩, hpaused⟩
  · intro h
    exact ⟨Table.mem_of_find? h.found, ⟨h.ofTask, h.ofRevision⟩, h.paused⟩

theorem latestPaused_eq_some {taskId : ScheduledId} {revision : PositiveInteger}
    (h : TaskAuthority.latestPaused s taskId revision = some d) :
    LatestPaused s taskId revision d := by
  unfold TaskAuthority.latestPaused at h
  obtain ⟨rest, hsorted⟩ := List.head?_eq_some_iff.mp h
  have hmem : ∀ x, x ∈ d :: rest ↔ PausedAt s taskId revision x := by
    intro x
    rw [← hsorted, List.mem_insertionSort]
    exact mem_pausedRows
  refine ⟨(hmem d).mp List.mem_cons_self, ?_⟩
  intro x hx
  have hpairwise := List.pairwise_insertionSort
    (fun a b : NextDecisionRow δ => b.scheduledFor ≤ a.scheduledFor)
    (s.next.rows.filter (fun r => decide (r.taskId = taskId) &&
      decide (r.taskRevision = revision) && decide (r.headDisposition = .paused)))
  rw [hsorted, List.pairwise_cons] at hpairwise
  rcases List.mem_cons.mp ((hmem x).mpr hx) with rfl | hrest
  · exact le_rfl
  · exact hpairwise.1 x hrest

theorem latestPaused_eq_none {taskId : ScheduledId} {revision : PositiveInteger}
    (h : TaskAuthority.latestPaused s taskId revision = none) :
    ¬ PausedAt s taskId revision d := by
  intro hd
  unfold TaskAuthority.latestPaused at h
  rw [List.head?_eq_none_iff] at h
  have hmem := mem_pausedRows.mpr hd
  rw [← List.mem_insertionSort (fun a b : NextDecisionRow δ => b.scheduledFor ≤ a.scheduledFor),
    h] at hmem
  cases hmem

/-- A head that goes where its latest paused decision computed keeps a history. -/
theorem HeadHistory.jump (h : HistorySound s) (hh : HeadHistory s head)
    (hd : LatestPaused s head.taskId head.revision d) (htask : head'.taskId = head.taskId)
    (hrevision : head'.revision = head.revision) (hnext : head'.nextRunAt = d.computedNextRunAt)
    (hreach : ∀ c, d.computedNextRunAt = some c →
      (∃ x, Decided s head.taskId head.revision x ∧ x.scheduledFor = c) ∨
        ∀ x, Decided s head.taskId head.revision x → x.scheduledFor < c) :
    HeadHistory s head' := by
  have hlater : ∀ c, d.computedNextRunAt = some c → ∀ p,
      PausedAt s head.taskId head.revision p → p.scheduledFor < c := by
    intro c hc p hp
    exact (hd.latest p hp).trans_lt (h.later _ d hd.found c hc)
  constructor
  all_goals rw [htask, hrevision]
  · exact hh.chain
  · intro hnone d' c hd' hc
    rw [hd'.unique h hd, ← hnext, hnone] at hc
    cases hc
  · intro slot hslot p hp
    exact (hlater slot (hnext ▸ hslot) p hp).le
  · intro slot hslot
    exact hreach slot (hnext ▸ hslot)
  · intro slot hslot p hp hsame
    exact absurd hsame (hlater slot (hnext ▸ hslot) p hp).ne
  · intro slot hslot d' hd' _
    rw [hd'.unique h hd]
    exact ⟨slot, hnext ▸ hslot, le_rfl, fun hlt => absurd hlt (lt_irrefl _)⟩

/-- Where the latest paused decision leads from the head it was taken for. -/
theorem HeadHistory.reach (h : HistorySound s) (hh : HeadHistory s head)
    (hd : LatestPaused s head.taskId head.revision d) :
    ∀ c, d.computedNextRunAt = some c →
      (∃ x, Decided s head.taskId head.revision x ∧ x.scheduledFor = c) ∨
        ∀ x, Decided s head.taskId head.revision x → x.scheduledFor < c := by
  intro c hc
  cases hslot : head.nextRunAt with
  | none =>
    obtain ⟨a, ha, hsame⟩ := hh.closed hslot d c hd hc
    exact .inl ⟨a, ha.toDecided, hsame⟩
  | some slot =>
    rcases lt_or_eq_of_le (hh.behind slot hslot d hd.toPausedAt) with hlt | hsame
    · obtain ⟨c', hc', hle, hstep⟩ := hh.resumed slot hslot d hd hlt
      rw [hc] at hc'
      cases hc'
      rcases lt_or_eq_of_le hle with hlt' | rfl
      · obtain ⟨a, ha, hsame⟩ := hstep hlt'
        exact .inl ⟨a, ha.toDecided, hsame⟩
      · exact hh.fresh c hslot
    · refine .inr fun x hx => ?_
      have hle := hh.pending slot hslot d hd.toPausedAt hsame x hx
      have hlt := h.later _ d hd.found c hc
      rw [hsame] at hlt
      exact hle.trans_lt hlt

theorem pausedDecision_latest (hh : HeadHistory s head) {slot : CanonicalInstant}
    (hslot : head.nextRunAt = some slot)
    (h : pausedDecision s head.taskId head.revision slot = some d) :
    LatestPaused s head.taskId head.revision d ∧ d.scheduledFor = slot := by
  obtain ⟨hfind, htask, hrevision, hsame, hpaused⟩ := pausedDecision_eq_some h
  refine ⟨⟨⟨⟨hfind, htask, hrevision, .inr hpaused⟩, hpaused⟩, ?_⟩, hsame⟩
  intro p hp
  rw [hsame]
  exact hh.behind slot hslot p hp

theorem HeadHistory.sameSlot (hh : HeadHistory s head) (status : TaskStatus) :
    HeadHistory s { head with status := status } :=
  ⟨hh.chain, hh.closed, hh.behind, hh.fresh, hh.pending, hh.resumed⟩

omit [DecidableEq δ] in
/-- What a status change shows for a paused head: the held slot, or the answer of its decision. -/
theorem visible_cases (s : ScheduledState δ Ω) (head : ScheduledTaskHead) :
    visibleScheduledNextRun s head.taskId head.revision head.nextRunAt true = head.nextRunAt ∨
      ∃ slot d, head.nextRunAt = some slot ∧
        pausedDecision s head.taskId head.revision slot = some d ∧
        visibleScheduledNextRun s head.taskId head.revision head.nextRunAt true =
          d.computedNextRunAt := by
  unfold visibleScheduledNextRun
  rw [if_neg (by simp)]
  cases hslot : head.nextRunAt with
  | none => exact .inl rfl
  | some slot =>
    cases hdecision : pausedDecision s head.taskId head.revision slot with
    | none => exact .inl (by simp [hdecision])
    | some d => exact .inr ⟨slot, d, rfl, hdecision, by simp [hdecision]⟩

theorem HeadHistory.moved (hcomplete : ¬ allowed .complete) (h : HistorySound s) {k : ScheduledId}
    {prev next : ScheduledTaskHead} (hprev : s.tasks.find? k = some prev)
    (hmove : HeadMove allowed s prev next) : HeadHistory s next := by
  have hh := h.heads k prev hprev
  cases hmove with
  | revised next hid hrev hdeleted hclosed =>
    refine headHistory_empty ?_
    intro d hd
    obtain ⟨r, hr, -, hdecides⟩ := h.settled _ d hd.found
    obtain ⟨owner, howner, hle⟩ := h.owned _ r hr
    rw [← hdecides.taskId, hd.ofTask, hid, taskId_of_find? hprev, hprev] at howner
    cases howner
    rw [← hdecides.taskRevision, hd.ofRevision] at hle
    have hle' : next.revision.1 ≤ prev.revision.1 := hle
    omega
  | paused => exact hh.sameSlot .paused
  | reopened _ => exact hh.sameSlot .active
  | completed hallowed => exact absurd hallowed hcomplete
  | resumed hstatus =>
    unfold statusHead
    rw [if_pos ⟨rfl, hstatus⟩]
    dsimp only
    rcases visible_cases s prev with hsame | ⟨slot, d, hslot, hdecision, hvisible⟩
    · rw [hsame]
      exact hh.sameSlot _
    · obtain ⟨hlatest, -⟩ := pausedDecision_latest hh hslot hdecision
      exact hh.jump h hlatest rfl rfl hvisible (hh.reach h hlatest)
  | seam _ hstatus =>
    unfold TaskAuthority.resumedHead TaskAuthority.resumedSlot
    cases hlatest : TaskAuthority.latestPaused s prev.taskId prev.revision with
    | none => exact hh.sameSlot _
    | some d =>
      have hd := latestPaused_eq_some hlatest
      exact hh.jump h hd rfl rfl rfl (hh.reach h hd)

end Resuming

section Steps
variable {head : ScheduledTaskHead} {r r' : RunRow δ} {d : NextDecisionRow δ}

/-- The decisions after a settlement are the earlier ones and its own. -/
theorem decided_settled {taskId : ScheduledId} {revision : PositiveInteger} {x : NextDecisionRow δ}
    (hnew : s.next.find? d.runId = none)
    (hnext : ∀ k, s'.next.find? k = if d.runId = k then some d else s.next.find? k) :
    Decided s' taskId revision x ↔ (x = d ∧ d.taskId = taskId ∧ d.taskRevision = revision ∧
      (d.headDisposition = .advanced ∨ d.headDisposition = .paused)) ∨
        Decided s taskId revision x := by
  constructor
  · intro hx
    have hfound := hx.found
    rw [hnext] at hfound
    split_ifs at hfound with hid
    · cases hfound
      exact .inl ⟨rfl, hx.ofTask, hx.ofRevision, hx.moved⟩
    · exact .inr ⟨hfound, hx.ofTask, hx.ofRevision, hx.moved⟩
  · rintro (⟨rfl, htask, hrevision, hmoved⟩ | hx)
    · exact ⟨by rw [hnext, if_pos rfl], htask, hrevision, hmoved⟩
    · refine ⟨?_, hx.ofTask, hx.ofRevision, hx.moved⟩
      rw [hnext, if_neg, hx.found]
      intro hid
      rw [hid, hx.found] at hnew
      cases hnew

/-- Before a run settles, every decision of its head lies before its slot. -/
theorem decided_before (h : HistorySound s) (hh : HeadHistory s head) {k : δ}
    (hr : s.occurrences.find? k = some r) (hactive : r.state.active = true)
    (htask : head.taskId = r.taskId) (hat : PointsAt head r) :
    ∀ x, Decided s head.taskId head.revision x → x.scheduledFor < r.scheduledFor := by
  rcases hh.fresh _ hat.2 with ⟨x, hx, hsame⟩ | hall
  · rw [htask, hat.1] at hx
    exact absurd hsame (undecided_slot h hr hactive hx)
  · exact hall

theorem HeadHistory.advanced (h : HistorySound s) (hh : HeadHistory s head) {k : δ}
    (hr : s.occurrences.find? k = some r) (hactive : r.state.active = true)
    (htask : head.taskId = r.taskId) (hat : PointsAt head r) (hd : Decides d r)
    (hdisposition : d.headDisposition = .advanced)
    (hproper : ∀ c ∈ d.computedNextRunAt, r.scheduledFor < c)
    (hnew : s.next.find? d.runId = none)
    (hnext : ∀ k, s'.next.find? k = if d.runId = k then some d else s.next.find? k)
    (status : TaskStatus) :
    HeadHistory s' { head with status := status, nextRunAt := d.computedNextRunAt } := by
  have hbefore := decided_before h hh hr hactive htask hat
  have hdec : ∀ x, Decided s' head.taskId head.revision x ↔
      (x = d ∧ d.taskId = head.taskId ∧ d.taskRevision = head.revision ∧
        (d.headDisposition = .advanced ∨ d.headDisposition = .paused)) ∨
        Decided s head.taskId head.revision x := fun x => decided_settled hnew hnext
  have hpaused : ∀ x, PausedAt s' head.taskId head.revision x ↔
      PausedAt s head.taskId head.revision x := by
    intro x
    constructor
    · intro hx
      rcases (hdec x).mp hx.toDecided with ⟨rfl, -⟩ | hold
      · have hpaused := hx.paused
        rw [hdisposition] at hpaused
        cases hpaused
      · exact ⟨hold, hx.paused⟩
    · exact fun hx => ⟨(hdec x).mpr (.inr hx.toDecided), hx.paused⟩
  have hlatest : ∀ x, LatestPaused s' head.taskId head.revision x →
      LatestPaused s head.taskId head.revision x :=
    fun x hx => ⟨(hpaused x).mp hx.toPausedAt, fun y hy => hx.latest y ((hpaused y).mpr hy)⟩
  have hnewAdvanced : AdvancedAt s' head.taskId head.revision d :=
    ⟨(hdec d).mpr (.inl ⟨rfl, hd.taskId.trans htask.symm, hd.taskRevision.trans hat.1.symm,
      .inl hdisposition⟩), hdisposition⟩
  -- where the latest paused decision leads, seen from the slot that has just been settled
  have hstep : ∀ x, LatestPaused s' head.taskId head.revision x →
      ∃ c, x.computedNextRunAt = some c ∧ c ≤ r.scheduledFor ∧
        ∃ a, AdvancedAt s' head.taskId head.revision a ∧ a.scheduledFor = c := by
    intro x hx
    have hx' := hlatest x hx
    obtain ⟨c, hc, hle, ha⟩ := hh.resumed _ hat.2 x hx' (hbefore x hx'.toDecided)
    refine ⟨c, hc, hle, ?_⟩
    rcases lt_or_eq_of_le hle with hlt | rfl
    · obtain ⟨a, ha, hsame⟩ := ha hlt
      exact ⟨a, ⟨(hdec a).mpr (.inr ha.toDecided), ha.advanced⟩, hsame⟩
    · exact ⟨d, hnewAdvanced, hd.scheduledFor⟩
  constructor
  · intro x a hx ha hlt
    rcases (hdec a).mp ha.toDecided with ⟨rfl, -⟩ | hold
    · obtain ⟨c, hc, hle, -⟩ := hstep x hx
      exact ⟨c, hc, hd.scheduledFor ▸ hle⟩
    · exact hh.chain x a (hlatest x hx) ⟨hold, ha.advanced⟩ hlt
  · intro _ x c hx hc
    obtain ⟨c', hc', -, ha⟩ := hstep x hx
    rw [hc] at hc'
    cases hc'
    exact ha
  · intro slot hslot x hx
    exact ((hbefore x ((hpaused x).mp hx).toDecided).trans (hproper slot hslot)).le
  · intro slot hslot
    refine .inr fun x hx => ?_
    rcases (hdec x).mp hx with ⟨rfl, -⟩ | hold
    · rw [hd.scheduledFor]
      exact hproper slot hslot
    · exact (hbefore x hold).trans (hproper slot hslot)
  · intro slot hslot p hp hsame
    have hlt := (hbefore p ((hpaused p).mp hp).toDecided).trans (hproper slot hslot)
    exact absurd hsame hlt.ne
  · intro slot hslot x hx _
    obtain ⟨c, hc, hle, ha⟩ := hstep x hx
    exact ⟨c, hc, hle.trans (hproper slot hslot).le, fun _ => ha⟩

theorem HeadHistory.paused (h : HistorySound s) (hh : HeadHistory s head) {k : δ}
    (hr : s.occurrences.find? k = some r) (hactive : r.state.active = true)
    (htask : head.taskId = r.taskId) (hat : PointsAt head r) (hd : Decides d r)
    (hdisposition : d.headDisposition = .paused) (hnew : s.next.find? d.runId = none)
    (hnext : ∀ k, s'.next.find? k = if d.runId = k then some d else s.next.find? k) :
    HeadHistory s' head := by
  have hbefore := decided_before h hh hr hactive htask hat
  have hdec : ∀ x, Decided s' head.taskId head.revision x ↔
      (x = d ∧ d.taskId = head.taskId ∧ d.taskRevision = head.revision ∧
        (d.headDisposition = .advanced ∨ d.headDisposition = .paused)) ∨
        Decided s head.taskId head.revision x := fun x => decided_settled hnew hnext
  have hall : ∀ x, Decided s' head.taskId head.revision x → x.scheduledFor ≤ r.scheduledFor := by
    intro x hx
    rcases (hdec x).mp hx with ⟨rfl, -⟩ | hold
    · exact hd.scheduledFor.le
    · exact (hbefore x hold).le
  have hnewDecided : Decided s' head.taskId head.revision d :=
    (hdec d).mpr (.inl ⟨rfl, hd.taskId.trans htask.symm, hd.taskRevision.trans hat.1.symm,
      .inr hdisposition⟩)
  have hlatest : ∀ x, LatestPaused s' head.taskId head.revision x →
      r.scheduledFor ≤ x.scheduledFor :=
    fun x hx => hd.scheduledFor ▸ hx.latest d ⟨hnewDecided, hdisposition⟩
  constructor
  · intro x a hx ha hlt
    exact absurd (hlt.trans_le (hall a ha.toDecided)) (not_lt_of_ge (hlatest x hx))
  · intro hnone
    rw [hat.2] at hnone
    cases hnone
  · intro slot hslot x hx
    rw [hat.2] at hslot
    cases hslot
    exact hall x hx.toDecided
  · intro slot hslot
    rw [hat.2] at hslot
    cases hslot
    exact .inl ⟨d, hnewDecided, hd.scheduledFor⟩
  · intro slot hslot _ _ _ x hx
    rw [hat.2] at hslot
    cases hslot
    exact hall x hx
  · intro slot hslot x hx hlt
    rw [hat.2] at hslot
    cases hslot
    exact absurd hlt (not_lt_of_ge (hlatest x hx))

/-- A settlement leaves the histories of the heads that it does not decide alone. -/
theorem HeadHistory.unmoved (hh : HeadHistory s head) (hnew : s.next.find? d.runId = none)
    (hnext : ∀ k, s'.next.find? k = if d.runId = k then some d else s.next.find? k)
    (haway : ¬ (d.taskId = head.taskId ∧ d.taskRevision = head.revision ∧
      (d.headDisposition = .advanced ∨ d.headDisposition = .paused))) : HeadHistory s' head := by
  refine hh.of_iff fun x => ?_
  rw [decided_settled hnew hnext]
  constructor
  · rintro (⟨-, hd⟩ | hx)
    · exact absurd hd haway
    · exact hx
  · exact .inr

theorem HistorySound.settled_step (h : HistorySound s)
    (hocc : Rewrites s.occurrences s'.occurrences r.runId r r') (hr : r.state.active = true)
    (hr' : r'.state.active = false) (hslot : SameSlot r r') (htime : r'.claimedAt = r.claimedAt)
    (hd : Decides d r) (hproper : ∀ c ∈ d.computedNextRunAt, r.scheduledFor < c)
    (hnew : s.next.find? d.runId = none)
    (hnext : ∀ k, s'.next.find? k = if d.runId = k then some d else s.next.find? k)
    (hhead : s.tasks.find? r.taskId = some head) (hmove : HeadSettles s s' head r d) :
    HistorySound s' := by
  have hid := taskId_of_find? hhead
  have hheads : (∀ k x, s'.tasks.find? k = some x → HeadHistory s' x) ∧
      ∀ k x, s.tasks.find? k = some x →
        ∃ y, s'.tasks.find? k = some y ∧ x.revision ≤ y.revision := by
    have hsame : s'.tasks = s.tasks → (HeadHistory s head → HeadHistory s' head) →
        (∀ k x, s'.tasks.find? k = some x → HeadHistory s' x) ∧
        ∀ k x, s.tasks.find? k = some x →
          ∃ y, s'.tasks.find? k = some y ∧ x.revision ≤ y.revision := by
      intro htasks hown
      rw [htasks]
      refine ⟨?_, fun k x hx => ⟨x, hx, le_rfl⟩⟩
      intro k x hx
      by_cases htask : x.taskId = r.taskId
      · have heq : x = head := by
          rw [← taskId_of_find? hx, htask, hhead] at hx
          exact (Option.some.inj hx).symm
        rw [heq]
        exact hown (h.heads _ head hhead)
      · exact (h.heads k x hx).unmoved hnew hnext
          (fun hx' => htask (hx'.1.symm.trans hd.taskId))
    cases hmove with
    | advanced next hactive hat hdisposition hnextHead htasks =>
      refine ⟨?_, ?_⟩
      · intro k x hx
        rcases htasks.found hx with ⟨-, rfl⟩ | ⟨hk, hx⟩
        · rw [hnextHead]
          exact (h.heads _ head hhead).advanced h hocc.before hr hid hat hd hdisposition hproper
            hnew hnext _
        · refine (h.heads k x hx).unmoved hnew hnext ?_
          rintro ⟨htask, -, -⟩
          exact hk ((taskId_of_find? hx).symm.trans (htask.symm.trans hd.taskId))
      · intro k x hx
        rcases htasks.lost hx with ⟨-, rfl, hafter⟩ | ⟨-, hafter⟩
        · refine ⟨next, hafter, ?_⟩
          rw [hnextHead]
        · exact ⟨x, hafter, le_rfl⟩
    | paused hpaused hat hdisposition htasks =>
      exact hsame htasks fun hh => hh.paused h hocc.before hr hid hat hd hdisposition hnew hnext
    | elsewhere haway hadvanced hpaused htasks =>
      refine hsame htasks fun hh => hh.unmoved hnew hnext ?_
      rintro ⟨-, -, hdisposition | hdisposition⟩
      · exact hadvanced hdisposition
      · exact hpaused hdisposition
  obtain ⟨hsound, hgrow⟩ := hheads
  refine ⟨?_, ?_, ?_, ?_, hsound⟩
  · intro k x hx
    have hold : ∃ y, s.tasks.find? x.taskId = some y ∧ x.taskRevision ≤ y.revision := by
      rcases found_settled hocc hx with rfl | ⟨-, hx⟩
      · rw [hslot.taskId, hslot.taskRevision]
        exact h.owned _ r hocc.before
      · exact h.owned k x hx
    obtain ⟨y, hy, hle⟩ := hold
    obtain ⟨z, hz, hle'⟩ := hgrow _ y hy
    exact ⟨z, hz, hle.trans hle'⟩
  · intro k x hx
    rcases found_settled hocc hx with rfl | ⟨-, hx⟩
    · rw [hslot.scheduledFor, htime]
      exact h.due _ r hocc.before
    · exact h.due k x hx
  · intro k x hx
    rw [hnext] at hx
    split_ifs at hx with hk
    · cases hx
      refine ⟨r', ?_, hr', ?_⟩
      · rw [← hk, hd.runId]
        exact hocc.after
      · exact ⟨hd.runId.trans hslot.runId.symm, hd.taskId.trans hslot.taskId.symm,
          hd.taskRevision.trans hslot.taskRevision.symm,
          hd.scheduledFor.trans hslot.scheduledFor.symm⟩
    · obtain ⟨y, hy, hrest⟩ := h.settled k x hx
      refine ⟨y, ?_, hrest⟩
      rw [hocc.others k (fun heq => hk (hd.runId.trans heq.symm))]
      exact hy
  · intro k x hx
    rw [hnext] at hx
    split_ifs at hx
    · cases hx
      rw [hd.scheduledFor]
      exact hproper
    · exact h.later k x hx

/-- A change that leaves the decisions and the settled runs alone. -/
theorem HistorySound.sameDecisions (h : HistorySound s) (hnext : s'.next = s.next)
    (howned : ∀ k r, s'.occurrences.find? k = some r →
      ∃ head, s'.tasks.find? r.taskId = some head ∧ r.taskRevision ≤ head.revision)
    (hdue : ClaimedWhenDue s')
    (hsettled : ∀ k r, s.occurrences.find? k = some r → r.state.active = false →
      s'.occurrences.find? k = some r)
    (hheads : ∀ k head, s'.tasks.find? k = some head → HeadHistory s head) : HistorySound s' := by
  refine ⟨howned, hdue, ?_, ?_, ?_⟩
  · intro k d hd
    rw [hnext] at hd
    obtain ⟨r, hr, hinactive, hdecides⟩ := h.settled k d hd
    exact ⟨r, hsettled k r hr hinactive, hinactive, hdecides⟩
  · intro k d hd
    rw [hnext] at hd
    exact h.later k d hd
  · intro k head hhead
    refine (hheads k head hhead).of_iff fun d => ?_
    constructor
    · intro hd
      exact hd.mono fun k d hd => by rw [← hnext]; exact hd
    · intro hd
      exact hd.mono fun k d hd => by rw [hnext]; exact hd

omit [DecidableEq δ] in
theorem headMove_grows {prev next : ScheduledTaskHead} (hmove : HeadMove allowed s prev next) :
    next.taskId = prev.taskId ∧ prev.revision ≤ next.revision := by
  cases hmove with
  | revised next hid hrev hdeleted hclosed =>
    refine ⟨hid, ?_⟩
    change prev.revision.1 ≤ next.revision.1
    omega
  | paused => exact ⟨rfl, le_rfl⟩
  | reopened _ => exact ⟨rfl, le_rfl⟩
  | completed _ => exact ⟨rfl, le_rfl⟩
  | resumed hstatus =>
    unfold statusHead
    rw [if_pos ⟨rfl, hstatus⟩]
    exact ⟨rfl, le_rfl⟩
  | seam _ _ => exact ⟨rfl, le_rfl⟩

theorem ScheduledMove.history (hretire : ¬ allowed .retire) (hcomplete : ¬ allowed .complete)
    (h : HistorySound s) (hm : ScheduledMove allowed s s') : HistorySound s' := by
  cases hm with
  | quiet htasks hruns =>
    refine h.sameDecisions hruns.next ?_ ?_ ?_ ?_
    · rw [hruns.occurrences, htasks]
      exact h.owned
    · unfold ClaimedWhenDue
      rw [hruns.occurrences]
      exact h.due
    · rw [hruns.occurrences]
      exact fun _ _ hr _ => hr
    · rw [htasks]
      exact h.heads
  | claimed head r hhead hactive hat hr htime hnew hocc htasks hnext htombs =>
    refine h.sameDecisions hnext ?_ ?_ ?_ ?_
    · intro k x hx
      rw [hocc] at hx
      rw [htasks]
      split_ifs at hx
      · cases hx
        exact ⟨head, hhead, hat.1.ge⟩
      · exact h.owned k x hx
    · intro k x hx
      rw [hocc] at hx
      split_ifs at hx
      · cases hx
        exact htime
      · exact h.due k x hx
    · intro k x hx _
      rw [hocc, if_neg, hx]
      rintro rfl
      rw [hnew] at hx
      cases hx
    · rw [htasks]
      exact h.heads
  | kept r r' hocc hr hr' hslot htime htasks hnext htombs =>
    refine h.sameDecisions hnext ?_ ?_ ?_ ?_
    · intro k x hx
      rw [htasks]
      rcases hocc.found hx with ⟨-, rfl⟩ | ⟨-, hx⟩
      · rw [hslot.taskId, hslot.taskRevision]
        exact h.owned _ r hocc.before
      · exact h.owned k x hx
    · intro k x hx
      rcases hocc.found hx with ⟨-, rfl⟩ | ⟨-, hx⟩
      · rw [hslot.scheduledFor]
        exact (h.due _ r hocc.before).trans htime
      · exact h.due k x hx
    · intro k x hx hinactive
      rcases hocc.lost hx with ⟨-, rfl, -⟩ | ⟨-, hafter⟩
      · rw [hr] at hinactive
        cases hinactive
      · exact hafter
    · rw [htasks]
      exact h.heads
  | settled head r r' d hocc hr hr' hslot htime hd hproper hnew hnext hhead hmove htombs =>
    exact h.settled_step hocc hr hr' hslot htime hd hproper hnew hnext hhead hmove
  | retired r tombstone hallowed => exact absurd hallowed hretire
  | created head hnew hdeleted hclosed htasks hruns =>
    refine h.sameDecisions hruns.next ?_ ?_ ?_ ?_
    · intro k r hr
      rw [hruns.occurrences] at hr
      obtain ⟨owner, howner, hle⟩ := h.owned k r hr
      refine ⟨owner, ?_, hle⟩
      rw [htasks, if_neg, howner]
      intro heq
      rw [← heq, hnew] at howner
      cases howner
    · unfold ClaimedWhenDue
      rw [hruns.occurrences]
      exact h.due
    · rw [hruns.occurrences]
      exact fun _ _ hr _ => hr
    · intro k x hx
      rw [htasks] at hx
      split_ifs at hx
      · cases hx
        refine headHistory_empty ?_
        intro d hd
        obtain ⟨r, hr, -, hdecides⟩ := h.settled _ d hd.found
        obtain ⟨owner, howner, -⟩ := h.owned _ r hr
        rw [← hdecides.taskId, hd.ofTask, hnew] at howner
        cases howner
      · exact h.heads k x hx
  | headed prev next htasks hdeleted hmove hruns =>
    refine h.sameDecisions hruns.next ?_ ?_ ?_ ?_
    · intro k r hr
      rw [hruns.occurrences] at hr
      obtain ⟨owner, howner, hle⟩ := h.owned k r hr
      rcases htasks.lost howner with ⟨-, rfl, hafter⟩ | ⟨-, hafter⟩
      · exact ⟨next, hafter, hle.trans (headMove_grows hmove).2⟩
      · exact ⟨owner, hafter, hle⟩
    · unfold ClaimedWhenDue
      rw [hruns.occurrences]
      exact h.due
    · rw [hruns.occurrences]
      exact fun _ _ hr _ => hr
    · intro k x hx
      rcases htasks.found hx with ⟨-, rfl⟩ | ⟨-, hx⟩
      · exact HeadHistory.moved hcomplete h htasks.before hmove
      · exact h.heads k x hx

theorem ScheduledMoves.history (hretire : ¬ allowed .retire) (hcomplete : ¬ allowed .complete)
    (h : HistorySound s) (hm : ScheduledMoves allowed s s') : HistorySound s' := by
  induction hm with
  | refl => exact h
  | tail _ hstep ih => exact hstep.history hretire hcomplete ih

end Steps

section Agreement
variable {head : ScheduledTaskHead}

/-- A run of the head's revision was settled, while the task was active, after the latest slot
settled while it was paused and before the slot that the head holds. -/
def SettledSince (s : ScheduledState δ Ω) (head : ScheduledTaskHead) : Prop :=
  ∃ held d, TaskAuthority.latestPaused s head.taskId head.revision = some held ∧
    d ∈ s.next.rows ∧ d.taskId = head.taskId ∧ d.taskRevision = head.revision ∧
    d.headDisposition = .advanced ∧ held.scheduledFor < d.scheduledFor ∧
    ∀ slot ∈ head.nextRunAt, d.scheduledFor < slot

theorem settledSince_iff {held : NextDecisionRow δ}
    (hheld : TaskAuthority.latestPaused s head.taskId head.revision = some held) :
    SettledSince s head ↔ ∃ d, AdvancedAt s head.taskId head.revision d ∧
      held.scheduledFor < d.scheduledFor ∧ ∀ slot ∈ head.nextRunAt, d.scheduledFor < slot := by
  constructor
  · rintro ⟨held', d, hheld', hmem, htask, hrevision, hadvanced, hlt, hbefore⟩
    rw [hheld] at hheld'
    cases hheld'
    exact ⟨d, ⟨⟨Table.find?_of_mem hmem, htask, hrevision, .inl hadvanced⟩, hadvanced⟩, hlt, hbefore⟩
  · rintro ⟨d, hd, hlt, hbefore⟩
    exact ⟨held, d, hheld, Table.mem_of_find? hd.found, hd.ofTask, hd.ofRevision, hd.advanced, hlt,
      hbefore⟩

theorem visible_unpaused
    (hnone : TaskAuthority.latestPaused s head.taskId head.revision = none) :
    visibleScheduledNextRun s head.taskId head.revision head.nextRunAt true = head.nextRunAt := by
  rcases visible_cases s head with hsame | ⟨slot, d, -, hdecision, -⟩
  · exact hsame
  · obtain ⟨hfind, htask, hrevision, -, hpaused⟩ := pausedDecision_eq_some hdecision
    exact absurd ⟨⟨hfind, htask, hrevision, .inr hpaused⟩, hpaused⟩ (latestPaused_eq_none hnone)

/-- The slot after a resumption through the authority and the one after a status change. -/
theorem HeadHistory.slots_agree (h : HistorySound s) (hh : HeadHistory s head) :
    TaskAuthority.resumedSlot s head =
        visibleScheduledNextRun s head.taskId head.revision head.nextRunAt true ↔
      ¬ SettledSince s head := by
  unfold TaskAuthority.resumedSlot
  cases hlatest : TaskAuthority.latestPaused s head.taskId head.revision with
  | none =>
    refine iff_of_true (visible_unpaused hlatest).symm ?_
    rintro ⟨held, d, hheld, -⟩
    rw [hlatest] at hheld
    cases hheld
  | some held =>
    have hheld := latestPaused_eq_some hlatest
    rw [settledSince_iff hlatest]
    dsimp only
    cases hslot : head.nextRunAt with
    | none =>
      change held.computedNextRunAt = none ↔ _
      constructor
      · rintro hnone ⟨d, hd, hlt, -⟩
        obtain ⟨c, hc, -⟩ := hh.chain held d hheld hd hlt
        rw [hnone] at hc
        cases hc
      · intro hsettled
        cases hc : held.computedNextRunAt with
        | none => rfl
        | some c =>
          obtain ⟨a, ha, hsame⟩ := hh.closed hslot held c hheld hc
          refine absurd ⟨a, ha, ?_, by simp⟩ hsettled
          exact hsame ▸ h.later _ held hheld.found c hc
    | some slot =>
      rcases lt_or_eq_of_le (hh.behind slot hslot held hheld.toPausedAt) with hlt | hsame
      · -- nothing was settled at the held slot, so the status change keeps it
        have hnone : pausedDecision s head.taskId head.revision slot = none := by
          cases hdecision : pausedDecision s head.taskId head.revision slot with
          | none => rfl
          | some d =>
            obtain ⟨hd, hsame⟩ := pausedDecision_latest hh hslot hdecision
            rw [hd.unique h hheld] at hsame
            exact absurd hsame hlt.ne
        have hvisible : visibleScheduledNextRun s head.taskId head.revision (some slot) true =
            some slot := by
          simp [visibleScheduledNextRun, hnone]
        rw [hvisible]
        obtain ⟨c, hc, hle, hstep⟩ := hh.resumed slot hslot held hheld hlt
        rw [hc, Option.some.injEq]
        constructor
        · rintro rfl ⟨d, hd, hlt', hbefore⟩
          obtain ⟨c', hc', hle'⟩ := hh.chain held d hheld hd hlt'
          rw [hc] at hc'
          cases hc'
          exact absurd (hbefore c rfl) (not_lt_of_ge hle')
        · intro hsettled
          refine hle.eq_of_not_lt fun hearlier => ?_
          obtain ⟨a, ha, hsame⟩ := hstep hearlier
          refine hsettled ⟨a, ha, hsame ▸ h.later _ held hheld.found c hc, ?_⟩
          intro slot' hslot'
          cases hslot'
          rw [hsame]
          exact hearlier
      · -- the latest paused decision is the one that the held slot remembers
        have hsome : (pausedDecision s head.taskId head.revision slot).isSome = true := by
          obtain ⟨r, -, -, hdecides⟩ := h.settled _ held hheld.found
          have hfound := hheld.found
          rw [hdecides.runId] at hfound
          have hsome := pausedDecision_isSome hfound hheld.paused hdecides
          rw [← hdecides.taskId, ← hdecides.taskRevision, ← hdecides.scheduledFor, hheld.ofTask,
            hheld.ofRevision, hsame] at hsome
          exact hsome
        obtain ⟨d, hdecision⟩ := Option.isSome_iff_exists.mp hsome
        have hvisible : visibleScheduledNextRun s head.taskId head.revision (some slot) true =
            d.computedNextRunAt := by
          simp [visibleScheduledNextRun, hdecision]
        rw [hvisible, (pausedDecision_latest hh hslot hdecision).1.unique h hheld]
        refine iff_of_true rfl ?_
        rintro ⟨a, -, hlt, hbefore⟩
        have hlt' := hbefore slot rfl
        rw [← hsame] at hlt'
        exact absurd hlt (lt_asymm hlt')

omit [DecidableEq δ] in
/-- A stored head can be replaced by one of the same task that is not of an earlier revision. -/
theorem exists_writeHead {previous : ScheduledTaskHead} (next : ScheduledTaskHead)
    (hhead : s.tasks.find? previous.taskId = some previous) (hid : next.taskId = previous.taskId)
    (hrevision : previous.revision ≤ next.revision) :
    ∃ t, writeScheduledTaskHead s (some previous) next = .ok (true, t) := by
  obtain ⟨tasks, htasks⟩ := Table.exists_update? (t := s.tasks) (k := previous.taskId)
    (p := fun r => decide (r = previous))
    (f := fun r => { r with
      revision := next.revision, status := next.status, nextRunAt := next.nextRunAt })
    (fun r hr => by rw [of_decide_eq_true hr]; rfl) (fun _ _ => rfl) (fun _ _ => rfl) hhead
    (decide_eq_true rfl) trivial
  refine ⟨{ s with tasks := tasks }, ?_⟩
  unfold writeScheduledTaskHead
  dsimp only
  rw [htasks, hid, decide_eq_true rfl, decide_eq_true hrevision]
  rfl

/-- The authority resumes every paused task. -/
theorem resume_paused {taskId : ScheduledId} (hhead : s.tasks.find? taskId = some head)
    (hpaused : head.status = .paused) :
    ∃ t, TaskAuthority.resume taskId s = .ok t ∧
      t.tasks.find? taskId = some (TaskAuthority.resumedHead s head) := by
  have hid := taskId_of_find? hhead
  subst hid
  obtain ⟨t, ht⟩ := exists_writeHead (TaskAuthority.resumedHead s head) hhead rfl le_rfl
  refine ⟨t, ?_, (writeHead_rewrites ht).1.after⟩
  unfold TaskAuthority.resume readScheduledTaskHead
  rw [hhead]
  dsimp only
  rw [hpaused, ht]
  rfl

theorem setScheduledTaskAuthorityStatus_eq_ok {taskId : ScheduledId} {status : RequestedStatus}
    (hhead : s.tasks.find? taskId = some head) (hdeleted : head.status ≠ .deleted)
    (h : setScheduledTaskAuthorityStatus H taskId status s = .ok t) :
    t.tasks.find? taskId = some (statusHead s head status) := by
  unfold setScheduledTaskAuthorityStatus readScheduledTaskHead at h
  rw [hhead] at h
  dsimp only at h
  rw [if_neg hdeleted] at h
  obtain ⟨⟨written, s₁⟩, hwrite, h⟩ := bind_eq_ok.mp h
  dsimp only at h
  obtain ⟨hwritten, h⟩ := ensure_bind_eq_ok.mp h
  cases hwritten
  change projectHead H s₁ taskId = .ok t at h
  unfold projectHead at h
  obtain ⟨host, -, h⟩ := bind_eq_ok.mp h
  cases h
  have hid := taskId_of_find? hhead
  subst hid
  exact (writeHead_rewrites hwrite).1.after

omit [DecidableEq δ] in
theorem heads_agree (hpaused : head.status = .paused) :
    TaskAuthority.resumedHead s head = statusHead s head .active ↔
      TaskAuthority.resumedSlot s head =
        visibleScheduledNextRun s head.taskId head.revision head.nextRunAt true := by
  have hstatus : statusHead s head .active =
      let slot := visibleScheduledNextRun s head.taskId head.revision head.nextRunAt true
      { head with status := if slot.isNone then .completed else .active, nextRunAt := slot } := by
    unfold statusHead
    rw [if_pos ⟨rfl, hpaused⟩]
  rw [hstatus]
  unfold TaskAuthority.resumedHead
  constructor
  · intro hheads
    exact congrArg ScheduledTaskHead.nextRunAt hheads
  · intro hslots
    rw [hslots]

end Agreement

section Runs

/-- Calls that neither retire runs nor close a task from outside. -/
def ResumableCall : TaskCall δ → Prop
  | .mutation _ (some (.cleanupTerminal _)) => False
  | .mutation _ (some (.applyRetention _)) => False
  | .setStatus _ .completed => False
  | _ => True

def onlySeam : MoveKind → Prop
  | .seam => True
  | _ => False

omit [DecidableEq δ] in
theorem resumableCall_allowed {call : TaskCall δ} (h : ResumableCall call) :
    CallAllowed onlySeam call := by
  cases call with
  | mutation runtime request =>
    rcases request with _ | (_ | _ | _ | _ | _ | _ | _) <;> trivial
  | create task => trivial
  | revise task => trivial
  | setStatus taskId status => cases status <;> trivial
  | pause taskId => trivial
  | resume taskId => trivial

structure ResumptionSound (s : ScheduledState δ Ω) : Prop where
  history : HistorySound s
  revisions : RevisionsSound s

theorem initial_resumption (host : Ω) :
    ResumptionSound (ScheduledState.initial host : ScheduledState δ Ω) where
  history :=
    { owned := by intro _ _ h; cases h
      due := by intro _ _ h; cases h
      settled := by intro _ _ h; cases h
      later := by intro _ _ h; cases h
      heads := by intro _ _ h; cases h }
  revisions := by intro _ _ h; cases h

theorem taskStep_resumption (hcron : CronForward P) (h : ResumptionSound s) {call : TaskCall δ}
    (hcall : CallTimely s call ∧ ResumableCall call) : ResumptionSound (taskStep P H s call) := by
  obtain ⟨hmoves, hrevisions⟩ := taskStep_moves (H := H) hcron h.revisions h.history.due hcall.1
    (resumableCall_allowed hcall.2)
  exact ⟨hmoves.history (fun h => h) (fun h => h) h.history, hrevisions⟩

/-- In any state both resumptions of a paused task lead to the same head exactly when the latest
paused decision, if there is one, computed the slot that the held one resolves to. Along every run
that is exactly when no run was settled since, while the task was active. -/
theorem resumed_heads_agree :
    (∀ (s t t' : ScheduledState δ Ω) (taskId : ScheduledId) (head : ScheduledTaskHead),
      s.tasks.find? taskId = some head → head.status = .paused →
      TaskAuthority.resume taskId s = .ok t →
      setScheduledTaskAuthorityStatus H taskId .active s = .ok t' →
      (t.tasks.find? taskId = t'.tasks.find? taskId ↔
        ∀ held, TaskAuthority.latestPaused s head.taskId head.revision = some held →
          held.computedNextRunAt =
            visibleScheduledNextRun s head.taskId head.revision head.nextRunAt true)) ∧
    ∀ (host : Ω) (calls : List (TaskCall δ)), CronForward P →
      Along (taskStep P H) (fun s call => CallTimely s call ∧ ResumableCall call)
        (ScheduledState.initial host) calls →
      let s := run (taskStep P H) (ScheduledState.initial host) calls
      ∀ taskId head, s.tasks.find? taskId = some head → head.status = .paused →
        ∃ t, TaskAuthority.resume taskId s = .ok t ∧
          ∀ t', setScheduledTaskAuthorityStatus H taskId .active s = .ok t' →
            (t.tasks.find? taskId = t'.tasks.find? taskId ↔ ¬ SettledSince s head) := by
  have hslots : ∀ (s t t' : ScheduledState δ Ω) (taskId : ScheduledId) (head : ScheduledTaskHead),
      s.tasks.find? taskId = some head → head.status = .paused →
      TaskAuthority.resume taskId s = .ok t →
      setScheduledTaskAuthorityStatus H taskId .active s = .ok t' →
      (t.tasks.find? taskId = t'.tasks.find? taskId ↔ TaskAuthority.resumedSlot s head =
        visibleScheduledNextRun s head.taskId head.revision head.nextRunAt true) := by
    intro s t t' taskId head hhead hpaused hresume hstatus
    obtain ⟨u, hresume', hu⟩ := resume_paused hhead hpaused
    rw [hresume] at hresume'
    cases hresume'
    have hdeleted : head.status ≠ .deleted := by simp [hpaused]
    rw [hu, setScheduledTaskAuthorityStatus_eq_ok hhead hdeleted hstatus, Option.some.injEq,
      heads_agree hpaused]
  refine ⟨?_, ?_⟩
  · intro s t t' taskId head hhead hpaused hresume hstatus
    rw [hslots s t t' taskId head hhead hpaused hresume hstatus]
    unfold TaskAuthority.resumedSlot
    cases hlatest : TaskAuthority.latestPaused s head.taskId head.revision with
    | none => exact iff_of_true (visible_unpaused hlatest).symm (by simp)
    | some held => simp
  · intro host calls hcron hcalls s taskId head hhead hpaused
    have hsound : ∀ x call, ResumptionSound x → CallTimely x call ∧ ResumableCall call →
        ResumptionSound (taskStep P H x call) :=
      fun _ _ hx hcall => taskStep_resumption hcron hx hcall
    have hs : ResumptionSound s := run_invariant (s := ScheduledState.initial host) hsound
      (initial_resumption host) hcalls
    obtain ⟨t, hresume, -⟩ := resume_paused hhead hpaused
    refine ⟨t, hresume, ?_⟩
    intro t' hstatus
    rw [hslots s t t' taskId head hhead hpaused hresume hstatus]
    exact (hs.history.heads taskId head hhead).slots_agree hs.history

/-- The task of `pausedTwice` was settled while active between the slots of its two pauses, so the
authority takes it back to the slot that it ran at. -/
theorem resumed_heads_agree_pausedTwice :
    let s := run (taskStep samplePlatform sampleHost) (ScheduledState.initial ()) pausedTwice
    ∃ head, s.tasks.find? sampleId = some head ∧ head.status = .paused ∧
      ∃ t, TaskAuthority.resume sampleId s = .ok t ∧
        ∀ t', setScheduledTaskAuthorityStatus sampleHost sampleId .active s = .ok t' →
          (t.tasks.find? sampleId = t'.tasks.find? sampleId ↔ ¬ SettledSince s head) := by
  intro s
  have hcron : CronForward samplePlatform := by
    intro expression timezone anchor c hc
    cases hc
  have hfind : s.tasks.find? sampleId =
      some ⟨sampleId, ⟨1, by decide⟩, .paused, some (sampleInstant 3002)⟩ := by decide +kernel
  refine ⟨_, hfind, rfl, ?_⟩
  refine resumed_heads_agree.2 () pausedTwice hcron ?_ sampleId _ hfind rfl
  refine ⟨⟨trivial, trivial⟩, ⟨trivial, trivial⟩, ⟨trivial, trivial⟩, ⟨?_, trivial⟩,
    ⟨trivial, trivial⟩, ⟨trivial, trivial⟩, ⟨?_, trivial⟩, ⟨trivial, trivial⟩, trivial⟩
  · exact settledAfterClaim_iff.mpr (by decide +kernel)
  · exact settledAfterClaim_iff.mpr (by decide +kernel)

/-- The head of the sample task after a call that succeeds. -/
def sampleHead (x : Except ScheduledFault (ScheduledState SampleDigest Unit)) :
    Option ScheduledTaskHead :=
  match x with
  | .ok t => t.tasks.find? sampleId
  | .error _ => none

theorem sampleHead_eq_some {x : Except ScheduledFault (ScheduledState SampleDigest Unit)}
    (h : sampleHead x = some head) : ∃ t, x = .ok t ∧ t.tasks.find? sampleId = some head := by
  cases x with
  | ok t => exact ⟨t, rfl, h⟩
  | error fault => cases h

theorem resumed_heads_differ :
    ∃ t t', TaskAuthority.resume sampleId
          (run (taskStep samplePlatform sampleHost) (ScheduledState.initial ()) pausedTwice) = .ok t ∧
        setScheduledTaskAuthorityStatus sampleHost sampleId .active
          (run (taskStep samplePlatform sampleHost) (ScheduledState.initial ()) pausedTwice) = .ok t' ∧
        t.tasks.find? sampleId ≠ t'.tasks.find? sampleId := by
  have hresume : sampleHead (TaskAuthority.resume sampleId
      (run (taskStep samplePlatform sampleHost) (ScheduledState.initial ()) pausedTwice)) =
      some ⟨sampleId, ⟨1, by decide⟩, .active, some (sampleInstant 2001)⟩ := by decide +kernel
  have hstatus : sampleHead (setScheduledTaskAuthorityStatus sampleHost sampleId .active
      (run (taskStep samplePlatform sampleHost) (ScheduledState.initial ()) pausedTwice)) =
      some ⟨sampleId, ⟨1, by decide⟩, .active, some (sampleInstant 3002)⟩ := by decide +kernel
  obtain ⟨t, ht, hhead⟩ := sampleHead_eq_some hresume
  obtain ⟨t', ht', hhead'⟩ := sampleHead_eq_some hstatus
  refine ⟨t, t', ht, ht', ?_⟩
  rw [hhead, hhead']
  decide +kernel

end Runs

end Piclaw.Scheduled
