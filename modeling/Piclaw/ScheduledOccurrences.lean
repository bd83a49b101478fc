import Piclaw.ScheduledResume

/-!
# Occurrences are settled once

A slot of a task's revision is one occurrence. Moves never undo what has been settled and never
bring a retired slot back, so along every run of production calls an occurrence is created once,
settled once, and after its retirement only its tombstone is left.
-/

namespace Piclaw.Scheduled
open Relational
open Relational.Table (Rewrites)
variable {δ Ω : Type} [DecidableEq δ] {P : ScheduledPlatform δ} {H : ScheduledHost δ Ω}
  {s s' t u : ScheduledState δ Ω} {allowed : MoveKind → Prop}

/-- The tombstone of the slot of `r`. -/
structure Buries (x : TombstoneRow δ) (r : RunRow δ) : Prop where
  taskId : x.taskId = r.taskId
  taskRevision : x.taskRevision = r.taskRevision
  scheduledFor : x.scheduledFor = r.scheduledFor

omit [DecidableEq δ] in
theorem Buries.of_slot {x : TombstoneRow δ} {r r' : RunRow δ} (hslot : SameSlot r r') :
    Buries x r' ↔ Buries x r := by
  constructor
  · rintro ⟨htask, hrevision, hfor⟩
    exact ⟨htask.trans hslot.taskId, hrevision.trans hslot.taskRevision,
      hfor.trans hslot.scheduledFor⟩
  · rintro ⟨htask, hrevision, hfor⟩
    exact ⟨htask.trans hslot.taskId.symm, hrevision.trans hslot.taskRevision.symm,
      hfor.trans hslot.scheduledFor.symm⟩

/-- A run keeps its slot, a settled one also its row and its next decision, unless the slot is
retired; and what is retired stays so. -/
structure OccurrencesKept (s t : ScheduledState δ Ω) : Prop where
  runs : ∀ k r, s.occurrences.find? k = some r →
    (∃ r', t.occurrences.find? k = some r' ∧ SameSlot r r' ∧
      (r.state.active = false → r' = r ∧ t.next.find? k = s.next.find? k)) ∨
    ∃ x ∈ t.tombstones.rows, Buries x r
  tombstones : ∀ x ∈ s.tombstones.rows, x ∈ t.tombstones.rows

/-- No run is at a retired slot. -/
def NoneRevived (s : ScheduledState δ Ω) : Prop :=
  ∀ k r, s.occurrences.find? k = some r → ∀ x ∈ s.tombstones.rows, ¬ Buries x r

omit [DecidableEq δ] in
theorem SameSlot.refl (r : RunRow δ) : SameSlot r r := ⟨rfl, rfl, rfl, rfl⟩

theorem OccurrencesKept.of_eq (hruns : SameRuns s s') : OccurrencesKept s s' where
  runs k r hr := Or.inl ⟨r, hruns.occurrences ▸ hr, .refl r, fun _ => ⟨rfl, by rw [hruns.next]⟩⟩
  tombstones x hx := hruns.tombstones ▸ hx

theorem OccurrencesKept.refl (s : ScheduledState δ Ω) : OccurrencesKept s s := .of_eq (.refl s)

theorem OccurrencesKept.trans (h : OccurrencesKept s t) (h' : OccurrencesKept t u) :
    OccurrencesKept s u where
  runs k r hr := by
    rcases h.runs k r hr with ⟨r', hr', hslot, hsettled⟩ | ⟨x, hx, hburies⟩
    · rcases h'.runs k r' hr' with ⟨r'', hr'', hslot', hsettled'⟩ | ⟨x, hx, hburies⟩
      · refine Or.inl ⟨r'', hr'', ⟨hslot'.runId.trans hslot.runId, hslot'.taskId.trans hslot.taskId,
          hslot'.taskRevision.trans hslot.taskRevision,
          hslot'.scheduledFor.trans hslot.scheduledFor⟩, fun hdone => ?_⟩
        obtain ⟨rfl, hnext⟩ := hsettled hdone
        obtain ⟨hsame, hnext'⟩ := hsettled' hdone
        exact ⟨hsame, hnext'.trans hnext⟩
      · exact Or.inr ⟨x, hx, (Buries.of_slot hslot).mp hburies⟩
    · exact Or.inr ⟨x, h'.tombstones x hx, hburies⟩
  tombstones x hx := h'.tombstones x (h.tombstones x hx)

theorem ScheduledMove.occurrences (hm : ScheduledMove allowed s s') : OccurrencesKept s s' := by
  cases hm with
  | quiet _ hruns => exact .of_eq hruns
  | created _ _ _ _ _ hruns => exact .of_eq hruns
  | headed _ _ _ _ _ hruns => exact .of_eq hruns
  | claimed head r _ _ _ _ _ hnew hocc _ hnext htombs =>
    refine ⟨fun k x hx => Or.inl ⟨x, ?_, .refl x, fun _ => ⟨rfl, by rw [hnext]⟩⟩,
      fun x hx => htombs ▸ hx⟩
    have hother : r.runId ≠ k := by
      rintro rfl
      rw [hnew] at hx
      cases hx
    rw [hocc, if_neg hother]
    exact hx
  | kept r r' hocc hr _ hslot _ _ hnext htombs =>
    refine ⟨fun k x hx => ?_, fun x hx => htombs ▸ hx⟩
    rw [hocc.find?_eq, hnext]
    by_cases hk : k = r.runId
    · subst hk
      rw [hocc.before] at hx
      cases hx
      refine Or.inl ⟨r', if_pos rfl, hslot, fun hdone => ?_⟩
      rw [hr] at hdone
      cases hdone
    · exact Or.inl ⟨x, (if_neg hk).trans hx, .refl x, fun _ => ⟨rfl, rfl⟩⟩
  | settled head r r' d hocc hr _ hslot _ hd _ _ hnext _ _ htombs =>
    refine ⟨fun k x hx => ?_, fun x hx => htombs ▸ hx⟩
    rw [hocc.find?_eq, hnext, hd.runId]
    by_cases hk : k = r.runId
    · subst hk
      rw [hocc.before] at hx
      cases hx
      refine Or.inl ⟨r', if_pos rfl, hslot, fun hdone => ?_⟩
      rw [hr] at hdone
      cases hdone
    · exact Or.inl ⟨x, (if_neg hk).trans hx, .refl x, fun _ => ⟨rfl, if_neg (Ne.symm hk)⟩⟩
  | retired r tombstone _ hr _ _ hid hocc hnext htombs _ =>
    refine ⟨fun k x hx => ?_, fun x hx => htombs ▸ List.mem_cons_of_mem _ hx⟩
    rw [hocc, hnext]
    by_cases hk : r.runId = k
    · subst hk
      rw [hr] at hx
      cases hx
      exact Or.inr ⟨tombstone, htombs ▸ List.mem_cons_self, hid.1, hid.2.1, hid.2.2⟩
    · exact Or.inl ⟨x, (if_neg hk).trans hx, .refl x, fun _ => ⟨rfl, if_neg hk⟩⟩

theorem NoneRevived.of_eq (h : NoneRevived s) (hruns : SameRuns s s') : NoneRevived s' := by
  intro k r hr x hx
  exact h k r (hruns.occurrences ▸ hr) x (hruns.tombstones ▸ hx)

theorem NoneRevived.rewritten (h : NoneRevived s) {r r' : RunRow δ}
    (hocc : Rewrites s.occurrences s'.occurrences r.runId r r') (hslot : SameSlot r r')
    (htombs : s'.tombstones = s.tombstones) : NoneRevived s' := by
  intro k x hx tombstone htombstone
  rw [htombs] at htombstone
  rw [hocc.find?_eq] at hx
  split_ifs at hx
  · cases hx
    exact fun hburies => h _ r hocc.before _ htombstone ((Buries.of_slot hslot).mp hburies)
  · exact h k x hx _ htombstone

/-- A new run is at its head's slot, and all tombstones of that revision are before it. -/
theorem ScheduledMove.noneRevived (hsound : TaskSound s) (h : NoneRevived s)
    (hm : ScheduledMove allowed s s') : NoneRevived s' := by
  cases hm with
  | quiet _ hruns => exact h.of_eq hruns
  | created _ _ _ _ _ hruns => exact h.of_eq hruns
  | headed _ _ _ _ _ hruns => exact h.of_eq hruns
  | kept r r' hocc _ _ hslot _ _ _ htombs => exact h.rewritten hocc hslot htombs
  | settled _ r r' _ hocc _ _ hslot _ _ _ _ _ _ _ htombs => exact h.rewritten hocc hslot htombs
  | claimed head r hhead _ hat _ _ _ hocc _ _ htombs =>
    intro k x hx tombstone htombstone hburies
    rw [htombs] at htombstone
    rw [hocc] at hx
    split_ifs at hx
    · cases hx
      have hbehind := (hsound.heads _ head hhead _ hat.2).1.tombstones tombstone htombstone
        ⟨hburies.taskId.trans (taskId_of_find? hhead).symm, hburies.taskRevision.trans hat.1.symm⟩
      exact absurd hburies.scheduledFor hbehind.ne
    · exact h k x hx _ htombstone hburies
  | retired r tombstone _ hr _ _ hid hocc _ htombs _ =>
    intro k x hx buried hburied hburies
    rw [hocc] at hx
    split_ifs at hx with hk
    rw [htombs] at hburied
    rcases List.mem_cons.mp hburied with rfl | hburied
    · have hsame := slot_unique hx hr (hburies.taskId.symm.trans hid.1)
        (hburies.taskRevision.symm.trans hid.2.1) (hburies.scheduledFor.symm.trans hid.2.2)
      subst hsame
      exact hk (runId_of_find? hx)
    · exact h k x hx _ hburied hburies

theorem ScheduledMoves.occurrences (hsound : TaskSound s) (hrevived : NoneRevived s)
    (hm : ScheduledMoves outsideSeam s t) :
    TaskSound t ∧ NoneRevived t ∧ OccurrencesKept s t := by
  induction hm with
  | refl => exact ⟨hsound, hrevived, .refl s⟩
  | tail _ hstep ih =>
    exact ⟨hstep.sound id ih.1, hstep.noneRevived ih.1 ih.2.1, ih.2.2.trans hstep.occurrences⟩

theorem taskStep_occurrences (hcron : CronForward P) (h : SchedulerSound s) (hnone : NoneRevived s)
    {call : TaskCall δ} (hcall : CallTimely s call ∧ ProductionCall call) :
    NoneRevived (taskStep P H s call) ∧ OccurrencesKept s (taskStep P H s call) :=
  (ScheduledMoves.occurrences h.tasks hnone (taskStep_moves (H := H) hcron h.revisions h.tasks.due
    hcall.1 (productionCall_allowed hcall.2)).1).2

/-- Along every run of production calls: a settled run keeps its row and its next decision until it
is retired, and no run is ever again at a retired slot. -/
theorem occurrences_settle_once (hcron : CronForward P) (host : Ω)
    (first rest : List (TaskCall δ))
    (hcalls : Along (taskStep P H) (fun s call => CallTimely s call ∧ ProductionCall call)
      (ScheduledState.initial host) (first ++ rest)) :
    let s := run (taskStep P H) (ScheduledState.initial host) first
    let t := run (taskStep P H) s rest
    OccurrencesKept s t ∧
      ∀ x ∈ s.tombstones.rows, ∀ k r, t.occurrences.find? k = some r → ¬ Buries x r := by
  intro s t
  rw [along_append] at hcalls
  have hstep : ∀ x call, (SchedulerSound x ∧ NoneRevived x) →
      CallTimely x call ∧ ProductionCall call →
      SchedulerSound (taskStep P H x call) ∧ NoneRevived (taskStep P H x call) :=
    fun _ _ hx hcall =>
      ⟨(taskStep_sound hcron hx.1 hcall).1, (taskStep_occurrences hcron hx.1 hx.2 hcall).1⟩
  have hs : SchedulerSound s ∧ NoneRevived s := run_invariant (s := ScheduledState.initial host)
    hstep ⟨initial_scheduler host, fun _ _ h => by cases h⟩ hcalls.1
  have ht : SchedulerSound t ∧ NoneRevived t := run_invariant (s := s) hstep hs hcalls.2
  have hkept : OccurrencesKept s t := run_relates (s := s) OccurrencesKept.refl
    (fun _ _ _ => OccurrencesKept.trans) hstep
    (fun _ _ hx hcall => (taskStep_occurrences hcron hx.1 hx.2 hcall).2) hs hcalls.2
  exact ⟨hkept, fun x hx k r hr => ht.2 k r hr x (hkept.tombstones x hx)⟩

theorem occurrences_settle_once_sample :
    let s := run (taskStep samplePlatform sampleHost) (ScheduledState.initial ())
      [.create sampleTask, sampleClaimDue 1000 firstKey]
    let t := run (taskStep samplePlatform sampleHost) s [sampleComplete 1000 1001 firstKey]
    OccurrencesKept s t ∧
      ∀ x ∈ s.tombstones.rows, ∀ k r, t.occurrences.find? k = some r → ¬ Buries x r := by
  have hcron : CronForward samplePlatform := by
    intro expression timezone anchor c hc
    cases hc
  refine occurrences_settle_once hcron () [.create sampleTask, sampleClaimDue 1000 firstKey]
    [sampleComplete 1000 1001 firstKey]
    ⟨⟨trivial, trivial⟩, ⟨trivial, trivial⟩, ⟨?_, trivial⟩, trivial⟩
  exact settledAfterClaim_iff.mpr (by decide +kernel)

end Piclaw.Scheduled
