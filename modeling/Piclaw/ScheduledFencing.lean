import Piclaw.ScheduledOccurrences

/-!
# Leases are fenced

One claim visits a batch of candidates; of the runs that exist it takes over only those whose lease
has expired and for which it was given evidence, each once, and opens the others. A call of a worker
that does not hold the lease of its run leaves the schedule as it is. Both hold in every state.
-/

namespace Piclaw.Scheduled
open Relational
open Relational.Table (Rewrites)
variable {δ Ω : Type} [DecidableEq δ] {P : ScheduledPlatform δ} {H : ScheduledHost δ Ω}
  {s t u : ScheduledState δ Ω}

structure SameSchedule (s t : ScheduledState δ Ω) : Prop where
  tasks : t.tasks = s.tasks
  runs : SameRuns s t

section Claiming
variable {request : ClaimDueRunsRequest δ} {candidate : Candidate δ}
  {progress progress' : ClaimProgress δ Ω}

/-- The claim takes the run `r` over as `r'`, with evidence that suits its definition. -/
structure TakenOver (P : ScheduledPlatform δ) (s : ScheduledState δ Ω)
    (request : ClaimDueRunsRequest δ) (r r' : RunRow δ) : Prop where
  active : r.state.active = true
  expired : ∃ expires ∈ r.leaseExpiresAt, expires ≤ request.now
  authority : ∃ snapshot, readSnapshot P s r.taskId r.taskRevision = .ok snapshot ∧
    ∃ authority ∈ request.reclaimAuthorities, authority.runId = r.runId ∧
      authority.expectedAttempt.1 = r.attempt ∧
      (matchingAuthority snapshot.executionRepeatability (some authority)).isSome = true
  attempt : r'.attempt = r.attempt + 1
  workerId : r'.workerId = some request.workerId
  slot : SameSlot r r'

/-- What a claim does to one run. -/
inductive ClaimChange (P : ScheduledPlatform δ) (s : ScheduledState δ Ω)
    (request : ClaimDueRunsRequest δ) : Option (RunRow δ) → Option (RunRow δ) → Prop where
  | same (x : Option (RunRow δ)) : ClaimChange P s request x x
  | opened (r : RunRow δ) (hfirst : r.attempt = 1) (hholder : r.workerId = some request.workerId)
      (hnow : r.claimedAt = request.now) : ClaimChange P s request none (some r)
  | takenOver (r r' : RunRow δ) (hover : TakenOver P s request r r')
      (hnow : r'.claimedAt = request.now) : ClaimChange P s request (some r) (some r')

/-- A claim opens runs and takes runs over; everything else of the schedule stays. -/
structure ClaimStep (P : ScheduledPlatform δ) (request : ClaimDueRunsRequest δ)
    (s t : ScheduledState δ Ω) : Prop where
  tasks : t.tasks = s.tasks
  revisions : t.revisions = s.revisions
  next : t.next = s.next
  tombstones : t.tombstones = s.tombstones
  runs : ∀ k, ClaimChange P s request (s.occurrences.find? k) (t.occurrences.find? k)

theorem ClaimStep.refl (s : ScheduledState δ Ω) : ClaimStep P request s s :=
  ⟨rfl, rfl, rfl, rfl, fun _ => .same _⟩

theorem TakenOver.of_revisions {r r' : RunRow δ} (hover : TakenOver P t request r r')
    (h : t.revisions = s.revisions) : TakenOver P s request r r' := by
  obtain ⟨snapshot, hsnapshot, hevidence⟩ := hover.authority
  have hread : readSnapshot P s r.taskId r.taskRevision = .ok snapshot := by
    unfold readSnapshot at hsnapshot ⊢
    rw [← h]
    exact hsnapshot
  exact ⟨hover.active, hover.expired, ⟨snapshot, hread, hevidence⟩, hover.attempt, hover.workerId,
    hover.slot⟩

/-- A run that is taken over was not claimed by the same batch. -/
theorem TakenOver.before_now {k : δ} {r r' : RunRow δ} (hover : TakenOver P s request r r')
    (hr : t.occurrences.find? k = some r) : r.claimedAt ≠ request.now := by
  obtain ⟨expires, hexpires, hlt⟩ := active_lease hr hover.active
  obtain ⟨expired, hexpired, hle⟩ := hover.expired
  rw [hexpires] at hexpired
  cases hexpired
  exact (hlt.trans_le hle).ne

theorem ClaimStep.trans (h : ClaimStep P request s t) (h' : ClaimStep P request t u) :
    ClaimStep P request s u := by
  refine ⟨h'.tasks.trans h.tasks, h'.revisions.trans h.revisions, h'.next.trans h.next,
    h'.tombstones.trans h.tombstones, ?_⟩
  intro k
  have hfirst := h.runs k
  have hsecond := h'.runs k
  generalize s.occurrences.find? k = x at hfirst ⊢
  generalize hy : t.occurrences.find? k = y at hfirst hsecond
  generalize u.occurrences.find? k = z at hsecond ⊢
  cases hsecond with
  | same => exact hfirst
  | opened r hattempt hholder hnow =>
    cases hfirst
    exact .opened r hattempt hholder hnow
  | takenOver r r' hover hnow =>
    cases hfirst with
    | same => exact .takenOver r r' (hover.of_revisions h.revisions) hnow
    | opened _ _ _ hnow' => exact absurd hnow' (hover.before_now hy)
    | takenOver _ _ _ hnow' => exact absurd hnow' (hover.before_now hy)

theorem claimNew_step (h : claimNew P H request candidate progress = .ok progress') :
    ClaimStep P request progress.state progress'.state := by
  unfold claimNew at h
  dsimp only at h
  split at h
  · cases h
    exact .refl _
  · split_ifs at h
    · cases h
      exact .refl _
    obtain ⟨existing, -, h⟩ := bind_eq_ok.mp h
    obtain ⟨tombstone, -, h⟩ := bind_eq_ok.mp h
    split_ifs at h
    · cases h
      exact .refl _
    obtain ⟨snapshot, -, h⟩ := bind_eq_ok.mp h
    obtain ⟨expires, -, h⟩ := bind_eq_ok.mp h
    obtain ⟨occurrences, hinsert, h⟩ := require_bind.mp h
    obtain ⟨leases, -, h⟩ := require_bind.mp h
    rw [grantLease_state h]
    refine ⟨rfl, rfl, rfl, rfl, ?_⟩
    intro k
    change ClaimChange P _ request _ (occurrences.find? k)
    rw [Table.find?_insert? hinsert]
    split_ifs with hk
    · rw [← hk, (Table.insert?_fresh hinsert).1]
      exact .opened _ rfl rfl rfl
    · exact .same _

theorem claimExpired_step (h : claimExpired P H request candidate progress = .ok progress') :
    ClaimStep P request progress.state progress'.state := by
  unfold claimExpired at h
  dsimp only at h
  split at h
  · cases h
    exact .refl _
  obtain ⟨found, hfound, h⟩ := bind_eq_ok.mp h
  cases found with
  | none =>
    cases h
    exact .refl _
  | some run =>
    dsimp only at h
    split_ifs at h
    · cases h
      exact .refl _
    obtain ⟨snapshot, hsnapshot, h⟩ := bind_eq_ok.mp h
    split at h
    · cases h
      exact .refl _
    rename_i hmatching
    obtain ⟨-, h⟩ := ensure_bind_eq_ok.mp h
    obtain ⟨expires, -, h⟩ := bind_eq_ok.mp h
    obtain ⟨⟨occurrences, changes⟩, hupdate, h⟩ := require_bind.mp h
    dsimp only at h
    split_ifs at h with hchanges
    · cases h
      exact .refl _
    rw [not_not] at hchanges
    subst hchanges
    obtain ⟨leases, -, h⟩ := require_bind.mp h
    rw [grantLease_state h]
    obtain ⟨row, hrow, hrewrites⟩ := occurrences_rewrites run.runId hupdate
      (fun r hr => by
        simp only [Bool.and_eq_true, decide_eq_true_eq] at hr
        exact hr.1.1.1)
      (fun _ => rfl)
    simp only [Bool.and_eq_true, decide_eq_true_eq, Option.any_eq_true] at hrow
    obtain ⟨⟨⟨hid, -⟩, hactive⟩, hexpired⟩ := hrow
    have hrun : row = run := by
      have hstored := (readRunRow_eq_some hfound).1
      have hbefore := hrewrites.before
      rw [hid, runId_of_find? hstored, hstored] at hbefore
      exact (Option.some.inj hbefore).symm
    subst hrun
    refine ⟨rfl, rfl, rfl, rfl, ?_⟩
    intro k
    change ClaimChange P _ request _ (occurrences.find? k)
    rw [hrewrites.find?_eq]
    split_ifs with hk
    · rw [hk, hrewrites.before]
      refine .takenOver row _ ⟨hactive, hexpired, ⟨snapshot, hsnapshot, ?_⟩, rfl, rfl,
        ⟨rfl, rfl, rfl, rfl⟩⟩ rfl
      generalize hfind : request.reclaimAuthorities.find? _ = authority at hmatching
      cases authority with
      | none => cases hmatching
      | some authority =>
        have hmatches := List.find?_some hfind
        simp only [Bool.and_eq_true, decide_eq_true_eq] at hmatches
        exact ⟨authority, List.mem_of_find?_eq_some hfind, hmatches.1, hmatches.2,
          by rw [hmatching]; rfl⟩
    · exact .same _

theorem claimCandidates_step {candidates : List (Candidate δ)}
    (h : claimCandidates P H request candidates progress = .ok progress') :
    ClaimStep P request progress.state progress'.state := by
  induction candidates generalizing progress with
  | nil =>
    cases h
    exact .refl _
  | cons candidate candidates ih =>
    unfold claimCandidates at h
    split_ifs at h
    · cases h
      exact .refl _
    obtain ⟨next, hnext, h⟩ := bind_eq_ok.mp h
    refine ClaimStep.trans ?_ (ih h)
    unfold claimCandidate at hnext
    split at hnext
    · exact claimNew_step hnext
    · exact claimExpired_step hnext

theorem claim_step {answer : ScheduledAnswer δ} (h : claim P H request s = .ok (answer, t)) :
    ClaimStep P request s t := by
  unfold claim at h
  dsimp only at h
  obtain ⟨stored, -, h⟩ := bind_eq_ok.mp h
  cases stored with
  | some stored =>
    obtain ⟨_, -, h⟩ := bind_eq_ok.mp h
    cases h
    exact .refl _
  | none =>
    obtain ⟨progress, hprogress, h⟩ := bind_eq_ok.mp h
    obtain ⟨t', hwrite, h⟩ := bind_eq_ok.mp h
    cases h
    unfold writeDecision at hwrite
    obtain ⟨-, hwrite⟩ := ensure_bind_eq_ok.mp hwrite
    obtain ⟨decisions, -, hwrite⟩ := require_bind.mp hwrite
    cases hwrite
    exact (claimCandidates_step hprogress).trans ⟨rfl, rfl, rfl, rfl, fun _ => .same _⟩

end Claiming

section Fenced
variable {answer : ScheduledAnswer δ}

/-- The fence of a request that is made under a lease. -/
def fenceOf : ScheduledRequest δ → Option (Fence δ)
  | .renew request => some request.toFence
  | .bindAcceptedSource request => some request.toFence
  | .complete request => some request.toFence
  | .abandon request => some request.toFence
  | _ => none

/-- The lease of `r` is held under `fence`. -/
structure HeldUnder (P : ScheduledPlatform δ) (fence : Fence δ) (r : RunRow δ) : Prop where
  active : r.state.active = true
  taskRevision : r.taskRevision = fence.expectedTaskRevision
  workerId : r.workerId = some fence.workerId
  attempt : r.attempt = fence.expectedAttempt.1
  token : r.leaseTokenHash = some (P.hashScheduledLeaseToken fence.leaseToken.1)
  live : ∃ expires ∈ r.leaseExpiresAt, fence.now < expires

/-- No run is held under `fence`. -/
def NoneHeld (P : ScheduledPlatform δ) (s : ScheduledState δ Ω) (fence : Fence δ) : Prop :=
  ∀ r, s.occurrences.find? fence.runId = some r → ¬ HeldUnder P fence r

theorem NoneHeld.refused {fence : Fence δ} {run : RunRow δ} (hnot : NoneHeld P s fence) :
    requireFencedRun P H s fence (P.hashScheduledLeaseToken fence.leaseToken.1) ≠ .ok run := by
  intro h
  obtain ⟨hstored, hid, hactive, hrevision, hworker, hattempt, htoken, hlive⟩ :=
    requireFencedRun_eq_ok h
  exact hnot run (hid ▸ hstored) ⟨hactive, hrevision, hworker, hattempt, htoken, hlive⟩

omit [DecidableEq δ] in
theorem projectTask_same {taskId : ScheduledId} {runId : δ}
    (h : projectTask H s taskId runId = .ok t) : SameSchedule s t := by
  unfold projectTask at h
  obtain ⟨host, -, h⟩ := bind_eq_ok.mp h
  cases h
  exact ⟨rfl, rfl, rfl, rfl⟩

theorem projectPayload_same {request : CompleteScheduledRunRequest δ} {taskId : ScheduledId}
    {projects : Bool} (h : projectPayload H s request taskId projects = .ok t) :
    SameSchedule s t := by
  unfold projectPayload at h
  split_ifs at h
  · unfold projectHistory at h
    obtain ⟨host, -, h⟩ := bind_eq_ok.mp h
    obtain ⟨htasks, hruns⟩ := projectTask_same h
    exact ⟨htasks, hruns.occurrences, hruns.next, hruns.tombstones⟩
  · cases h
    exact ⟨rfl, .refl s⟩

/-- Without the lease a call can only replay what was committed before. -/
theorem transaction_unheld {runtime : ScheduledRuntime} {request : ScheduledRequest δ}
    {fence : Fence δ} (hfence : fenceOf request = some fence) (hnot : NoneHeld P s fence)
    (h : transaction P H runtime request s = .ok (answer, t)) : SameSchedule s t := by
  cases request with
  | claimDue request => cases hfence
  | cleanupTerminal request => cases hfence
  | applyRetention plan => cases hfence
  | renew request =>
    cases hfence
    change renewLease P H request runtime.liveRenewalNow s = _ at h
    unfold renewLease at h
    obtain ⟨stored, -, h⟩ := bind_eq_ok.mp h
    rcases stored with _ | (_ | saved | _)
    · obtain ⟨run, hfenced, -⟩ := bind_eq_ok.mp h
      exact absurd hfenced hnot.refused
    · cases h
    · rw [renewReplayed_state h]
      exact ⟨rfl, .refl s⟩
    · cases h
  | bindAcceptedSource request =>
    cases hfence
    change Scheduled.bind P H request s = _ at h
    unfold Scheduled.bind at h
    obtain ⟨replayed, -, h⟩ := bind_eq_ok.mp h
    cases replayed with
    | none =>
      obtain ⟨run, hfenced, -⟩ := bind_eq_ok.mp h
      exact absurd hfenced hnot.refused
    | some record =>
      cases h
      exact ⟨rfl, .refl s⟩
  | complete request =>
    cases hfence
    change completeRun P H request s = _ at h
    unfold completeRun at h
    obtain ⟨replayed, -, h⟩ := bind_eq_ok.mp h
    cases replayed with
    | none =>
      obtain ⟨run, hfenced, -⟩ := bind_eq_ok.mp h
      exact absurd hfenced hnot.refused
    | some record =>
      obtain ⟨s₁, hproject, h⟩ := bind_eq_ok.mp h
      obtain ⟨s₂, hhistory, h⟩ := bind_eq_ok.mp h
      cases h
      obtain ⟨htasks, hruns⟩ := projectTask_same hproject
      obtain ⟨htasks', hruns'⟩ := projectPayload_same hhistory
      exact ⟨htasks'.trans htasks, hruns'.occurrences.trans hruns.occurrences,
        hruns'.next.trans hruns.next, hruns'.tombstones.trans hruns.tombstones⟩
  | abandon request =>
    cases hfence
    change abandonRun P H request s = _ at h
    unfold abandonRun at h
    obtain ⟨replayed, -, h⟩ := bind_eq_ok.mp h
    cases replayed with
    | none =>
      obtain ⟨run, hfenced, -⟩ := bind_eq_ok.mp h
      exact absurd hfenced hnot.refused
    | some record =>
      obtain ⟨s₁, hproject, h⟩ := bind_eq_ok.mp h
      cases h
      exact projectTask_same hproject

end Fenced

/-- In every state: a claim opens runs and takes over, once each, runs whose lease has expired; and
a call of a worker that does not hold the lease of its run leaves the schedule as it is. -/
theorem leases_fenced (s : ScheduledState δ Ω) (runtime : ScheduledRuntime)
    (request : ScheduledRequest δ) :
    let t := taskStep P H s (.mutation runtime (some request))
    (∀ claim, request = .claimDue claim → ClaimStep P claim s t) ∧
      ∀ fence, fenceOf request = some fence → NoneHeld P s fence → SameSchedule s t := by
  intro t
  rcases mutate_state (P := P) (H := H) runtime request s with hsame | ⟨-, answer, h⟩
  · have ht : t = s := hsame
    rw [ht]
    exact ⟨fun _ _ => .refl s, fun _ _ _ => ⟨rfl, .refl s⟩⟩
  · refine ⟨?_, fun fence hfence hnot => transaction_unheld hfence hnot h⟩
    rintro claim rfl
    exact claim_step h

end Piclaw.Scheduled
