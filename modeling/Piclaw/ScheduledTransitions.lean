import Piclaw.ScheduledMoves

/-!
# Every scheduler call is a sequence of moves

One lemma for each mutation of the run store and each change of a head reads a successful
transaction as moves. The stored revisions are `Sound` when each keeps the snapshot of its own
key; only the owner of a definition writes them.
-/

namespace Piclaw.Scheduled
open Relational
open Relational.Table (Rewrites)
variable {δ Ω : Type} [DecidableEq δ] {P : ScheduledPlatform δ} {H : ScheduledHost δ Ω}
  {s s' t u : ScheduledState δ Ω} {allowed : MoveKind → Prop}

def RevisionsSound (s : ScheduledState δ Ω) : Prop :=
  ∀ k row, s.revisions.find? k = some row → row.snapshot.revision = k.2

/-- A sequence of moves that leaves the revisions alone. -/
structure Moved (allowed : MoveKind → Prop) (s t : ScheduledState δ Ω) : Prop where
  moves : ScheduledMoves allowed s t
  revisions : t.revisions = s.revisions

theorem Moved.refl (s : ScheduledState δ Ω) : Moved allowed s s := ⟨.refl, rfl⟩

theorem Moved.trans (h : Moved allowed s t) (h' : Moved allowed t u) : Moved allowed s u :=
  ⟨h.moves.trans h'.moves, h'.revisions.trans h.revisions⟩

theorem Moved.quiet (htasks : t.tasks = s.tasks) (hruns : SameRuns s t)
    (hrevisions : t.revisions = s.revisions) : Moved allowed s t :=
  ⟨.quiet htasks hruns, hrevisions⟩

theorem RevisionsSound.of_eq (h : RevisionsSound s) (heq : t.revisions = s.revisions) :
    RevisionsSound t := by
  intro k row hrow
  rw [heq] at hrow
  exact h k row hrow

theorem RevisionsSound.snapshot (h : RevisionsSound s) {taskId : ScheduledId}
    {revision : PositiveInteger} {snapshot : ScheduledTaskSnapshot δ}
    (hread : readSnapshot P s taskId revision = .ok snapshot) : snapshot.revision = revision := by
  obtain ⟨row, hrow, rfl⟩ := readSnapshot_eq_ok hread
  exact h _ row hrow

/-- A guarded statement that changed one run rewrote it in place. -/
theorem occurrences_rewrites (runId : δ) {p : RunRow δ → Bool} {f : RunRow δ → RunRow δ}
    {occurrences : Table (occurrenceSchema δ)}
    (h : s.occurrences.update? p f = some (occurrences, 1)) (hp : ∀ r, p r = true → r.runId = runId)
    (hf : ∀ r, (f r).runId = r.runId) :
    ∃ r, p r = true ∧ Rewrites s.occurrences occurrences r.runId r (f r) := by
  obtain ⟨r, hr, hrewrites⟩ := Table.rewrites_of_update? hp (fun r _ => hf r) h
  have hid : r.runId = runId := hp r hr
  exact ⟨r, hr, hid.symm ▸ hrewrites⟩

section Claiming
variable {request : ClaimDueRunsRequest δ} {candidate : Candidate δ}
  {progress progress' : ClaimProgress δ Ω}

theorem writeDecision_moved {row : RunDecisionRow δ} (h : writeDecision P s row = .ok t) :
    Moved allowed s t := by
  unfold writeDecision at h
  rw [ensure_bind_eq_ok, require_bind] at h
  obtain ⟨-, decisions, -, h⟩ := h
  cases h
  exact .quiet rfl ⟨rfl, rfl, rfl⟩ rfl

theorem grantLease_state {runId : δ} {attempt : ℕ} {state : RunState}
    {snapshot : ScheduledTaskSnapshot δ} {token : ScheduledRef}
    (h : grantLease P H progress s runId attempt state snapshot token = .ok progress') :
    progress'.state = s := by
  unfold grantLease at h
  obtain ⟨_, -, h⟩ := bind_eq_ok.mp h
  obtain ⟨_, -, h⟩ := bind_eq_ok.mp h
  cases h
  rfl

theorem claimNew_moved (hrev : RevisionsSound progress.state)
    (hdue : candidate.scheduledFor ≤ request.now)
    (h : claimNew P H request candidate progress = .ok progress') :
    Moved allowed progress.state progress'.state := by
  unfold claimNew at h
  dsimp only at h
  split at h
  · cases h
    exact .refl _
  · rename_i head hhead
    split_ifs at h with hskip
    · cases h
      exact .refl _
    rw [not_or, not_not, not_not] at hskip
    obtain ⟨existing, hexisting, h⟩ := bind_eq_ok.mp h
    obtain ⟨tombstone, -, h⟩ := bind_eq_ok.mp h
    split_ifs at h with hknown
    · cases h
      exact .refl _
    obtain ⟨snapshot, hsnapshot, h⟩ := bind_eq_ok.mp h
    obtain ⟨expires, -, h⟩ := bind_eq_ok.mp h
    rw [require_bind] at h
    obtain ⟨occurrences, hinsert, h⟩ := h
    rw [require_bind] at h
    obtain ⟨leases, -, h⟩ := h
    rw [grantLease_state h]
    refine ⟨.single ?_, rfl⟩
    exact .claimed head (newRun request candidate snapshot _ _ expires) hhead hskip.1
      ⟨(hrev.snapshot hsnapshot).symm, hskip.2⟩ rfl hdue (Table.insert?_fresh hinsert).1
      (Table.find?_insert? hinsert) rfl rfl rfl

theorem active_lease {r : RunRow δ} {k : δ} (hr : s.occurrences.find? k = some r)
    (hactive : r.state.active = true) :
    ∃ expires, r.leaseExpiresAt = some expires ∧ r.claimedAt < expires := by
  have hcheck : r.check := Table.check_of_find? hr
  rcases hcheck.2.2.1 with ⟨-, h⟩ | ⟨h, -⟩ | ⟨h, -⟩
  · obtain ⟨expires, hexpires, hlt⟩ := h.2.2.1
    exact ⟨expires, hexpires, hlt⟩
  · rw [h] at hactive
    cases hactive
  · rw [h] at hactive
    cases hactive

theorem claimExpired_moved (h : claimExpired P H request candidate progress = .ok progress') :
    Moved allowed progress.state progress'.state := by
  unfold claimExpired at h
  dsimp only at h
  split at h
  · cases h
    exact .refl _
  · rename_i runId hrunId
    obtain ⟨found, hfound, h⟩ := bind_eq_ok.mp h
    cases found with
    | none =>
      cases h
      exact .refl _
    | some run =>
      dsimp only at h
      split_ifs at h with hlive
      · cases h
        exact .refl _
      obtain ⟨snapshot, -, h⟩ := bind_eq_ok.mp h
      split at h
      · cases h
        exact .refl _
      rw [ensure_bind_eq_ok] at h
      obtain ⟨-, h⟩ := h
      obtain ⟨expires, -, h⟩ := bind_eq_ok.mp h
      rw [require_bind] at h
      obtain ⟨⟨occurrences, changes⟩, hupdate, h⟩ := h
      dsimp only at h
      split_ifs at h with hchanges
      · cases h
        exact .refl _
      rw [not_not] at hchanges
      subst hchanges
      rw [require_bind] at h
      obtain ⟨leases, -, h⟩ := h
      rw [grantLease_state h]
      obtain ⟨row, hrow, hrewrites⟩ := occurrences_rewrites run.runId hupdate
        (fun r hr => by
          simp only [Bool.and_eq_true, decide_eq_true_eq] at hr
          exact hr.1.1.1)
        (fun _ => rfl)
      simp only [Bool.and_eq_true, decide_eq_true_eq] at hrow
      obtain ⟨⟨-, hactive⟩, hexpired⟩ := hrow
      have hstored := hrewrites.before
      obtain ⟨previous, hprevious, hlt⟩ := active_lease hstored hactive
      rw [hprevious] at hexpired
      simp only [Option.any_some, decide_eq_true_eq] at hexpired
      refine ⟨.single ?_, rfl⟩
      exact .kept row _ hrewrites hactive hactive ⟨rfl, rfl, rfl, rfl⟩
        (hlt.le.trans hexpired) rfl rfl rfl

theorem claimCandidates_moved {candidates : List (Candidate δ)}
    (hdue : ∀ c ∈ candidates, c.kind = .new → c.scheduledFor ≤ request.now)
    (hrev : RevisionsSound progress.state)
    (h : claimCandidates P H request candidates progress = .ok progress') :
    Moved allowed progress.state progress'.state := by
  induction candidates generalizing progress with
  | nil =>
    cases h
    exact .refl _
  | cons candidate candidates ih =>
    unfold claimCandidates at h
    split_ifs at h with hlimit
    · cases h
      exact .refl _
    obtain ⟨next, hnext, h⟩ := bind_eq_ok.mp h
    have hfirst : Moved allowed progress.state next.state := by
      unfold claimCandidate at hnext
      split at hnext
      · rename_i hkind
        exact claimNew_moved hrev (hdue _ List.mem_cons_self hkind) hnext
      · exact claimExpired_moved hnext
    have hrest := ih (fun c hc => hdue c (List.mem_cons_of_mem _ hc))
      (hrev.of_eq hfirst.revisions) h
    exact hfirst.trans hrest

omit [DecidableEq δ] in
theorem dueCandidates_due {now : CanonicalInstant} {c : Candidate δ}
    (hc : c ∈ dueCandidates s now) : c.scheduledFor ≤ now := by
  unfold dueCandidates at hc
  have hmem := List.mem_of_mem_take hc
  rw [List.mem_insertionSort, List.mem_filterMap] at hmem
  obtain ⟨head, -, hhead⟩ := hmem
  unfold dueCandidate at hhead
  split at hhead
  · cases hhead
  · split_ifs at hhead with hcond
    cases hhead
    exact hcond.2.1

theorem expiredCandidates_kind {now : CanonicalInstant} {authorities : List (ReclaimAuthority δ)}
    {c : Candidate δ} (hc : c ∈ expiredCandidates P s now authorities) : c.kind = .expired := by
  unfold expiredCandidates at hc
  rw [List.mem_insertionSort, List.mem_filterMap] at hc
  obtain ⟨authority, -, hauthority⟩ := hc
  unfold expiredCandidate at hauthority
  split at hauthority
  · cases hauthority
  · split_ifs at hauthority
    cases hauthority
    rfl

theorem claim_moved {answer : ScheduledAnswer δ} (hrev : RevisionsSound s)
    (h : claim P H request s = .ok (answer, t)) : Moved allowed s t := by
  unfold claim at h
  dsimp only at h
  obtain ⟨stored, -, h⟩ := bind_eq_ok.mp h
  cases stored with
  | some stored =>
    obtain ⟨_, -, h⟩ := bind_eq_ok.mp h
    cases h
    exact .refl _
  | none =>
    obtain ⟨progress, hprogress, h⟩ := bind_eq_ok.mp h
    obtain ⟨t', hwrite, h⟩ := bind_eq_ok.mp h
    cases h
    refine (claimCandidates_moved ?_ hrev hprogress).trans (writeDecision_moved hwrite)
    intro c hc hkind
    rw [List.mem_insertionSort, List.mem_append] at hc
    rcases hc with hc | hc
    · exact dueCandidates_due hc
    · rw [expiredCandidates_kind hc] at hkind
      cases hkind

end Claiming

section Leases

theorem renewReplayed_state {request : RenewScheduledRunRequest δ} {tokenHash : δ}
    {saved : ScheduledRunRecord δ} {answer : ScheduledAnswer δ}
    (h : renewReplayed P H request tokenHash saved s = .ok (answer, t)) : t = s := by
  unfold renewReplayed at h
  obtain ⟨-, h⟩ := ensure_bind_eq_ok.mp h
  obtain ⟨found, -, h⟩ := bind_eq_ok.mp h
  cases found with
  | none =>
    obtain ⟨tombstone, -, h⟩ := bind_eq_ok.mp h
    split_ifs at h <;> cases h
  | some run =>
    obtain ⟨-, h⟩ := ensure_bind_eq_ok.mp h
    obtain ⟨record, -, h⟩ := bind_eq_ok.mp h
    obtain ⟨current, -, h⟩ := bind_eq_ok.mp h
    obtain ⟨-, h⟩ := ensure_bind_eq_ok.mp h
    obtain ⟨-, h⟩ := ensure_bind_eq_ok.mp h
    obtain ⟨_, -, h⟩ := bind_eq_ok.mp h
    cases h
    rfl

theorem leased_runId {request : Fence δ} {tokenHash : δ} {r : RunRow δ}
    (h : leased request tokenHash r = true) : r.runId = request.runId := by
  simp only [leased, Bool.and_eq_true, decide_eq_true_eq] at h
  exact h.1.1.1

theorem renewLease_moved {request : RenewScheduledRunRequest δ}
    {liveNow : Option CanonicalInstant × Option CanonicalInstant} {answer : ScheduledAnswer δ}
    (h : renewLease P H request liveNow s = .ok (answer, t)) : Moved allowed s t := by
  unfold renewLease at h
  dsimp only at h
  obtain ⟨stored, -, h⟩ := bind_eq_ok.mp h
  rcases stored with _ | (_ | saved | _)
  · obtain ⟨run, -, h⟩ := bind_eq_ok.mp h
    split at h
    · cases h
    · obtain ⟨-, h⟩ := ensure_bind_eq_ok.mp h
      obtain ⟨-, h⟩ := ensure_bind_eq_ok.mp h
      obtain ⟨-, h⟩ := ensure_bind_eq_ok.mp h
      obtain ⟨renewals, -, h⟩ := require_bind.mp h
      obtain ⟨⟨leases, renewed⟩, -, h⟩ := require_bind.mp h
      obtain ⟨-, h⟩ := ensure_bind_eq_ok.mp h
      obtain ⟨⟨occurrences, changes⟩, hupdate, h⟩ := require_bind.mp h
      dsimp only at h
      obtain ⟨hchanges, h⟩ := ensure_bind_eq_ok.mp h
      obtain ⟨read, -, h⟩ := bind_eq_ok.mp h
      obtain ⟨record, -, h⟩ := bind_eq_ok.mp h
      obtain ⟨snapshot, -, h⟩ := bind_eq_ok.mp h
      obtain ⟨t', hwrite, h⟩ := bind_eq_ok.mp h
      obtain ⟨-, h⟩ := ensure_bind_eq_ok.mp h
      cases h
      rw [decide_eq_true_eq] at hchanges
      subst hchanges
      obtain ⟨row, hrow, hrewrites⟩ := occurrences_rewrites request.runId hupdate
        (fun r hr => by
          simp only [Bool.and_eq_true] at hr
          exact leased_runId hr.1.1.1.1)
        (fun _ => rfl)
      simp only [Bool.and_eq_true] at hrow
      refine Moved.trans ?_ (writeDecision_moved hwrite)
      refine ⟨.single ?_, rfl⟩
      exact .kept row _ hrewrites hrow.2 hrow.2 ⟨rfl, rfl, rfl, rfl⟩ le_rfl rfl rfl rfl
  · cases h
  · rw [renewReplayed_state h]
    exact .refl s
  · cases h

theorem bind_moved {request : BindScheduledSourceRequest δ} {answer : ScheduledAnswer δ}
    (h : bind P H request s = .ok (answer, t)) : Moved allowed s t := by
  unfold Scheduled.bind at h
  dsimp only at h
  obtain ⟨stored, -, h⟩ := bind_eq_ok.mp h
  cases stored with
  | some record =>
    cases h
    exact .refl _
  | none =>
    obtain ⟨run, -, h⟩ := bind_eq_ok.mp h
    obtain ⟨snapshot, -, h⟩ := bind_eq_ok.mp h
    obtain ⟨-, h⟩ := ensure_bind_eq_ok.mp h
    obtain ⟨-, h⟩ := ensure_bind_eq_ok.mp h
    obtain ⟨-, h⟩ := ensure_bind_eq_ok.mp h
    obtain ⟨owner, -, h⟩ := require_bind.mp h
    obtain ⟨-, h⟩ := ensure_bind_eq_ok.mp h
    obtain ⟨bindings, -, h⟩ := require_bind.mp h
    obtain ⟨⟨occurrences, changes⟩, hupdate, h⟩ := require_bind.mp h
    dsimp only at h
    obtain ⟨hchanges, h⟩ := ensure_bind_eq_ok.mp h
    obtain ⟨record, -, h⟩ := bind_eq_ok.mp h
    obtain ⟨t', hwrite, h⟩ := bind_eq_ok.mp h
    cases h
    rw [decide_eq_true_eq] at hchanges
    subst hchanges
    obtain ⟨row, hrow, hrewrites⟩ := occurrences_rewrites request.runId hupdate
      (fun r hr => by
        simp only [Bool.and_eq_true] at hr
        exact leased_runId hr.1)
      (fun _ => rfl)
    simp only [Bool.and_eq_true, decide_eq_true_eq] at hrow
    refine Moved.trans ?_ (writeDecision_moved hwrite)
    refine ⟨.single ?_, rfl⟩
    exact .kept row _ hrewrites (by rw [hrow.2]; rfl) rfl ⟨rfl, rfl, rfl, rfl⟩ le_rfl rfl rfl rfl

end Leases

section Heads

omit [DecidableEq δ] in
theorem writeHead_created {next : ScheduledTaskHead} {changed : Bool}
    (h : writeScheduledTaskHead s none next = .ok (changed, t)) :
    s.tasks.find? next.taskId = none ∧
      (∀ k, t.tasks.find? k = if next.taskId = k then some next else s.tasks.find? k) ∧
      SameRuns s t ∧ t.revisions = s.revisions := by
  unfold writeScheduledTaskHead at h
  obtain ⟨tasks, hinsert, h⟩ := require_bind.mp h
  cases h
  exact ⟨(Table.insert?_fresh hinsert).1, Table.find?_insert? hinsert, ⟨rfl, rfl, rfl⟩, rfl⟩

omit [DecidableEq δ] in
theorem writeHead_rewrites {previous next : ScheduledTaskHead}
    (h : writeScheduledTaskHead s (some previous) next = .ok (true, t)) :
    Rewrites s.tasks t.tasks previous.taskId previous next ∧ next.taskId = previous.taskId ∧
      SameRuns s t ∧ t.revisions = s.revisions := by
  unfold writeScheduledTaskHead at h
  dsimp only at h
  obtain ⟨hnext, h⟩ := ensure_bind_eq_ok.mp h
  obtain ⟨⟨tasks, changes⟩, hupdate, h⟩ := require_bind.mp h
  simp only [Except.ok.injEq, Prod.mk.injEq, decide_eq_true_eq] at h
  obtain ⟨rfl, rfl⟩ := h
  simp only [Bool.and_eq_true, decide_eq_true_eq] at hnext
  have hp : ∀ r : ScheduledTaskHead, decide (r = previous) = true →
      taskSchema.key r = previous.taskId := by
    intro r hr
    rw [decide_eq_true_eq] at hr
    rw [hr]
    rfl
  obtain ⟨row, hrow, hrewrites⟩ := Table.rewrites_of_update? hp (by intro r _; rfl) hupdate
  rw [decide_eq_true_eq] at hrow
  subst hrow
  refine ⟨?_, hnext.1, ⟨rfl, rfl, rfl⟩, rfl⟩
  have heq : ScheduledTaskHead.mk row.taskId next.revision next.status next.nextRunAt = next := by
    rw [← hnext.1]
  exact heq ▸ hrewrites

end Heads

section Settling
variable {run : RunRow δ} {snapshot : ScheduledTaskSnapshot δ} {decision : HeadDecision}
  {settledAt : CanonicalInstant} {retryAt : Option CanonicalInstant}

omit [DecidableEq δ] in
/-- The three outcomes of deciding where a settled run's head goes. -/
theorem decideHead_eq_ok (h : decideHead P s run snapshot settledAt retryAt = .ok decision) :
    decision.computed = retryAt.or (computeScheduledSuccessor P snapshot run.scheduledFor settledAt) ∧
      ∃ head, s.tasks.find? run.taskId = some head ∧
        ((head.status = .active ∧ PointsAt head run ∧ decision.disposition = .advanced ∧
            decision.effectiveNext = decision.computed) ∨
          (head.status = .paused ∧ PointsAt head run ∧ decision.disposition = .paused) ∨
          ((head.status = .deleted ∨ ¬ PointsAt head run) ∧ decision.disposition ≠ .advanced ∧
            decision.disposition ≠ .paused)) := by
  unfold decideHead at h
  dsimp only at h
  obtain ⟨-, h⟩ := ensure_bind_eq_ok.mp h
  split at h
  · cases h
  · rename_i head hhead
    split_ifs at h with hdeleted haway
    · cases h
      exact ⟨rfl, head, hhead, .inr (.inr ⟨.inl hdeleted, by simp, by simp⟩)⟩
    · cases h
      refine ⟨rfl, head, hhead, .inr (.inr ⟨.inr ?_, by simp, by simp⟩)⟩
      rintro ⟨hrev, hslot⟩
      rcases haway with haway | haway
      · exact haway hrev
      · exact haway hslot
    · simp only [not_or, not_not] at haway
      split at h
      · rename_i hstatus
        cases h
        exact ⟨rfl, head, hhead, .inr (.inl ⟨hstatus, haway, rfl⟩)⟩
      · rename_i hstatus
        cases h
        exact ⟨rfl, head, hhead, .inl ⟨hstatus, haway, rfl, rfl⟩⟩
      · cases h

theorem applyHeadDecision_settles {head : ScheduledTaskHead} {d : NextDecisionRow δ}
    (hhead : s.tasks.find? run.taskId = some head)
    (hd : d.headDisposition = decision.disposition) (hcomputed : d.computedNextRunAt = decision.computed)
    (hcases : (head.status = .active ∧ PointsAt head run ∧ decision.disposition = .advanced ∧
        decision.effectiveNext = decision.computed) ∨
      (head.status = .paused ∧ PointsAt head run ∧ decision.disposition = .paused) ∨
      ((head.status = .deleted ∨ ¬ PointsAt head run) ∧ decision.disposition ≠ .advanced ∧
        decision.disposition ≠ .paused))
    (h : applyHeadDecision s run decision = .ok t) :
    HeadSettles s t head run d ∧ SameRuns s t ∧ t.revisions = s.revisions := by
  unfold applyHeadDecision at h
  rcases hcases with ⟨hactive, hat, hdisposition, heffective⟩ | ⟨hpaused, hat, hdisposition⟩ |
      ⟨haway, hadvanced, hnotPaused⟩
  · rw [if_neg (by rw [hdisposition]; simp)] at h
    obtain ⟨⟨changed, t'⟩, hwrite, h⟩ := bind_eq_ok.mp h
    obtain ⟨hchanged, h⟩ := ensure_bind_eq_ok.mp h
    cases h
    cases hchanged
    obtain ⟨hrewrites, -, hruns, hrevisions⟩ := writeHead_rewrites hwrite
    have hprev : head = ⟨run.taskId, run.taskRevision, .active, some run.scheduledFor⟩ := by
      have hbefore := hrewrites.before
      rw [hhead] at hbefore
      exact Option.some.inj hbefore
    refine ⟨.advanced _ hactive hat (hd.trans hdisposition) rfl ?_, hruns, hrevisions⟩
    rw [hprev, hcomputed, ← heffective]
    exact hrewrites
  · rw [if_pos (by rw [hdisposition]; simp)] at h
    cases h
    exact ⟨.paused hpaused hat (hd.trans hdisposition) rfl, SameRuns.refl s, rfl⟩
  · rw [if_pos hadvanced] at h
    cases h
    exact ⟨.elsewhere haway (hd ▸ hadvanced) (hd ▸ hnotPaused) rfl, SameRuns.refl s, rfl⟩

/-- A slot computed for a settlement at or after its own slot is later than it. -/
theorem successor_later (hcron : ∀ expression timezone anchor c,
      P.computeNextRun expression timezone anchor = some c → anchor < c)
    {scheduledFor c : CanonicalInstant} (hle : scheduledFor ≤ settledAt)
    (h : computeScheduledSuccessor P snapshot scheduledFor settledAt = some c) :
    scheduledFor < c := by
  unfold computeScheduledSuccessor at h
  split at h
  · cases h
  · unfold addCanonicalDuration at h
    split_ifs at h with hduration
    unfold canonicalInstant at h
    split_ifs at h with hrange
    cases h
    have hle' : scheduledFor.1 ≤ settledAt.1 := hle
    change scheduledFor.1 < settledAt.1 + _
    omega
  · exact hcron _ _ _ _ h

theorem computed_later (hcron : ∀ expression timezone anchor c,
      P.computeNextRun expression timezone anchor = some c → anchor < c)
    {scheduledFor : CanonicalInstant} (hle : scheduledFor ≤ settledAt)
    (hretry : ∀ retry ∈ retryAt, settledAt < retry) :
    ∀ c ∈ retryAt.or (computeScheduledSuccessor P snapshot scheduledFor settledAt),
      scheduledFor < c := by
  intro c hc
  cases retryAt with
  | none => exact successor_later hcron hle hc
  | some retry =>
    rw [Option.some_or, Option.mem_some_iff] at hc
    exact hc ▸ hle.trans_lt (hretry retry rfl)

theorem writeNextDecision_eq_ok {requestHash : δ}
    (h : writeNextDecision s run decision settledAt requestHash = .ok t) :
    ∃ next, t = { s with next := next } ∧ s.next.insert? ⟨run.runId, run.taskId, run.taskRevision,
      run.scheduledFor, decision.computed, decision.effectiveNext, decision.disposition, settledAt,
      requestHash⟩ = some next := by
  unfold writeNextDecision at h
  obtain ⟨next, hinsert, h⟩ := require_bind.mp h
  cases h
  exact ⟨next, rfl, hinsert⟩

/-- The statements of a settlement between the fence and the final record are one move. -/
theorem settled_moved {s₁ s₂ s₃ s₄ : ScheduledState δ Ω} {close : RunRow δ → RunRow δ}
    {requestHash : δ} (hslot : ∀ r, SameSlot r (close r)) (hclose : ∀ r, (close r).state.active = false)
    (htime : ∀ r, (close r).claimedAt = r.claimedAt)
    (hstored : s.occurrences.find? run.runId = some run)
    (hproper : ∀ c ∈ decision.computed, run.scheduledFor < c)
    (hdecide : decideHead P s run snapshot settledAt retryAt = .ok decision)
    (hnext : writeNextDecision s run decision settledAt requestHash = .ok s₁)
    (htasks : s₂.tasks = s₁.tasks) (hruns : SameRuns s₁ s₂) (hrevisions : s₂.revisions = s₁.revisions)
    (happly : applyHeadDecision s₂ run decision = .ok s₃) (hrun : closeRun s₃ run close = .ok s₄) :
    Moved allowed s s₄ := by
  obtain ⟨next, rfl, hinsert⟩ := writeNextDecision_eq_ok hnext
  obtain ⟨-, head, hhead, hcases⟩ := decideHead_eq_ok hdecide
  have hhead₂ : s₂.tasks.find? run.taskId = some head := by rw [htasks]; exact hhead
  obtain ⟨hsettles, hruns₃, hrevisions₃⟩ := applyHeadDecision_settles
    (d := ⟨run.runId, run.taskId, run.taskRevision, run.scheduledFor, decision.computed,
      decision.effectiveNext, decision.disposition, settledAt, requestHash⟩)
    hhead₂ rfl rfl hcases happly
  unfold closeRun at hrun
  obtain ⟨⟨occurrences, changes⟩, hupdate, hrun⟩ := require_bind.mp hrun
  dsimp only at hrun
  obtain ⟨hchanges, hrun⟩ := ensure_bind_eq_ok.mp hrun
  cases hrun
  rw [decide_eq_true_eq] at hchanges
  subst hchanges
  obtain ⟨row, hrow, hrewrites⟩ := occurrences_rewrites run.runId hupdate
    (fun r hr => by
      simp only [Bool.and_eq_true, decide_eq_true_eq] at hr
      exact hr.1.1.1.1.1)
    (fun r => (hslot r).runId)
  simp only [Bool.and_eq_true, decide_eq_true_eq] at hrow
  have hocc : s₃.occurrences = s.occurrences := hruns₃.occurrences.trans hruns.occurrences
  rw [hocc] at hrewrites
  have hid : row.runId = run.runId := hrow.1.1.1.1.1
  have heq : row = run := by
    have hbefore := hrewrites.before
    rw [hid, hstored] at hbefore
    exact (Option.some.inj hbefore).symm
  subst heq
  refine ⟨.single (.settled head row (close row) ⟨row.runId, row.taskId, row.taskRevision,
    row.scheduledFor, decision.computed, decision.effectiveNext, decision.disposition, settledAt,
    requestHash⟩ hrewrites hrow.2 (hclose row) (hslot row)
    (htime row) ⟨rfl, rfl, rfl, rfl⟩ hproper (Table.insert?_fresh hinsert).1 ?_ hhead ?_ ?_), ?_⟩
  · intro k
    change s₃.next.find? k = _
    rw [hruns₃.next, hruns.next]
    exact Table.find?_insert? hinsert k
  · cases hsettles with
    | advanced next' hactive hat hd hnext' htasks' =>
      exact .advanced next' hactive hat hd hnext' (htasks ▸ htasks')
    | paused hpaused hat hd htasks' => exact .paused hpaused hat hd (htasks'.trans htasks)
    | elsewhere haway hadvanced hpaused htasks' =>
      exact .elsewhere haway hadvanced hpaused (htasks'.trans htasks)
  · exact hruns₃.tombstones.trans hruns.tombstones
  · exact hrevisions₃.trans hrevisions

theorem insertIntents_eq_ok {intents : List (OutboxIntent δ)} {ordinal : ℕ}
    {s t : ScheduledState δ Ω} (h : insertIntents H run ordinal intents s = .ok t) :
    t.tasks = s.tasks ∧ SameRuns s t ∧ t.revisions = s.revisions := by
  induction intents generalizing ordinal s with
  | nil =>
    cases h
    exact ⟨rfl, SameRuns.refl _, rfl⟩
  | cons intent intents ih =>
    unfold insertIntents at h
    obtain ⟨host, -, h⟩ := bind_eq_ok.mp h
    obtain ⟨links, -, h⟩ := require_bind.mp h
    obtain ⟨htasks, hruns, hrevisions⟩ := ih h
    exact ⟨htasks, ⟨hruns.occurrences, hruns.next, hruns.tombstones⟩, hrevisions⟩

theorem projectTask_moved {taskId : ScheduledId} {runId : δ}
    (h : projectTask H s taskId runId = .ok t) : Moved allowed s t := by
  unfold projectTask at h
  obtain ⟨host, -, h⟩ := bind_eq_ok.mp h
  cases h
  exact .quiet rfl ⟨rfl, rfl, rfl⟩ rfl

theorem projectHistory_moved {request : CompleteScheduledRunRequest δ} {taskId : ScheduledId}
    (h : projectHistory H s request taskId = .ok t) : Moved allowed s t := by
  unfold projectHistory at h
  obtain ⟨host, -, h⟩ := bind_eq_ok.mp h
  refine Moved.trans ?_ (projectTask_moved h)
  exact .quiet rfl ⟨rfl, rfl, rfl⟩ rfl

theorem projectPayload_moved {request : CompleteScheduledRunRequest δ} {taskId : ScheduledId}
    {projects : Bool} (h : projectPayload H s request taskId projects = .ok t) :
    Moved allowed s t := by
  unfold projectPayload at h
  split_ifs at h
  · exact projectHistory_moved h
  · cases h
    exact .refl _

theorem finishCompletion_moved {request : CompleteScheduledRunRequest δ}
    {answer : ScheduledAnswer δ} (hstored : s.occurrences.find? run.runId = some run)
    (hproper : ∀ c ∈ computeScheduledSuccessor P snapshot run.scheduledFor request.completedAt,
      run.scheduledFor < c)
    (h : finishCompletion P H request run snapshot s = .ok (answer, t)) : Moved allowed s t := by
  unfold finishCompletion at h
  obtain ⟨-, h⟩ := ensure_bind_eq_ok.mp h
  obtain ⟨decision, hdecide, h⟩ := bind_eq_ok.mp h
  obtain ⟨s₁, hnext, h⟩ := bind_eq_ok.mp h
  obtain ⟨logs, -, h⟩ := require_bind.mp h
  obtain ⟨s₂, hintents, h⟩ := bind_eq_ok.mp h
  obtain ⟨s₃, happly, h⟩ := bind_eq_ok.mp h
  obtain ⟨s₄, hclose, h⟩ := bind_eq_ok.mp h
  obtain ⟨record, -, h⟩ := bind_eq_ok.mp h
  obtain ⟨s₅, hwrite, h⟩ := bind_eq_ok.mp h
  obtain ⟨s₆, hproject, h⟩ := bind_eq_ok.mp h
  cases h
  obtain ⟨htasks, hruns, hrevisions⟩ := insertIntents_eq_ok hintents
  have hcomputed := (decideHead_eq_ok hdecide).1
  rw [Option.none_or] at hcomputed
  have hmoved : Moved allowed s s₄ := by
    refine settled_moved ?_ ?_ ?_ hstored (by rw [hcomputed]; exact hproper) hdecide hnext htasks
      ⟨hruns.occurrences, hruns.next, hruns.tombstones⟩ hrevisions happly hclose
    · exact fun _ => ⟨rfl, rfl, rfl, rfl⟩
    · exact fun _ => rfl
    · exact fun _ => rfl
  exact (hmoved.trans (writeDecision_moved hwrite)).trans (projectTask_moved hproject)

theorem completeRun_moved {request : CompleteScheduledRunRequest δ} {answer : ScheduledAnswer δ}
    (hproper : ∀ run, s.occurrences.find? request.runId = some run → ∀ snapshot,
      ∀ c ∈ computeScheduledSuccessor P snapshot run.scheduledFor request.completedAt,
        run.scheduledFor < c)
    (h : completeRun P H request s = .ok (answer, t)) : Moved allowed s t := by
  unfold completeRun at h
  obtain ⟨replayed, -, h⟩ := bind_eq_ok.mp h
  cases replayed with
  | some record =>
    obtain ⟨s₁, hproject, h⟩ := bind_eq_ok.mp h
    obtain ⟨s₂, hhistory, h⟩ := bind_eq_ok.mp h
    cases h
    exact (projectTask_moved hproject).trans (projectPayload_moved hhistory)
  | none =>
    obtain ⟨run, hfenced, h⟩ := bind_eq_ok.mp h
    obtain ⟨snapshot, -, h⟩ := bind_eq_ok.mp h
    obtain ⟨_, -, h⟩ := bind_eq_ok.mp h
    obtain ⟨⟨answer', s₁⟩, hfinish, h⟩ := bind_eq_ok.mp h
    obtain ⟨s₂, hhistory, h⟩ := bind_eq_ok.mp h
    cases h
    obtain ⟨hstored, hid, -⟩ := requireFencedRun_eq_ok hfenced
    exact (finishCompletion_moved hstored (hproper run (hid ▸ hstored) snapshot) hfinish).trans
      (projectPayload_moved hhistory)

theorem abandonRun_moved {request : AbandonScheduledRunRequest δ} {answer : ScheduledAnswer δ}
    (hproper : ∀ run, s.occurrences.find? request.runId = some run → ∀ snapshot,
      ∀ c ∈ request.retryAt.or
        (computeScheduledSuccessor P snapshot run.scheduledFor request.abandonedAt),
        run.scheduledFor < c)
    (h : abandonRun P H request s = .ok (answer, t)) : Moved allowed s t := by
  unfold abandonRun at h
  obtain ⟨replayed, -, h⟩ := bind_eq_ok.mp h
  cases replayed with
  | some record =>
    obtain ⟨s₁, hproject, h⟩ := bind_eq_ok.mp h
    cases h
    exact projectTask_moved hproject
  | none =>
    obtain ⟨run, hfenced, h⟩ := bind_eq_ok.mp h
    obtain ⟨snapshot, -, h⟩ := bind_eq_ok.mp h
    obtain ⟨decision, hdecide, h⟩ := bind_eq_ok.mp h
    obtain ⟨s₁, hnext, h⟩ := bind_eq_ok.mp h
    obtain ⟨abandonments, -, h⟩ := require_bind.mp h
    obtain ⟨s₂, happly, h⟩ := bind_eq_ok.mp h
    obtain ⟨s₃, hclose, h⟩ := bind_eq_ok.mp h
    obtain ⟨record, -, h⟩ := bind_eq_ok.mp h
    obtain ⟨s₄, hwrite, h⟩ := bind_eq_ok.mp h
    obtain ⟨s₅, hproject, h⟩ := bind_eq_ok.mp h
    cases h
    obtain ⟨hstored, hid, -⟩ := requireFencedRun_eq_ok hfenced
    have hcomputed := (decideHead_eq_ok hdecide).1
    have hmoved : Moved allowed s s₃ := by
      refine settled_moved ?_ ?_ ?_ hstored
        (by rw [hcomputed]; exact hproper run (hid ▸ hstored) snapshot) hdecide hnext ?_ ?_ ?_ happly
        hclose
      · exact fun _ => ⟨rfl, rfl, rfl, rfl⟩
      · exact fun _ => rfl
      · exact fun _ => rfl
      · rfl
      · exact ⟨rfl, rfl, rfl⟩
      · rfl
    exact (hmoved.trans (writeDecision_moved hwrite)).trans (projectTask_moved hproject)

end Settling

section Retention

/-- A run that may be retired: whatever is stored under its id is the run itself, it is settled,
and no paused head holds its slot. -/
structure Retirable (s : ScheduledState δ Ω) (run : RunRow δ) : Prop where
  stored : ∀ row, s.occurrences.find? run.runId = some row → row = run
  settled : run.state.active = false
  free : headHolds s run = false

theorem retireRun_moved (hallowed : allowed .retire) {run : RunRow δ} (hrun : Retirable s run)
    (h : retireRun P run s = .ok t) :
    Moved allowed s t ∧ t.tasks = s.tasks ∧
      ∀ k, t.occurrences.find? k = if run.runId = k then none else s.occurrences.find? k := by
  unfold retireRun at h
  obtain ⟨next, -, h⟩ := require_bind.mp h
  obtain ⟨settledAt, -, h⟩ := require_bind.mp h
  obtain ⟨tombstones, hinsert, h⟩ := require_bind.mp h
  obtain ⟨tombstone, -, h⟩ := bind_eq_ok.mp h
  obtain ⟨-, h⟩ := ensure_bind_eq_ok.mp h
  obtain ⟨hstored, h⟩ := ensure_bind_eq_ok.mp h
  cases h
  have hoccurrences : ∀ k, (s.occurrences.delete (fun r => decide (r.runId = run.runId))).find? k =
      if run.runId = k then none else s.occurrences.find? k := by
    intro k
    rw [Table.find?_delete]
    cases hrow : s.occurrences.find? k with
    | none => simp
    | some row =>
      have hid : row.runId = k := Table.key_of_find? hrow
      by_cases hk : run.runId = k
      · simp [hk, hid]
      · simp [hk, hid, Ne.symm hk]
  have hdecisions : ∀ k, (s.next.delete (fun r => decide (r.runId = run.runId))).find? k =
      if run.runId = k then none else s.next.find? k := by
    intro k
    rw [Table.find?_delete]
    cases hrow : s.next.find? k with
    | none => simp
    | some row =>
      have hid : row.runId = k := Table.key_of_find? hrow
      by_cases hk : run.runId = k
      · simp [hk, hid]
      · simp [hk, hid, Ne.symm hk]
  obtain ⟨row, hrow⟩ := Option.isSome_iff_exists.mp hstored
  have hfound : s.occurrences.find? run.runId = some run := by
    rw [hrow, hrun.stored row hrow]
  refine ⟨⟨.single ?_, rfl⟩, rfl, hoccurrences⟩
  exact .retired run (tombstoneOf run settledAt next.decisionHash) hallowed hfound hrun.settled
    hrun.free ⟨rfl, rfl, rfl⟩ hoccurrences hdecisions (Table.insert?_rows hinsert) rfl

theorem retireRuns_moved (hallowed : allowed .retire) {runs : List (RunRow δ)}
    {s t : ScheduledState δ Ω} (hruns : ∀ run ∈ runs, Retirable s run)
    (h : retireRuns P runs s = .ok t) : Moved allowed s t := by
  induction runs generalizing s with
  | nil =>
    cases h
    exact .refl _
  | cons run runs ih =>
    unfold retireRuns at h
    obtain ⟨s', hfirst, h⟩ := bind_eq_ok.mp h
    obtain ⟨hmoved, htasks, hoccurrences⟩ :=
      retireRun_moved hallowed (hruns run List.mem_cons_self) hfirst
    refine hmoved.trans (ih ?_ h)
    intro later hlater
    have hbefore := hruns later (List.mem_cons_of_mem _ hlater)
    refine ⟨?_, hbefore.settled, ?_⟩
    · intro row hrow
      rw [hoccurrences] at hrow
      split_ifs at hrow
      exact hbefore.stored row hrow
    · have hfree := hbefore.free
      unfold headHolds at hfree ⊢
      rw [htasks]
      exact hfree

theorem cleanup_moved (hallowed : allowed .retire) {request : CleanupScheduledRunsRequest}
    {answer : ScheduledAnswer δ} (h : cleanup P H request s = .ok (answer, t)) :
    Moved allowed s t := by
  unfold cleanup at h
  dsimp only at h
  obtain ⟨stored, -, h⟩ := bind_eq_ok.mp h
  cases stored with
  | some stored =>
    obtain ⟨_, -, h⟩ := bind_eq_ok.mp h
    cases h
    exact .refl _
  | none =>
    obtain ⟨-, h⟩ := ensure_bind_eq_ok.mp h
    obtain ⟨s', hretire, h⟩ := bind_eq_ok.mp h
    obtain ⟨t', hwrite, h⟩ := bind_eq_ok.mp h
    cases h
    refine (retireRuns_moved hallowed ?_ hretire).trans (writeDecision_moved hwrite)
    intro run hrun
    have hmem := List.mem_of_mem_take hrun
    rw [List.mem_insertionSort, List.mem_filter] at hmem
    obtain ⟨hrow, hselected⟩ := hmem
    simp only [cleanupSelects, Bool.and_eq_true, Bool.or_eq_true, decide_eq_true_eq,
      Bool.not_eq_true'] at hselected
    obtain ⟨⟨⟨⟨hstate, -⟩, -⟩, -⟩, hfree⟩ := hselected
    refine ⟨?_, ?_, hfree⟩
    · intro row hstored
      have hfind : s.occurrences.find? run.runId = some run := Table.find?_of_mem hrow
      rw [hfind] at hstored
      exact (Option.some.inj hstored).symm
    · rcases hstate with hstate | hstate
      · rw [hstate]
        rfl
      · rw [hstate]
        rfl

theorem selectPlanned_retirable {expected : RetentionPlanRow δ} {run : RunRow δ}
    (h : selectPlanned P H s expected = .ok run) : Retirable s run := by
  unfold selectPlanned at h
  obtain ⟨found, hfound, h⟩ := bind_eq_ok.mp h
  cases found with
  | none => cases h
  | some row =>
    obtain ⟨record, -, h⟩ := bind_eq_ok.mp h
    obtain ⟨-, h⟩ := ensure_bind_eq_ok.mp h
    obtain ⟨eligible, heligible, h⟩ := bind_eq_ok.mp h
    obtain ⟨htrue, h⟩ := ensure_bind_eq_ok.mp h
    cases h
    subst htrue
    have hrow := (readRunRow_eq_some hfound).1
    have hid := runId_of_find? hrow
    unfold retentionEligible at heligible
    split_ifs at heligible with hskip
    · cases heligible
    obtain ⟨snapshot, -, heligible⟩ := bind_eq_ok.mp heligible
    simp only [Except.ok.injEq, Bool.and_eq_true, Bool.not_eq_true'] at heligible
    refine ⟨?_, ?_, heligible.1.1.1.2⟩
    · intro row' hstored
      rw [hid, hrow] at hstored
      exact (Option.some.inj hstored).symm
    · cases hstate : run.state with
      | completed => rfl
      | abandoned => rfl
      | claimed => simp [hstate] at hskip
      | sourceBound => simp [hstate] at hskip

theorem mem_of_mapM {α β : Type} {f : α → Except ScheduledFault β} {xs : List α} {ys : List β}
    (h : xs.mapM f = .ok ys) {y : β} (hy : y ∈ ys) : ∃ x, f x = .ok y := by
  induction xs generalizing ys with
  | nil =>
    cases h
    cases hy
  | cons x xs ih =>
    rw [List.mapM_cons] at h
    obtain ⟨y', hy', h⟩ := bind_eq_ok.mp h
    obtain ⟨rest, hrest, h⟩ := bind_eq_ok.mp h
    cases h
    rcases List.mem_cons.mp hy with rfl | hy
    · exact ⟨x, hy'⟩
    · exact ih hrest hy

theorem applyRetention_moved (hallowed : allowed .retire) {plan : ScheduledRetentionPlan δ}
    {answer : ScheduledAnswer δ} (h : applyRetention P H plan s = .ok (answer, t)) :
    Moved allowed s t := by
  unfold applyRetention at h
  split_ifs at h with hempty
  · cases h
    exact .refl _
  dsimp only at h
  obtain ⟨stored, -, h⟩ := bind_eq_ok.mp h
  cases stored with
  | some stored =>
    obtain ⟨_, -, h⟩ := bind_eq_ok.mp h
    cases h
    exact .refl _
  | none =>
    obtain ⟨runs, hselect, h⟩ := bind_eq_ok.mp h
    obtain ⟨s', hretire, h⟩ := bind_eq_ok.mp h
    obtain ⟨t', hwrite, h⟩ := bind_eq_ok.mp h
    cases h
    refine (retireRuns_moved hallowed ?_ hretire).trans (writeDecision_moved hwrite)
    intro run hrun
    obtain ⟨expected, hexpected⟩ := mem_of_mapM hselect hrun
    exact selectPlanned_retirable hexpected

end Retention

section Authorities
variable {task : ScheduledTask δ}

theorem insertVersion_eq_ok (h : insertVersion H s task = .ok t) :
    t.tasks = s.tasks ∧ SameRuns s t ∧ (RevisionsSound s → RevisionsSound t) := by
  unfold insertVersion at h
  obtain ⟨definition, -, h⟩ := require_bind.mp h
  obtain ⟨revisions, hinsert, h⟩ := require_bind.mp h
  obtain ⟨host, -, h⟩ := bind_eq_ok.mp h
  cases h
  refine ⟨rfl, ⟨rfl, rfl, rfl⟩, ?_⟩
  intro hsound k row hrow
  change revisions.find? k = some row at hrow
  rw [Table.find?_insert? hinsert] at hrow
  split_ifs at hrow with hk
  · cases hrow
    exact congrArg Prod.snd hk
  · exact hsound k row hrow

theorem projectHead_moved {taskId : ScheduledId} (h : projectHead H s taskId = .ok t) :
    Moved allowed s t := by
  unfold projectHead at h
  obtain ⟨host, -, h⟩ := bind_eq_ok.mp h
  cases h
  exact .quiet rfl ⟨rfl, rfl, rfl⟩ rfl

theorem taskHead_closed (task : ScheduledTask δ) (h : (taskHead task).status = .completed) :
    (taskHead task).nextRunAt = none := by
  unfold taskHead at h ⊢
  dsimp only at h ⊢
  cases hstatus : task.status with
  | completed => rfl
  | active =>
    rw [hstatus] at h
    cases h
  | paused =>
    rw [hstatus] at h
    cases h

theorem create_moves (hrev : RevisionsSound s)
    (h : createScheduledTaskAuthorityRecord H task s = .ok t) :
    ScheduledMoves allowed s t ∧ RevisionsSound t := by
  unfold createScheduledTaskAuthorityRecord at h
  obtain ⟨-, h⟩ := ensure_bind_eq_ok.mp h
  obtain ⟨⟨written, s₁⟩, hwrite, h⟩ := bind_eq_ok.mp h
  dsimp only at h
  obtain ⟨-, h⟩ := ensure_bind_eq_ok.mp h
  obtain ⟨s₂, hversion, h⟩ := bind_eq_ok.mp h
  obtain ⟨hnew, htasks, hruns, hrevisions⟩ := writeHead_created hwrite
  obtain ⟨htasks₂, hruns₂, hsound₂⟩ := insertVersion_eq_ok hversion
  have hproject : Moved allowed s₂ t := projectHead_moved h
  refine ⟨?_, (hsound₂ (hrev.of_eq hrevisions)).of_eq hproject.revisions⟩
  refine .trans (.single ?_) (.trans (ScheduledMoves.quiet htasks₂ hruns₂) hproject.moves)
  refine .created (taskHead task) hnew ?_ (taskHead_closed task) htasks hruns
  change task.status.status ≠ .deleted
  cases task.status <;> simp [RequestedStatus.status]

theorem revise_moves (hrev : RevisionsSound s)
    (h : reviseScheduledTaskAuthorityRecord H task s = .ok t) :
    ScheduledMoves allowed s t ∧ RevisionsSound t := by
  unfold reviseScheduledTaskAuthorityRecord at h
  split at h
  · cases h
  · rename_i previous hprevious
    obtain ⟨hguard, h⟩ := ensure_bind_eq_ok.mp h
    obtain ⟨s₁, hversion, h⟩ := bind_eq_ok.mp h
    obtain ⟨⟨written, s₂⟩, hwrite, h⟩ := bind_eq_ok.mp h
    dsimp only at h
    obtain ⟨hwritten, h⟩ := ensure_bind_eq_ok.mp h
    cases hwritten
    simp only [Bool.and_eq_true, decide_eq_true_eq] at hguard
    obtain ⟨htasks₁, hruns₁, hsound₁⟩ := insertVersion_eq_ok hversion
    obtain ⟨hrewrites, hid, hruns, hrevisions⟩ := writeHead_rewrites hwrite
    have hproject : Moved allowed s₂ t := projectHead_moved h
    refine ⟨?_, ((hsound₁ hrev).of_eq hrevisions).of_eq hproject.revisions⟩
    refine .trans (ScheduledMoves.quiet htasks₁ hruns₁) (.trans (.single ?_) hproject.moves)
    refine .headed previous (taskHead task) hrewrites hguard.1 ?_ hruns
    refine .revised _ hid hguard.2.symm ?_ (taskHead_closed task)
    change task.status.status ≠ .deleted
    cases task.status <;> simp [RequestedStatus.status]

theorem setStatus_moved {taskId : ScheduledId} {status : RequestedStatus}
    (hallowed : status = .completed → allowed .complete)
    (h : setScheduledTaskAuthorityStatus H taskId status s = .ok t) : Moved allowed s t := by
  unfold setScheduledTaskAuthorityStatus at h
  split at h
  · cases h
    exact .refl _
  · rename_i head hhead
    split_ifs at h with hdeleted
    · cases h
      exact .refl _
    obtain ⟨⟨written, s₁⟩, hwrite, h⟩ := bind_eq_ok.mp h
    dsimp only at h
    obtain ⟨hwritten, h⟩ := ensure_bind_eq_ok.mp h
    cases hwritten
    obtain ⟨hrewrites, -, hruns, hrevisions⟩ := writeHead_rewrites hwrite
    refine Moved.trans ⟨.single (.headed head _ hrewrites hdeleted ?_ hruns), hrevisions⟩
      (projectHead_moved h)
    cases status with
    | active =>
      by_cases hpaused : head.status = .paused
      · exact .resumed hpaused
      · unfold statusHead
        rw [if_neg (by rintro ⟨-, h⟩; exact hpaused h), if_neg (by simp)]
        exact .reopened hpaused
    | paused =>
      unfold statusHead
      rw [if_neg (by rintro ⟨h, -⟩; cases h), if_neg (by simp)]
      exact .paused
    | completed =>
      unfold statusHead
      rw [if_neg (by rintro ⟨h, -⟩; cases h), if_pos rfl]
      exact .completed (hallowed rfl)

theorem pause_moved {taskId : ScheduledId} (h : TaskAuthority.pause taskId s = .ok t) :
    Moved allowed s t := by
  unfold TaskAuthority.pause at h
  split at h
  · cases h
  · rename_i head hhead
    obtain ⟨hactive, h⟩ := ensure_bind_eq_ok.mp h
    obtain ⟨⟨written, s₁⟩, hwrite, h⟩ := bind_eq_ok.mp h
    dsimp only at h
    obtain ⟨hwritten, h⟩ := ensure_bind_eq_ok.mp h
    cases hwritten
    cases h
    rw [decide_eq_true_eq] at hactive
    obtain ⟨hrewrites, -, hruns, hrevisions⟩ := writeHead_rewrites hwrite
    exact ⟨.single (.headed head _ hrewrites (by rw [hactive]; simp) .paused hruns), hrevisions⟩

theorem resume_moved (hallowed : allowed .seam) {taskId : ScheduledId}
    (h : TaskAuthority.resume taskId s = .ok t) : Moved allowed s t := by
  unfold TaskAuthority.resume at h
  split at h
  · cases h
  · rename_i head hhead
    obtain ⟨hpaused, h⟩ := ensure_bind_eq_ok.mp h
    obtain ⟨⟨written, s₁⟩, hwrite, h⟩ := bind_eq_ok.mp h
    dsimp only at h
    obtain ⟨hwritten, h⟩ := ensure_bind_eq_ok.mp h
    cases hwritten
    cases h
    rw [decide_eq_true_eq] at hpaused
    obtain ⟨hrewrites, -, hruns, hrevisions⟩ := writeHead_rewrites hwrite
    exact ⟨.single (.headed head _ hrewrites (by rw [hpaused]; simp) (.seam hallowed hpaused) hruns),
      hrevisions⟩

end Authorities

section Calls

/-- A settlement is not dated before the claim of the run it settles. -/
def SettledAfterClaim (s : ScheduledState δ Ω) (runId : δ) (settledAt : CanonicalInstant) : Prop :=
  ∀ run, s.occurrences.find? runId = some run → run.claimedAt ≤ settledAt

def RequestTimely (s : ScheduledState δ Ω) : ScheduledRequest δ → Prop
  | .complete request => SettledAfterClaim s request.runId request.completedAt
  | .abandon request => SettledAfterClaim s request.runId request.abandonedAt
  | _ => True

def CallTimely (s : ScheduledState δ Ω) : TaskCall δ → Prop
  | .mutation _ (some request) => RequestTimely s request
  | _ => True

/-- The kinds of moves that a call needs. -/
def CallAllowed (allowed : MoveKind → Prop) : TaskCall δ → Prop
  | .mutation _ (some (.cleanupTerminal _)) => allowed .retire
  | .mutation _ (some (.applyRetention _)) => allowed .retire
  | .setStatus _ .completed => allowed .complete
  | .resume _ => allowed .seam
  | _ => True

/-- The cron parser only answers with instants after the one it starts from. -/
def CronForward (P : ScheduledPlatform δ) : Prop :=
  ∀ expression timezone anchor c, P.computeNextRun expression timezone anchor = some c → anchor < c

/-- Every run was claimed at or after its slot. -/
def ClaimedWhenDue (s : ScheduledState δ Ω) : Prop :=
  ∀ k run, s.occurrences.find? k = some run → run.scheduledFor ≤ run.claimedAt

theorem transaction_moved (hcron : CronForward P) (hrev : RevisionsSound s) (hdue : ClaimedWhenDue s)
    {runtime : ScheduledRuntime} {request : ScheduledRequest δ} {answer : ScheduledAnswer δ}
    (hnormal : normalise P request = true) (htimely : RequestTimely s request)
    (hallowed : CallAllowed allowed (.mutation runtime (some request)))
    (h : transaction P H runtime request s = .ok (answer, t)) : Moved allowed s t := by
  cases request with
  | claimDue request => exact claim_moved hrev h
  | renew request => exact renewLease_moved h
  | bindAcceptedSource request => exact bind_moved h
  | complete request =>
    refine completeRun_moved ?_ h
    intro run hrun snapshot c hc
    exact successor_later hcron ((hdue _ run hrun).trans (htimely run hrun)) hc
  | abandon request =>
    refine abandonRun_moved ?_ h
    intro run hrun snapshot
    refine computed_later hcron ((hdue _ run hrun).trans (htimely run hrun)) ?_
    simp only [normalise, normaliseAbandon, Bool.and_eq_true, decide_eq_true_eq] at hnormal
    exact hnormal.1
  | cleanupTerminal request => exact cleanup_moved hallowed h
  | applyRetention plan => exact applyRetention_moved hallowed h

/-- A mutation leaves the state alone or commits its transaction. -/
theorem mutate_state (runtime : ScheduledRuntime) (request : ScheduledRequest δ)
    (s : ScheduledState δ Ω) :
    (mutate P H runtime (some request) s).2 = s ∨ (normalise P request = true ∧
      ∃ answer, transaction P H runtime request s =
        .ok (answer, (mutate P H runtime (some request) s).2)) := by
  unfold mutate
  dsimp only
  by_cases hnormal : normalise P request = true
  · rw [if_neg (by simp [hnormal])]
    by_cases hbefore : runtime.beforeEffect = true
    · rw [if_pos hbefore]
      exact .inl rfl
    rw [if_neg hbefore]
    by_cases hadmitted : runtime.admitted = true
    · rw [if_neg (by simp [hadmitted])]
      cases hresult : transaction P H runtime request s with
      | error fault => exact .inl rfl
      | ok committed =>
        refine .inr ⟨hnormal, committed.1, ?_⟩
        dsimp only
        split_ifs <;> rfl
    · rw [if_pos (by simp [hadmitted])]
      exact .inl rfl
  · rw [if_pos (by simp [hnormal])]
    exact .inl rfl

theorem taskStep_moves (hcron : CronForward P) (hrev : RevisionsSound s) (hdue : ClaimedWhenDue s)
    {call : TaskCall δ} (htimely : CallTimely s call) (hallowed : CallAllowed allowed call) :
    ScheduledMoves allowed s (taskStep P H s call) ∧ RevisionsSound (taskStep P H s call) := by
  have hmoved : ∀ {u}, Moved allowed s u → ScheduledMoves allowed s u ∧ RevisionsSound u :=
    fun h => ⟨h.moves, hrev.of_eq h.revisions⟩
  have hcommitted : ∀ {x : Except ScheduledFault (ScheduledState δ Ω)},
      (∀ u, x = .ok u → ScheduledMoves allowed s u ∧ RevisionsSound u) →
      ScheduledMoves allowed s (committed s x) ∧ RevisionsSound (committed s x) := by
    intro x hx
    cases x with
    | error fault => exact ⟨.refl, hrev⟩
    | ok u => exact hx u rfl
  cases call with
  | mutation runtime request =>
    cases request with
    | none => exact ⟨.refl, hrev⟩
    | some request =>
      change ScheduledMoves allowed s (mutate P H runtime (some request) s).2 ∧
        RevisionsSound (mutate P H runtime (some request) s).2
      rcases mutate_state (P := P) (H := H) runtime request s with hsame | ⟨hnormal, answer, hresult⟩
      · rw [hsame]
        exact ⟨.refl, hrev⟩
      · exact hmoved (transaction_moved hcron hrev hdue hnormal htimely hallowed hresult)
  | create task => exact hcommitted fun _ h => create_moves hrev h
  | revise task => exact hcommitted fun _ h => revise_moves hrev h
  | setStatus taskId status =>
    refine hcommitted fun _ h => hmoved (setStatus_moved ?_ h)
    rintro rfl
    exact hallowed
  | pause taskId => exact hcommitted fun _ h => hmoved (pause_moved h)
  | resume taskId => exact hcommitted fun _ h => hmoved (resume_moved hallowed h)

end Calls

end Piclaw.Scheduled
