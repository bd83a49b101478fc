import Piclaw.OutboxRows

/-!
# Lease fencing

The store answers calls of any number of clients, one after another, with timestamps that the
clients choose. For one outbox row that no cleanup deletes, `FencedCall` states what a single call
may do and `FencedRun` what a whole run may do: attempts count the granted leases, an attempt has
one outcome and only its lease holder records it within the lease, a reclaim waits for the
previous lease to expire, the row's clock does not go back once it has been claimed, and a
completed or cancelled row is final.

The invariant behind it is `LeaseHeld`: every started row carries the lease that the lease table
holds under the digest of its token.
-/

namespace Piclaw
open Relational
variable {δ : Type} [DecidableEq δ] {P : Platform δ} {referenced : BoundedText 512 → Bool}

section Statements

/-- The call does not delete the row `id`. -/
def Spares (id : BoundedText 512) (s : OutboxTables δ) (call : OutboxCall P) : Prop :=
  ∀ w, committed s call = some w → ¬ removes id w

/-- The call grants a claim or a reclaim of the row `id`. -/
def Grants (id : BoundedText 512) (s : OutboxTables δ) (call : OutboxCall P) : Prop :=
  (committed s call).bind grantedTo = some id

/-- The call changes what is recorded about attempt `n` of the row `id`. -/
def RecordsOutcome (id : BoundedText 512) (n : ℕ) (s : OutboxTables δ) (call : OutboxCall P) :
    Prop :=
  (callStep s call).outcomes.find? (id, n) ≠ s.outcomes.find? (id, n)

instance (id : BoundedText 512) (s : OutboxTables δ) (call : OutboxCall P) :
    Decidable (Grants id s call) :=
  inferInstanceAs (Decidable (_ = _))

instance (id : BoundedText 512) (n : ℕ) (s : OutboxTables δ) (call : OutboxCall P) :
    Decidable (RecordsOutcome id n s call) :=
  inferInstanceAs (Decidable (_ ≠ _))

/-- The started row `r` holds `lease`, which is filed under the digest of its token. -/
structure HoldsLease (P : Platform δ) (s : OutboxTables δ) (r : OutboxRecord δ)
    (lease : LeaseRow δ) : Prop where
  started : r.state = .started
  row : lease.outboxId = r.outboxId
  attempt : lease.attempt = r.attempt
  worker : r.workerId = some lease.workerId
  claimed : r.claimedAt = some lease.claimedAt
  expires : r.leaseExpiresAt = some lease.leaseExpiresAt
  token : ∃ token, r.leaseToken = some token ∧ s.leases.find? (hashToken P token.1) = some lease

/-- What one call may do to the row `id`. -/
structure FencedCall (id : BoundedText 512) (s : OutboxTables δ) (call : OutboxCall P) : Prop where
  attempt : ∀ r, s.outbox.find? id = some r →
    ∃ r', (callStep s call).outbox.find? id = some r' ∧
      r'.attempt = if Grants id s call then r.attempt + 1 else r.attempt
  outcome : ∀ n, RecordsOutcome id n s call → s.outcomes.find? (id, n) = none ∧
    ∃ m answer request outcome requestHash r lease, committed s call = some (m, answer) ∧
      m.report? = some (request, outcome, requestHash) ∧ request.expectedAttempt.1 = n ∧
      s.outbox.find? id = some r ∧ r.attempt = n ∧ HoldsLease P s r lease ∧
      request.workerId = lease.workerId ∧ r.leaseToken = some request.leaseToken ∧
      lease.claimedAt ≤ outcome.instant ∧ outcome.instant < lease.leaseExpiresAt ∧
      (callStep s call).outcomes.find? (id, n) =
        some (outcomeRow request outcome requestHash r)
  reclaim : ∀ request answer, committed s call = some (.reclaim request, answer) →
    Grants id s call → ∃ r lease, s.outbox.find? id = some r ∧ HoldsLease P s r lease ∧
      lease.leaseExpiresAt ≤ request.now

/-- What a run of calls may do to the row `id`. -/
structure FencedRun (id : BoundedText 512) (s : OutboxTables δ) (calls : List (OutboxCall P)) :
    Prop where
  row : ∀ r, s.outbox.find? id = some r →
    ∃ r', (runCalls s calls).outbox.find? id = some r' ∧
      r'.attempt = r.attempt +
        occurrences callStep (Grants id) s calls ∧
      (1 ≤ r.attempt → r.stateChangedAt ≤ r'.stateChangedAt) ∧
      (r.state = .completed ∨ r.state = .cancelled → r' = r)
  outcomes : ∀ n, occurrences callStep (RecordsOutcome id n) s calls ≤ 1

end Statements

section LeaseHeld

/-- Every started row holds a lease. -/
def LeaseHeld (P : Platform δ) (s : OutboxTables δ) : Prop :=
  ∀ id r, s.outbox.find? id = some r → r.state = .started → ∃ lease, HoldsLease P s r lease

theorem leases_mono {s s' : OutboxTables δ} {m : OutboxMutation P} {a : OutboxAnswer δ}
    (ht : Transition P referenced s m a s') {k : δ} {lease : LeaseRow δ}
    (hl : s.leases.find? k = some lease) : s'.leases.find? k = some lease := by
  cases ht with
  | claimNext request row selected due rewritten leased decided =>
    exact Table.find?_insert?_of_some leased hl
  | reclaim request row authorised rewritten leased decided =>
    exact Table.find?_insert?_of_some leased hl
  | clean request deleted decided =>
    rw [(deleteRows_ok deleted).leases, hl]
  | enqueue | emptyClaim | staleReclaim | report | staleResolution | resolve => exact hl

theorem HoldsLease.mono {s s' : OutboxTables δ} {m : OutboxMutation P} {a : OutboxAnswer δ}
    (ht : Transition P referenced s m a s') {r : OutboxRecord δ} {lease : LeaseRow δ}
    (h : HoldsLease P s r lease) : HoldsLease P s' r lease := by
  obtain ⟨token, htoken, hl⟩ := h.token
  exact { h with token := ⟨token, htoken, leases_mono ht hl⟩ }

/-- A grant leaves the row holding the lease it wrote. -/
theorem granted_holds {s s' : OutboxTables δ} {m : OutboxMutation P} {a : OutboxAnswer δ}
    (ht : Transition P referenced s m a s') {id : BoundedText 512}
    (hg : grantedTo (m, a) = some id) :
    ∃ r' lease, s'.outbox.find? id = some r' ∧ HoldsLease P s' r' lease := by
  cases ht with
  | claimNext request row selected due rewritten leased decided =>
    cases hg
    exact ⟨_, _, rewritten.after, rfl, rfl, rfl, rfl, rfl, rfl, _, rfl,
      Table.find?_insert?_self leased⟩
  | reclaim request row authorised rewritten leased decided =>
    have hkey : row.outboxId = request.outboxId := Table.key_of_find? rewritten.before
    have hid : request.outboxId = id := hkey.symm.trans (Option.some_inj.mp hg)
    subst hid
    refine ⟨_, _, rewritten.after, ?_, hkey.symm, rfl, rfl, rfl, rfl, _, rfl,
      Table.find?_insert?_self leased⟩
    simp only [reclaimAuthorised, Bool.and_eq_true, decide_eq_true_eq] at authorised
    exact authorised.1.1.1.1
  | report request outcome requestHash row isReport =>
    rw [grantedTo_report isReport] at hg
    cases hg
  | enqueue | emptyClaim | staleReclaim | staleResolution | resolve | clean => cases hg

omit [DecidableEq δ] in
theorem report_state {m : OutboxMutation P} {request : WorkerResultRequest}
    {outcome : WorkerOutcome} {requestHash : δ}
    (h : m.report? = some (request, outcome, requestHash)) : outcome.state ≠ .started := by
  cases m <;> cases h <;> simp [CompleteOutboxRequest.outcome, FailOutboxRequest.outcome,
    MarkOutboxUnknownRequest.outcome]

omit [DecidableEq δ] in
theorem resolutionRow_state (request : ResolveUnknownOutboxRequest) (requestHash : δ) :
    (resolutionRow request requestHash).state ≠ .started := by
  unfold resolutionRow
  cases request.resolution <;> simp

theorem leaseHeld_step {s s' : OutboxTables δ} {m : OutboxMutation P} {a : OutboxAnswer δ}
    (ht : Transition P referenced s m a s') (h : LeaseHeld P s) : LeaseHeld P s' := by
  intro id r' hr' hs
  have hgranted : grantedTo (m, a) = some id → ∃ lease, HoldsLease P s' r' lease := by
    intro hg
    obtain ⟨x, lease, hx, hl⟩ := granted_holds ht hg
    rw [hx, Option.some_inj] at hr'
    exact ⟨lease, hr' ▸ hl⟩
  rcases transition_row_back ht hr' with ⟨r, hr, hmove⟩ | ⟨-, hp⟩
  · cases hmove with
    | still other =>
      obtain ⟨lease, hl⟩ := h id _ hr hs
      exact ⟨lease, hl.mono ht⟩
    | claim request isClaim granted due => exact hgranted granted
    | reclaim request isReclaim granted authorised => exact hgranted granted
    | report request outcome requestHash isReport temporal owns =>
      exact absurd hs (report_state isReport)
    | resolve request isResolve authorised =>
      exact absurd hs (resolutionRow_state request (hashCanonicalRequest P request.json))
  · rw [hp] at hs
    cases hs

theorem leaseHeld_call {s : OutboxTables δ} (call : OutboxCall P) (h : LeaseHeld P s) :
    LeaseHeld P (callStep s call) := by
  rcases callStep_cases s call with ⟨he, -⟩ | ⟨m, a, -, ht⟩
  · rwa [he]
  · exact leaseHeld_step ht h

theorem leaseHeld_run (calls : List (OutboxCall P)) :
    LeaseHeld P (runCalls (OutboxTables.empty δ) calls) := by
  have hempty : LeaseHeld P (OutboxTables.empty δ) := by
    intro id r hr
    cases hr
  exact run_invariant (fun _ call h _ => leaseHeld_call call h) hempty (along_true _ calls)

end LeaseHeld

section Steps
variable {s s' : OutboxTables δ} {m : OutboxMutation P} {a : OutboxAnswer δ} {id : BoundedText 512}

/-- An outcome appears only through a report by the owner of the attempt. -/
theorem transition_outcomes (ht : Transition P referenced s m a s') (hkept : ¬ removes id (m, a))
    (n : ℕ) : s'.outcomes.find? (id, n) = s.outcomes.find? (id, n) ∨
      s.outcomes.find? (id, n) = none ∧ ∃ request outcome requestHash r,
        m.report? = some (request, outcome, requestHash) ∧ request.expectedAttempt.1 = n ∧
        s.outbox.find? id = some r ∧ outcomeTemporal outcome r ∧ ownsAttempt request r ∧
        s'.outcomes.find? (id, n) = some (outcomeRow request outcome requestHash r) ∧
        s'.outbox.find? id = some (reported outcome r) := by
  cases ht with
  | report request outcome requestHash row isReport temporal owns rewritten recorded superseding
      decided =>
    rw [Table.find?_insert? recorded]
    split_ifs with hkey
    · have hfresh := (Table.insert?_fresh recorded).1
      have hid : request.outboxId = id := congrArg Prod.fst hkey
      have hn : request.expectedAttempt.1 = n := congrArg Prod.snd hkey
      subst hid hn
      refine Or.inr ⟨hfresh, request, outcome, requestHash, row, isReport, rfl, rewritten.before,
        temporal, owns, rfl, rewritten.after⟩
    · exact Or.inl rfl
  | clean request deleted decided =>
    have hid : id ∉ (selectTerminal s request).map fun r => r.outboxId :=
      fun hmem => hkept ⟨_, rfl, hmem⟩
    refine Or.inl ?_
    rw [(deleteRows_ok deleted).outcomes, if_neg hid]
  | enqueue | emptyClaim | claimNext | staleReclaim | reclaim | staleResolution | resolve =>
    exact Or.inl rfl

omit [DecidableEq δ] in
/-- The step part of the fence: attempts, the row's clock and final states. -/
theorem rowMove_fence {w : OutboxMutation P × OutboxAnswer δ} {r r' : OutboxRecord δ}
    (hc : r.check) (h : RowMove w id r r') :
    (r'.attempt = if grantedTo w = some id then r.attempt + 1 else r.attempt) ∧
      (1 ≤ r.attempt → r.stateChangedAt ≤ r'.stateChangedAt) ∧
      (r.state = .completed ∨ r.state = .cancelled → r' = r) := by
  cases h with
  | still other => exact ⟨by rw [if_neg other], fun _ => le_rfl, fun _ => rfl⟩
  | claim request isClaim granted due =>
    refine ⟨by rw [if_pos granted]; rfl, ?_, ?_⟩
    · intro hattempt
      simp only [dueBy, Bool.or_eq_true, Bool.and_eq_true, decide_eq_true_eq,
        Option.any_eq_true] at due
      rcases due with ⟨hp, -⟩ | ⟨hf, retry, hretry, hdue⟩
      · rw [pending_attempt hc hp] at hattempt
        omega
      · exact (failed_retry hc hf hretry).1.le.trans hdue
    · rintro (hs | hs) <;> simp [dueBy, hs] at due
  | reclaim request isReclaim granted authorised =>
    simp only [reclaimAuthorised, Bool.and_eq_true, decide_eq_true_eq, Option.any_eq_true]
      at authorised
    obtain ⟨⟨⟨⟨hs, -⟩, -⟩, claimed, hclaimed, hnow⟩, -⟩ := authorised
    obtain ⟨-, -, c, -, -, -, hcl, -, -, hsc, -⟩ := started_lease hc hs
    rw [hcl, Option.some_inj] at hclaimed
    refine ⟨by rw [if_pos granted]; rfl, ?_, ?_⟩
    · intro _
      change r.stateChangedAt ≤ request.now
      rw [hsc, hclaimed]
      exact hnow
    · rintro (h | h) <;> rw [hs] at h <;> cases h
  | report request outcome requestHash isReport temporal owns =>
    simp only [ownsAttempt, Bool.and_eq_true, decide_eq_true_eq] at owns
    simp only [outcomeTemporal, Bool.and_eq_true, Option.any_eq_true, decide_eq_true_eq] at temporal
    have hs := owns.1.1.1
    obtain ⟨-, -, c, -, -, -, hcl, -, -, hsc, -⟩ := started_lease hc hs
    obtain ⟨⟨⟨claimed, hclaimed, hat⟩, -⟩, -⟩ := temporal
    rw [hcl, Option.some_inj] at hclaimed
    obtain ⟨m, a⟩ := w
    refine ⟨by rw [if_neg (by simp [grantedTo_report isReport])]; rfl, ?_, ?_⟩
    · intro _
      change r.stateChangedAt ≤ outcome.instant
      rw [hsc, hclaimed]
      exact hat
    · rintro (h | h) <;> rw [hs] at h <;> cases h
  | resolve request isResolve authorised =>
    simp only [resolveAuthorised, Bool.and_eq_true, decide_eq_true_eq, Option.any_eq_true]
      at authorised
    obtain ⟨⟨⟨hs, -⟩, result, hresult, hat⟩, -⟩ := authorised
    rw [(unknown_result hc hs).1, Option.some_inj] at hresult
    obtain ⟨m, a⟩ := w
    cases isResolve
    refine ⟨by rw [if_neg (by simp [grantedTo])]; rfl, ?_, ?_⟩
    · intro _
      exact hresult.le.trans hat
    · rintro (h | h) <;> rw [hs] at h <;> cases h

omit [DecidableEq δ] in
theorem grantedTo_quiet {w : OutboxMutation P × OutboxAnswer δ} (h : w.2.quiet) :
    grantedTo w = none := by
  obtain ⟨m, a⟩ := w
  cases m <;> cases a <;> first | rfl | cases h

omit [DecidableEq δ] in
theorem removes_quiet {w : OutboxMutation P × OutboxAnswer δ} (h : w.2.quiet) : ¬ removes id w := by
  rintro ⟨result, ha, -⟩
  rw [ha] at h
  exact h

/-- A call that changes no table grants nothing. -/
theorem not_grants {call : OutboxCall P}
    (h : ∀ w, committed s call = some w → w.2.quiet) : ¬ Grants id s call := by
  intro hg
  obtain ⟨w, hw, hid⟩ := Option.bind_eq_some_iff.mp hg
  rw [grantedTo_quiet (h w hw)] at hid
  cases hid

theorem grants_iff {call : OutboxCall P} (hw : committed s call = some (m, a)) :
    Grants id s call ↔ grantedTo (m, a) = some id := by
  unfold Grants
  rw [hw, Option.bind_some]

theorem call_row {call : OutboxCall P} (hspare : Spares id s call) {r : OutboxRecord δ}
    (hr : s.outbox.find? id = some r) :
    ∃ r', (callStep s call).outbox.find? id = some r' ∧
      (r'.attempt = if Grants id s call then r.attempt + 1 else r.attempt) ∧
      (1 ≤ r.attempt → r.stateChangedAt ≤ r'.stateChangedAt) ∧
      (r.state = .completed ∨ r.state = .cancelled → r' = r) := by
  rcases callStep_cases s call with ⟨he, hquiet⟩ | ⟨m, a, hw, ht⟩
  · rw [he]
    exact ⟨r, hr, by rw [if_neg (not_grants hquiet)], fun _ => le_rfl, fun _ => rfl⟩
  · obtain ⟨r', hr', hmove⟩ := transition_row ht hr (hspare _ hw)
    refine ⟨r', hr', ?_⟩
    simp only [grants_iff hw]
    exact rowMove_fence (Table.check_of_find? hr) hmove

theorem call_outcomes {call : OutboxCall P} (hspare : Spares id s call) {n : ℕ}
    (hrec : RecordsOutcome id n s call) : s.outcomes.find? (id, n) = none ∧
    ∃ m a request outcome requestHash r, committed s call = some (m, a) ∧
      m.report? = some (request, outcome, requestHash) ∧ request.expectedAttempt.1 = n ∧
      s.outbox.find? id = some r ∧ outcomeTemporal outcome r ∧ ownsAttempt request r ∧
      (callStep s call).outcomes.find? (id, n) =
        some (outcomeRow request outcome requestHash r) := by
  rcases callStep_cases s call with ⟨he, -⟩ | ⟨m, a, hw, ht⟩
  · unfold RecordsOutcome at hrec
    rw [he] at hrec
    exact absurd rfl hrec
  · rcases transition_outcomes ht (hspare _ hw) n with he | ⟨hnone, request, outcome, requestHash, r,
      hreport, hn, hr, ht, ho, hrow, -⟩
    · exact absurd he hrec
    · exact ⟨hnone, m, a, request, outcome, requestHash, r, hw, hreport, hn, hr, ht, ho, hrow⟩

/-- Only a cleanup deletes rows. -/
theorem spares_of_request {call : OutboxCall P}
    (h : ∀ request, call.request ≠ some (.cleanupTerminal request)) : Spares id s call := by
  intro w hw hrem
  rcases callStep_cases s call with ⟨-, hquiet⟩ | ⟨m, a, hw', ht⟩
  · exact removes_quiet (hquiet w hw) hrem
  · rw [hw, Option.some_inj] at hw'
    subst hw'
    obtain ⟨result, ha, -⟩ := hrem
    generalize callStep s call = s' at ht
    cases ht <;> cases ha
    exact h _ (committed_request hw)

theorem fencedCall (hheld : LeaseHeld P s) {call : OutboxCall P}
    (hspare : Spares id s call) : FencedCall id s call where
  attempt r hr := by
    obtain ⟨r', hr', hattempt, -⟩ := call_row hspare hr
    exact ⟨r', hr', hattempt⟩
  outcome n hrec := by
    obtain ⟨hnone, m, a, request, outcome, requestHash, r, hw, hreport, hn, hr, htemporal, howns,
      hrow⟩ := call_outcomes hspare hrec
    simp only [ownsAttempt, Bool.and_eq_true, decide_eq_true_eq] at howns
    simp only [outcomeTemporal, Bool.and_eq_true, Option.any_eq_true, decide_eq_true_eq]
      at htemporal
    obtain ⟨⟨⟨hs, hworker⟩, hattempt⟩, htoken⟩ := howns
    obtain ⟨⟨⟨claimed, hclaimed, hfrom⟩, expires, hexpires, huntil⟩, -⟩ := htemporal
    obtain ⟨lease, hl⟩ := hheld id r hr hs
    rw [hl.worker, Option.some_inj] at hworker
    rw [hl.claimed, Option.some_inj] at hclaimed
    rw [hl.expires, Option.some_inj] at hexpires
    exact ⟨hnone, m, a, request, outcome, requestHash, r, lease, hw, hreport, hn, hr,
      hattempt.trans hn, hl, hworker.symm, htoken, hclaimed ▸ hfrom, hexpires ▸ huntil, hrow⟩
  reclaim request answer hw hg := by
    have hid := (grants_iff hw).mp hg
    rcases callStep_cases s call with ⟨-, hquiet⟩ | ⟨m, a, hw', ht⟩
    · exact absurd hg (not_grants hquiet)
    · rw [hw, Option.some_inj, Prod.mk.injEq] at hw'
      obtain ⟨rfl, rfl⟩ := hw'
      generalize callStep s call = s' at ht
      cases ht with
      | staleReclaim => cases hid
      | report request' outcome requestHash row isReport => cases isReport
      | reclaim _ row authorised rewritten leased decided =>
        have hkey : row.outboxId = request.outboxId := Table.key_of_find? rewritten.before
        have hrow : request.outboxId = id := hkey.symm.trans (Option.some_inj.mp hid)
        subst hrow
        simp only [reclaimAuthorised, Bool.and_eq_true, decide_eq_true_eq, Option.any_eq_true]
          at authorised
        obtain ⟨⟨⟨⟨hs, -⟩, expires, hexpires, hnow⟩, -⟩, -⟩ := authorised
        obtain ⟨lease, hl⟩ := hheld _ row rewritten.before hs
        rw [hl.expires, Option.some_inj] at hexpires
        exact ⟨row, lease, rewritten.before, hl, hexpires ▸ hnow⟩

theorem run_row {calls : List (OutboxCall P)}
    (hspare : Along callStep (Spares id) s calls) {r : OutboxRecord δ}
    (hr : s.outbox.find? id = some r) :
    ∃ r', (runCalls s calls).outbox.find? id = some r' ∧
      r'.attempt = r.attempt + occurrences callStep (Grants id) s calls ∧
      (1 ≤ r.attempt → r.stateChangedAt ≤ r'.stateChangedAt) ∧
      (r.state = .completed ∨ r.state = .cancelled → r' = r) := by
  induction calls generalizing s r with
  | nil => exact ⟨r, hr, rfl, fun _ => le_rfl, fun _ => rfl⟩
  | cons call calls ih =>
    obtain ⟨r₁, hr₁, hattempt, hclock, hfinal⟩ := call_row hspare.1 hr
    obtain ⟨r₂, hr₂, hattempt', hclock', hfinal'⟩ := ih hspare.2 hr₁
    refine ⟨r₂, hr₂, ?_, ?_, ?_⟩
    · rw [hattempt', hattempt]
      rw [occurrences]
      split_ifs <;> omega
    · intro hpos
      have hpos' : 1 ≤ r₁.attempt := by
        rw [hattempt]
        split_ifs <;> omega
      exact (hclock hpos).trans (hclock' hpos')
    · intro hs
      have he := hfinal hs
      subst he
      exact hfinal' hs

theorem run_outcomes {calls : List (OutboxCall P)}
    (hspare : Along callStep (Spares id) s calls) (n : ℕ) :
    occurrences callStep (RecordsOutcome id n) s calls ≤ 1 := by
  refine (occurrences_le_one (I := fun _ => True)
    (A := fun s : OutboxTables δ => s.outcomes.find? (id, n) = none) (fun _ _ _ _ => trivial) ?_ ?_ ?_
    trivial hspare).1
  · intro t call _ hs hrec
    exact (call_outcomes hs hrec).1
  · intro t call _ hs hrec
    obtain ⟨-, m, a, request, outcome, requestHash, r, -, -, -, -, -, -, hrow⟩ :=
      call_outcomes hs hrec
    rw [hrow]
    simp
  · intro t call _ hs hsome
    by_cases hrec : RecordsOutcome id n t call
    · exact absurd (call_outcomes hs hrec).1 hsome
    · rwa [not_not.mp hrec]

end Steps

/-- Lease fencing. From every state that calls can produce, every call and every run of calls that
deletes the row `id` nowhere is fenced for it. -/
theorem outbox_lease_fencing (id : BoundedText 512) (before : List (OutboxCall P)) :
    (∀ call : OutboxCall P, Spares id (runCalls (OutboxTables.empty δ) before) call →
      FencedCall id (runCalls (OutboxTables.empty δ) before) call) ∧
    ∀ after : List (OutboxCall P), Along callStep (Spares id)
        (runCalls (OutboxTables.empty δ) before) after →
      FencedRun id (runCalls (OutboxTables.empty δ) before) after := by
  constructor
  · intro call hspare
    exact fencedCall (leaseHeld_run before) hspare
  · intro after hspare
    exact ⟨fun r hr => run_row hspare hr, run_outcomes hspare⟩

theorem outbox_lease_fencing_sample :
    FencedCall sampleOutboxId
      (runCalls (OutboxTables.empty OpenDigest) [sampleEnqueueCall, sampleClaimCall])
      sampleReclaimCall ∧
    FencedRun sampleOutboxId (runCalls (OutboxTables.empty OpenDigest) [sampleEnqueueCall])
      [sampleClaimCall, sampleReclaimCall] := by
  have hclaim : ∀ request, sampleClaimCall.request ≠ some (.cleanupTerminal request) := by
    simp [sampleClaimCall, plainCall]
  have hreclaim : ∀ request, sampleReclaimCall.request ≠ some (.cleanupTerminal request) := by
    simp [sampleReclaimCall, plainCall]
  constructor
  · exact (outbox_lease_fencing sampleOutboxId _).1 _ (spares_of_request hreclaim)
  · exact (outbox_lease_fencing sampleOutboxId _).2 _
      ⟨spares_of_request hclaim, spares_of_request hreclaim, trivial⟩

end Piclaw
