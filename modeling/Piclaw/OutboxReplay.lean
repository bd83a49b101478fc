import Piclaw.OutboxReports

/-!
# Replays of applied mutations

A mutation that was applied is answered from stored evidence when the identical request comes
again: the enqueue row, the lease, the outcome or the resolution is laid over the identity of the
current row. `Kept` says what survives of this evidence while no cleanup deletes the row, and
`replay_iff` compares the replay with the original answer. They differ in one case only: a claim
writes a lease without a reconciliation reference but leaves the reference on the row it claims.
-/

namespace Piclaw
open Relational
variable {δ : Type} [DecidableEq δ] {P : Platform δ} {referenced : BoundedText 512 → Bool}

section Kept

/-- The evidence about the row `id` in `s` is still there in `t`. -/
structure Kept (id : BoundedText 512) (s t : OutboxTables δ) : Prop where
  row : ∀ r, s.outbox.find? id = some r →
    ∃ x, t.outbox.find? id = some x ∧ recordFromEnqueue x = recordFromEnqueue r
  lease : ∀ k l, s.leases.find? k = some l → t.leases.find? k = some l
  outcome : ∀ n o, s.outcomes.find? (id, n) = some o → t.outcomes.find? (id, n) = some o
  resolution : ∀ n o, s.resolutions.find? (id, n) = some o → t.resolutions.find? (id, n) = some o
  decision : ∀ k d, (∀ id' n, k ≠ .outcome id' n) → d.outboxId = some id →
    s.decisions.find? k = some d → t.decisions.find? k = some d

theorem Kept.refl (id : BoundedText 512) (s : OutboxTables δ) : Kept id s s where
  row r hr := ⟨r, hr, rfl⟩
  lease _ _ h := h
  outcome _ _ h := h
  resolution _ _ h := h
  decision _ _ _ _ h := h

theorem Kept.trans {id : BoundedText 512} {s t u : OutboxTables δ} (h : Kept id s t)
    (h' : Kept id t u) : Kept id s u where
  row r hr := by
    obtain ⟨x, hx, hxr⟩ := h.row r hr
    obtain ⟨y, hy, hyx⟩ := h'.row x hx
    exact ⟨y, hy, hyx.trans hxr⟩
  lease k l hl := h'.lease k l (h.lease k l hl)
  outcome n o ho := h'.outcome n o (h.outcome n o ho)
  resolution n o ho := h'.resolution n o (h.resolution n o ho)
  decision k d hk hd hf := h'.decision k d hk hd (h.decision k d hk hd hf)

omit [DecidableEq δ] in
/-- No move touches the columns that an enqueue wrote. -/
theorem rowMove_identity {w : OutboxMutation P × OutboxAnswer δ} {id : BoundedText 512}
    {r r' : OutboxRecord δ} (h : RowMove w id r r') : recordFromEnqueue r' = recordFromEnqueue r := by
  cases h <;> rfl

theorem resolutions_kept {s s' : OutboxTables δ} {m : OutboxMutation P} {a : OutboxAnswer δ}
    (ht : Transition P referenced s m a s') {id : BoundedText 512} (hkept : ¬ removes id (m, a))
    {n : ℕ} {o : ResolutionRow δ} (ho : s.resolutions.find? (id, n) = some o) :
    s'.resolutions.find? (id, n) = some o := by
  cases ht with
  | resolve request row authorised rewritten recorded decided =>
    exact Table.find?_insert?_of_some recorded ho
  | clean request deleted decided =>
    have hid : id ∉ (selectTerminal s request).map fun r => r.outboxId :=
      fun hmem => hkept ⟨_, rfl, hmem⟩
    rw [(deleteRows_ok deleted).resolutions, if_neg hid, ho]
  | enqueue | emptyClaim | claimNext | staleReclaim | reclaim | report | staleResolution => exact ho

theorem kept_step {s s' : OutboxTables δ} {m : OutboxMutation P} {a : OutboxAnswer δ}
    (ht : Transition P referenced s m a s') {id : BoundedText 512} (hkept : ¬ removes id (m, a)) :
    Kept id s s' where
  row r hr := by
    obtain ⟨x, hx, hmove⟩ := transition_row ht hr hkept
    exact ⟨x, hx, rowMove_identity hmove⟩
  lease k l hl := leases_mono ht hl
  outcome n o ho := by
    rcases transition_outcomes ht hkept n with he | ⟨hnone, -⟩
    · exact he.trans ho
    · rw [ho] at hnone
      cases hnone
  resolution n o ho := resolutions_kept ht hkept ho
  decision k d hk hd hf := by
    obtain ⟨base, d', hins, -, hforth, -⟩ := transition_decided ht
    have hbase : base.find? k = some d := by
      refine hforth k d hf hk ?_
      intro id' hid'
      rw [hd, Option.some_inj] at hid'
      exact hid' ▸ hkept
    exact Table.find?_insert?_of_some hins hbase

theorem kept_run {id : BoundedText 512} {s : OutboxTables δ} {calls : List (OutboxCall P)}
    (hspare : Along callStep (Spares id) s calls) : Kept id s (runCalls s calls) := by
  refine run_relates (I := fun _ => True) (Kept.refl id) (fun _ _ _ h h' => h.trans h')
    (fun _ _ _ _ => trivial) ?_ trivial hspare
  intro t call _ hcall
  rcases callStep_cases t call with ⟨he, -⟩ | ⟨m, a, hw, ht⟩
  · rw [he]
    exact Kept.refl id t
  · exact kept_step ht (hcall _ hw)

end Kept

section Answers

/-- The answer that a replay of this one should give. -/
def OutboxAnswer.replay : OutboxAnswer δ → OutboxAnswer δ
  | .applied record => .replayed record
  | .leaseApplied lease => .leaseReplayed lease
  | answer => answer

/-- The record or leased record of an applied mutation. -/
def OutboxAnswer.record? : OutboxAnswer δ → Option (OutboxRecord δ)
  | .applied record => some record
  | .leaseApplied lease => some lease.record
  | _ => none

variable {s t : OutboxTables δ}

omit [DecidableEq δ] in
theorem recordFromLease_identity {x y : OutboxRecord δ}
    (h : recordFromEnqueue x = recordFromEnqueue y) (lease : LeaseRow δ)
    (token : BoundedText 2048) : recordFromLease x lease token = recordFromLease y lease token := by
  change recordFromLease (recordFromEnqueue x) lease token = recordFromLease (recordFromEnqueue y) lease token
  rw [h]

omit [DecidableEq δ] in
theorem recordFromOutcome_identity {x y : OutboxRecord δ}
    (h : recordFromEnqueue x = recordFromEnqueue y) (outcome : OutcomeRow δ) :
    recordFromOutcome x outcome = recordFromOutcome y outcome := by
  change recordFromOutcome (recordFromEnqueue x) outcome = recordFromOutcome (recordFromEnqueue y) outcome
  rw [h]

omit [DecidableEq δ] in
theorem recordFromResolution_identity {x y : OutboxRecord δ}
    (h : recordFromEnqueue x = recordFromEnqueue y) (resolution : ResolutionRow δ) :
    recordFromResolution x resolution = recordFromResolution y resolution := by
  change recordFromResolution (recordFromEnqueue x) resolution = recordFromResolution (recordFromEnqueue y) resolution
  rw [h]

theorem enqueue_replay {request : EnqueueOutboxRequest P} {x : OutboxRecord δ}
    (hd : t.decisions.find? (.enqueue request.kind request.effect.idempotencyKey) =
      some (enqueueDecision request.toEnqueueFields))
    (hx : t.outbox.find? request.outboxId = some x)
    (hid : recordFromEnqueue x = enqueuedRecord request.toEnqueueFields) :
    insertEnqueue request t =
      .ok (.ok (.replayed (enqueuedRecord request.toEnqueueFields)), t) := by
  unfold insertEnqueue
  simp [hd, enqueueDecision, readRecord_eq, hx, ok_bind, hid]

theorem claim_replay {request : ClaimOutboxRequest} {row x : OutboxRecord δ}
    (hd : t.decisions.find? (.claim (hashToken P request.leaseToken.1)) =
      some (claimDecision (hashCanonicalRequest P request.json)
        (hashToken P request.leaseToken.1) row))
    (hl : t.leases.find? (hashToken P request.leaseToken.1) =
      some (claimLease request (hashCanonicalRequest P request.json)
        (hashToken P request.leaseToken.1) row))
    (hx : t.outbox.find? row.outboxId = some x)
    (hid : recordFromEnqueue x = recordFromEnqueue row) :
    claimNext P request t = .ok (.ok (.leaseReplayed
      ⟨recordFromLease row (claimLease request (hashCanonicalRequest P request.json)
        (hashToken P request.leaseToken.1) row) request.leaseToken, request.workerId⟩), t) := by
  have hrec : requireRecord t row.outboxId = .ok x := requireRecord_eq_ok.mpr hx
  unfold claimNext readClaimReplay
  simp only [hd, hl, claimDecision, claimLease, hrec, ok_bind, ne_eq, not_true_eq_false, or_self,
    if_false, reduceCtorEq, leaseFromAuthority, recordFromLease_identity hid]
  rfl

theorem reclaim_replay {request : ReclaimOutboxRequest} {row x : OutboxRecord δ} {attempt : ℕ}
    (hd : t.decisions.find? (.reclaim request.outboxId request.expectedAttempt.1) =
      some (reclaimDecision request (hashCanonicalRequest P request.json) .applied attempt
        (some (hashToken P request.leaseToken.1))))
    (hl : t.leases.find? (hashToken P request.leaseToken.1) =
      some (reclaimLease request (hashCanonicalRequest P request.json)
        (hashToken P request.leaseToken.1) row))
    (hx : t.outbox.find? request.outboxId = some x)
    (hid : recordFromEnqueue x = recordFromEnqueue row) :
    reclaim P request t = .ok (.ok (.replayed
      (recordFromLease row (reclaimLease request (hashCanonicalRequest P request.json)
        (hashToken P request.leaseToken.1) row) request.leaseToken)), t) := by
  have hrec : requireRecord t request.outboxId = .ok x := requireRecord_eq_ok.mpr hx
  unfold reclaim readReclaimReplay
  simp only [hd, hl, reclaimDecision, reclaimLease, hrec, ok_bind, ne_eq, not_true_eq_false, or_self,
    if_false, reduceCtorEq, recordFromLease_identity hid]

theorem report_replay {request : WorkerResultRequest} {outcome : WorkerOutcome} {requestHash : δ}
    {row x : OutboxRecord δ}
    (ho : t.outcomes.find? (request.outboxId, request.expectedAttempt.1) =
      some (outcomeRow request outcome requestHash row))
    (hx : t.outbox.find? request.outboxId = some x)
    (hid : recordFromEnqueue x = recordFromEnqueue row) :
    workerResult request outcome requestHash t = .ok (.ok (.replayed
      (recordFromOutcome row (outcomeRow request outcome requestHash row))), t) := by
  have hrec : requireRecord t request.outboxId = .ok x := requireRecord_eq_ok.mpr hx
  unfold workerResult
  simp only [ho, hrec, ok_bind, recordFromOutcome_identity hid]
  simp [outcomeRow]

omit [DecidableEq δ] in
theorem resolutionRow_requestHash (request : ResolveUnknownOutboxRequest) (requestHash : δ) :
    (resolutionRow request requestHash).requestHash = requestHash := rfl

theorem resolve_replay {request : ResolveUnknownOutboxRequest} {row x : OutboxRecord δ}
    (hd : t.decisions.find? (.resolve request.outboxId request.expectedAttempt.1) =
      some (resolveDecision request (hashCanonicalRequest P request.json) .applied))
    (hr : t.resolutions.find? (request.outboxId, request.expectedAttempt.1) =
      some (resolutionRow request (hashCanonicalRequest P request.json)))
    (hx : t.outbox.find? request.outboxId = some x)
    (hid : recordFromEnqueue x = recordFromEnqueue row) :
    resolveUnknown P request t = .ok (.ok (.replayed (recordFromResolution row
      (resolutionRow request (hashCanonicalRequest P request.json)))), t) := by
  have hrec : requireRecord t request.outboxId = .ok x := requireRecord_eq_ok.mpr hx
  unfold resolveUnknown readResolveReplay
  simp only [hd, hr, resolveDecision, hrec, ok_bind, ne_eq, not_true_eq_false, or_self, if_false,
    reduceCtorEq, resolutionRow_requestHash, recordFromResolution_identity hid]

end Answers

section Equality
variable {row : OutboxRecord δ}

omit [DecidableEq δ] in
/-- The record replayed for a claim is the claimed record without its reconciliation reference. -/
theorem recordFromLease_claimed (request : ClaimOutboxRequest) (requestHash tokenHash : δ) :
    recordFromLease row (claimLease request requestHash tokenHash row) request.leaseToken =
      { claimed request (row.attempt + 1) row with reconciliationRef := none } := rfl

omit [DecidableEq δ] in
theorem recordFromLease_reclaimed (request : ReclaimOutboxRequest) (requestHash tokenHash : δ)
    (hc : row.check) (hs : row.state = .started) :
    recordFromLease row (reclaimLease request requestHash tokenHash row) request.leaseToken =
      reclaimed request (row.attempt + 1) (reclaimReconciliation request row) row := by
  have h := hc.2.2
  rw [OutboxRecord.stateCheck, hs] at h
  obtain ⟨hcertainty, -, -, -, -, hretry, hreceipt, herror, hresult, hreconciled, hcancel⟩ := h
  unfold recordFromLease reclaimLease reclaimed
  rw [← hs, ← hcertainty]
  cases row
  simp_all

omit [DecidableEq δ] in
theorem recordFromOutcome_reported {request : WorkerResultRequest} {outcome : WorkerOutcome}
    (requestHash : δ) (ho : ownsAttempt request row) :
    recordFromOutcome row (outcomeRow request outcome requestHash row) = reported outcome row := by
  simp only [ownsAttempt, Bool.and_eq_true, decide_eq_true_eq] at ho
  unfold recordFromOutcome outcomeRow reported
  rw [← ho.1.2]

omit [DecidableEq δ] in
theorem recordFromResolution_resolved {request : ResolveUnknownOutboxRequest} (requestHash : δ)
    (hc : row.check) (ha : resolveAuthorised request row) :
    recordFromResolution row (resolutionRow request requestHash) =
      resolved (resolutionRow request requestHash) row := by
  simp only [resolveAuthorised, Bool.and_eq_true, decide_eq_true_eq] at ha
  have h := hc.2.2
  rw [OutboxRecord.stateCheck, ha.1.1.1] at h
  have hlease := h.2.2.1
  simp only [OutboxRecord.leaseColumns, OutboxRecord.unleased, Prod.mk.injEq] at hlease
  have hattempt : (resolutionRow request requestHash).attempt = row.attempt := ha.1.1.2.symm
  unfold recordFromResolution resolved
  rw [hattempt, hlease.1, hlease.2.1, hlease.2.2.1, hlease.2.2.2]

end Equality

section Replay
variable {s t : OutboxTables δ} {m : OutboxMutation P} {answer : OutboxAnswer δ}
  {record : OutboxRecord δ}

/-- The claim, if it is one, takes a row that carries no reconciliation reference. -/
def ClaimsUnreconciled (s : OutboxTables δ) (m : OutboxMutation P) : Prop :=
  ∀ request row, m = .claimNext request → selectEligible s request = some row →
    row.reconciliationRef = none

/-- Resubmitting an applied mutation where its evidence is kept. -/
theorem transition_replay {s' : OutboxTables δ} (ht : Transition P referenced s m answer s')
    (hrecord : answer.record? = some record) (hkept : Kept record.outboxId s' t)
    (again : BoundedText 512 → Bool) :
    ∃ replayed, apply again m t = .ok (.ok replayed, t) ∧
      (replayed = answer.replay ↔ ClaimsUnreconciled s m) := by
  cases ht with
  | enqueue request inserted decided =>
    cases hrecord
    obtain ⟨x, hx, hid⟩ := hkept.row _ (Table.find?_insert?_self inserted)
    have hd := hkept.decision _ _ (by rintro id' n ⟨⟩) rfl (Table.find?_insert?_self decided)
    refine ⟨_, enqueue_replay hd hx hid, ?_⟩
    simp [OutboxAnswer.replay, ClaimsUnreconciled]
  | claimNext request row selected due rewritten leased decided =>
    cases hrecord
    obtain ⟨x, hx, hid⟩ := hkept.row _ rewritten.after
    have hd := hkept.decision _ _ (by rintro id' n ⟨⟩) rfl (Table.find?_insert?_self decided)
    have hl := hkept.lease _ _ (Table.find?_insert?_self leased)
    refine ⟨_, claim_replay hd hl hx hid, ?_⟩
    rw [recordFromLease_claimed]
    simp only [OutboxAnswer.replay, OutboxAnswer.leaseReplayed.injEq, OutboxLease.mk.injEq,
      and_true]
    have hclaims : ClaimsUnreconciled s (.claimNext request : OutboxMutation P) ↔
        row.reconciliationRef = none := by
      constructor
      · intro h
        exact h request row rfl selected
      · intro h request' row' he hsel
        cases he
        rw [selected, Option.some_inj] at hsel
        exact hsel ▸ h
    rw [hclaims]
    constructor
    · intro h
      exact (congrArg OutboxRecord.reconciliationRef h).symm
    · intro h
      unfold claimed
      rw [h]
  | reclaim request row authorised rewritten leased decided =>
    have hkey : row.outboxId = request.outboxId := Table.key_of_find? rewritten.before
    have hc := Table.check_of_find? rewritten.before
    have hs : row.state = .started := by
      simp only [reclaimAuthorised, Bool.and_eq_true, decide_eq_true_eq] at authorised
      exact authorised.1.1.1.1
    cases hrecord
    change Kept row.outboxId _ t at hkept
    rw [hkey] at hkept
    obtain ⟨x, hx, hid⟩ := hkept.row _ rewritten.after
    have hd := hkept.decision _ _ (by rintro id' n ⟨⟩) rfl (Table.find?_insert?_self decided)
    have hl := hkept.lease _ _ (Table.find?_insert?_self leased)
    refine ⟨_, reclaim_replay hd hl hx hid, ?_⟩
    rw [recordFromLease_reclaimed _ _ _ hc hs]
    simp [OutboxAnswer.replay, ClaimsUnreconciled]
  | report request outcome requestHash row isReport temporal owns rewritten recorded superseding
      decided =>
    have hkey : row.outboxId = request.outboxId := Table.key_of_find? rewritten.before
    cases hrecord
    change Kept row.outboxId _ t at hkept
    rw [hkey] at hkept
    obtain ⟨x, hx, hid⟩ := hkept.row _ rewritten.after
    have ho := hkept.outcome _ _ (Table.find?_insert?_self recorded)
    have happly : apply again m t = workerResult request outcome requestHash t := by
      cases m <;> cases isReport <;> rfl
    refine ⟨_, happly.trans (report_replay ho hx hid), ?_⟩
    rw [recordFromOutcome_reported requestHash owns]
    have hclaims : ClaimsUnreconciled s m := by
      intro request' row' he
      subst he
      cases isReport
    simp [OutboxAnswer.replay, hclaims]
  | resolve request row authorised rewritten recorded decided =>
    have hkey : row.outboxId = request.outboxId := Table.key_of_find? rewritten.before
    have hc := Table.check_of_find? rewritten.before
    cases hrecord
    change Kept row.outboxId _ t at hkept
    rw [hkey] at hkept
    obtain ⟨x, hx, hid⟩ := hkept.row _ rewritten.after
    have hd := hkept.decision _ _ (by rintro id' n ⟨⟩) rfl (Table.find?_insert?_self decided)
    have hr := hkept.resolution _ _ (Table.find?_insert?_self recorded)
    have hid' : recordFromEnqueue x = recordFromEnqueue row := hid
    refine ⟨_, resolve_replay hd hr hx hid', ?_⟩
    rw [recordFromResolution_resolved _ hc authorised]
    simp [OutboxAnswer.replay, ClaimsUnreconciled]
  | emptyClaim | staleReclaim | staleResolution | clean => cases hrecord

omit [DecidableEq δ] in
theorem record?_not_quiet (h : answer.record? = some record) : ¬ answer.quiet := by
  cases answer <;> first | exact id | cases h

theorem mutate_eq_ok {runtime : OutboxAdapterRuntime}
    (h : (mutate referenced runtime (some m) s).1 = .ok answer) :
    apply referenced m s = .ok (.ok answer, (mutate referenced runtime (some m) s).2) := by
  unfold mutate at h ⊢
  by_cases hbefore : runtime.beforeEffect = .preTransaction ∨ runtime.beforeEffect = .unreadable
  · simp only [hbefore, if_true] at h
    cases h
  · cases ha : apply referenced m s with
    | error fault =>
      simp only [hbefore, ha, if_false] at h
      cases h
    | ok w =>
      obtain ⟨a, s'⟩ := w
      cases a with
      | error e =>
        simp only [hbefore, ha, if_false] at h
        cases h
      | ok b =>
        simp only [hbefore, ha, if_false] at h ⊢
        by_cases hin : runtime.beforeEffect = .inTransaction
        · simp only [hin, if_true] at h
          cases h
        · cases hlost : runtime.lostAcknowledgement with
          | true =>
            simp only [hin, hlost, if_true, if_false] at h
            cases h
          | false =>
            simp only [hin, hlost, if_false, Bool.false_eq_true] at h ⊢
            cases h
            rfl

end Replay

/-- A mutation that returned a record or lease, resubmitted after any calls that do not delete the
row, returns it again as a replay and changes no table, exactly when it is not a claim of a row
that carries a reconciliation reference. -/
theorem outbox_replay_iff (s : OutboxTables δ) (first : OutboxCall P) {m : OutboxMutation P}
    {answer : OutboxAnswer δ} {record : OutboxRecord δ} (hrequest : first.request = some m)
    (hanswer : (mutate first.referenced first.runtime first.request s).1 = .ok answer)
    (hrecord : answer.record? = some record) (after : List (OutboxCall P))
    (hspare : Along callStep (Spares record.outboxId) (callStep s first) after)
    (again : BoundedText 512 → Bool) :
    mutate again .faultFree (some m) (runCalls (callStep s first) after) =
        (.ok answer.replay, runCalls (callStep s first) after) ↔
      ClaimsUnreconciled s m := by
  rw [hrequest] at hanswer
  have happly := mutate_eq_ok hanswer
  have hstep : callStep s first = (mutate first.referenced first.runtime (some m) s).2 := by
    rw [callStep, hrequest]
  rw [← hstep] at happly
  rcases apply_ok happly with ⟨-, hquiet⟩ | ⟨a, ha, ht⟩
  · exact absurd (hquiet answer rfl) (record?_not_quiet hrecord)
  · cases ha
    obtain ⟨replayed, hreplay, hiff⟩ := transition_replay ht hrecord (kept_run hspare) again
    rw [← hiff]
    simp [mutate, OutboxAdapterRuntime.faultFree, hreplay]

section Samples

def sampleResolvedMarkUnknown : MarkOutboxUnknownRequest where
  outboxId := sampleOutboxId
  workerId := sampleWorkerId
  expectedAttempt := sampleFirstAttempt
  leaseToken := sampleToken
  errorTag := sampleTag
  observedAt := sampleOpening

def sampleResolve : ResolveUnknownOutboxRequest where
  outboxId := sampleOutboxId
  expectedAttempt := sampleFirstAttempt
  reconciliationRef := sampleRef
  reconciledAt := sampleExpiry
  resolution := .notApplied sampleTag (some sampleRenewal)

def sampleSecondClaim : ClaimOutboxRequest :=
  { sampleClaim with
    leaseToken := sampleNextToken
    now := sampleRenewal
    leaseExpiresAt := sampleClosing
    now_lt_expiry := sampleReclaim.now_lt_expiry }

/-- The sample row after its unknown outcome has been reconciled as not applied, due for a retry. -/
def sampleRetryDue : OutboxTables OpenDigest :=
  runCalls (OutboxTables.empty OpenDigest)
    [sampleEnqueueCall, sampleClaimCall, plainCall (.markUnknown sampleResolvedMarkUnknown),
      plainCall (.resolveUnknown sampleResolve)]

def sampleRetryRow : OutboxRecord OpenDigest :=
  resolved (resolutionRow sampleResolve (hashCanonicalRequest openPlatform sampleResolve.json))
    (reported sampleResolvedMarkUnknown.outcome
      (claimed sampleClaim 1 (enqueuedRecord sampleEnqueue.toEnqueueFields)))

def sampleSecondLease : OutboxLease OpenDigest :=
  ⟨claimed sampleSecondClaim 2 sampleRetryRow, sampleWorkerId⟩

def sampleSecondClaimCall : OutboxCall openPlatform := plainCall (.claimNext sampleSecondClaim)

end Samples

/-- The claim of a reconciled row returns its reconciliation reference; the replay of the same
claim returns none. -/
theorem outbox_replay_differs :
    (mutate sampleSecondClaimCall.referenced .faultFree sampleSecondClaimCall.request
      sampleRetryDue).1 = .ok (.leaseApplied sampleSecondLease) ∧
    sampleSecondLease.record.reconciliationRef = some sampleRef ∧
    (mutate sampleSecondClaimCall.referenced .faultFree sampleSecondClaimCall.request
      (callStep sampleRetryDue sampleSecondClaimCall)).1 =
        .ok (.leaseReplayed { sampleSecondLease with
          record := { sampleSecondLease.record with reconciliationRef := none } }) := by
  decide

theorem outbox_replay_iff_sample :
    mutate (P := openPlatform) (fun _ => false) .faultFree (some (.claimNext sampleClaim))
        (runCalls (callStep (callStep (OutboxTables.empty OpenDigest) sampleEnqueueCall)
          sampleClaimCall) [sampleReclaimCall]) =
      (.ok (.leaseReplayed ⟨claimed sampleClaim 1 (enqueuedRecord sampleEnqueue.toEnqueueFields),
          sampleWorkerId⟩),
        runCalls (callStep (callStep (OutboxTables.empty OpenDigest) sampleEnqueueCall)
          sampleClaimCall) [sampleReclaimCall]) := by
  have hreclaim : ∀ request, sampleReclaimCall.request ≠ some (.cleanupTerminal request) := by
    simp [sampleReclaimCall, plainCall]
  have hanswer : (mutate sampleClaimCall.referenced sampleClaimCall.runtime sampleClaimCall.request
      (callStep (OutboxTables.empty OpenDigest) sampleEnqueueCall)).1 = .ok (.leaseApplied
        ⟨claimed sampleClaim 1 (enqueuedRecord sampleEnqueue.toEnqueueFields), sampleWorkerId⟩) := by
    decide
  refine (outbox_replay_iff _ sampleClaimCall rfl hanswer rfl [sampleReclaimCall]
    ⟨spares_of_request hreclaim, trivial⟩ _).mpr ?_
  intro request row he hsel
  cases he
  have hrow : selectEligible (callStep (OutboxTables.empty OpenDigest) sampleEnqueueCall)
      sampleClaim = some (enqueuedRecord sampleEnqueue.toEnqueueFields) := by decide
  rw [hrow, Option.some_inj] at hsel
  rw [← hsel]
  rfl

end Piclaw
