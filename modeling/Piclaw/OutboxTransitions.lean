import Piclaw.OutboxStore

/-!
# What one outbox transaction can do

`Transition` lists the committed effects of the store: for each mutation, the answer it gives when
it is neither refused nor replayed, the rows it inserts and the one outbox row it rewrites.
`apply_ok` is the inversion of the whole store: a transaction that returns either leaves every
table as it is or makes one of these transitions. Every later invariant is derived from it.

A stored row always decodes, because the table check implies `validateRecord`.
-/

namespace Piclaw
open Relational
variable {δ : Type} [DecidableEq δ] {P : Platform δ}

section Reads

omit [DecidableEq δ] in
theorem validateRecord_of_check {r : OutboxRecord δ} (h : r.check) : validateRecord r = true := by
  obtain ⟨-, hle, hs⟩ := h
  unfold OutboxRecord.stateCheck at hs
  unfold validateRecord expectedCertainty
  cases hstate : r.state with
  | started =>
    rw [hstate] at hs
    obtain ⟨hc, ha, hw, ht, ⟨claimed, hcl, expires, hex, hlt, -⟩, hr, -⟩ := hs
    obtain ⟨w, hw⟩ := Option.ne_none_iff_exists'.mp hw
    obtain ⟨tok, ht⟩ := Option.ne_none_iff_exists'.mp ht
    rw [Option.mem_def] at hcl hex
    have hpos : ¬ r.attempt = 0 := by omega
    simp [hc, hw, ht, hcl, hex, hlt, hr, hle, hpos, Nat.one_le_iff_ne_zero]
  | pending =>
    rw [hstate] at hs
    obtain ⟨hc, ha, hl, hr, -⟩ := hs
    simp only [OutboxRecord.leaseColumns, OutboxRecord.unleased, Prod.mk.injEq] at hl
    simp [hc, ha, hl, hr, hle]
  | completed =>
    rw [hstate] at hs
    obtain ⟨hc, ha, hl, hr, -⟩ := hs
    simp only [OutboxRecord.leaseColumns, OutboxRecord.unleased, Prod.mk.injEq] at hl
    have hpos : ¬ r.attempt = 0 := by omega
    simp [hc, hl, hr, hle, hpos, Nat.one_le_iff_ne_zero]
  | failed =>
    rw [hstate] at hs
    obtain ⟨hc, ha, hl, -, -, hres, hr, -⟩ := hs
    simp only [OutboxRecord.leaseColumns, OutboxRecord.unleased, Prod.mk.injEq] at hl
    have hpos : ¬ r.attempt = 0 := by omega
    simp only [nullOr, Option.mem_def] at hr
    simp [hc, hl, hres, hle, hpos, Nat.one_le_iff_ne_zero]
    intro a ha hretry
    exact hr ⟨a, ha⟩ hretry
  | unknown =>
    rw [hstate] at hs
    obtain ⟨hc, ha, hl, hr, -⟩ := hs
    simp only [OutboxRecord.leaseColumns, OutboxRecord.unleased, Prod.mk.injEq] at hl
    have hpos : ¬ r.attempt = 0 := by omega
    simp [hc, hl, hr, hle, hpos, Nat.one_le_iff_ne_zero]
  | cancelled =>
    rw [hstate] at hs
    obtain ⟨hc, ha, hl, hr, -⟩ := hs
    simp only [OutboxRecord.leaseColumns, OutboxRecord.unleased, Prod.mk.injEq] at hl
    have hpos : ¬ r.attempt = 0 := by omega
    simp [hc, hl, hr, hle, hpos, Nat.one_le_iff_ne_zero]

omit [DecidableEq δ] in
theorem decodeRecord_of_find? {s : OutboxTables δ} {id : BoundedText 512} {r : OutboxRecord δ}
    (h : s.outbox.find? id = some r) : decodeRecord r = .ok r := by
  rw [decodeRecord, if_pos (validateRecord_of_check (Table.check_of_find? h))]

omit [DecidableEq δ] in
theorem readRecord_eq (s : OutboxTables δ) (id : BoundedText 512) :
    readRecord s id = .ok (s.outbox.find? id) := by
  unfold readRecord
  cases h : s.outbox.find? id with
  | none => rfl
  | some r =>
    change (decodeRecord r).map some = _
    rw [decodeRecord_of_find? h]
    rfl

omit [DecidableEq δ] in
theorem requireRecord_eq_ok {s : OutboxTables δ} {id : BoundedText 512} {r : OutboxRecord δ} :
    requireRecord s id = .ok r ↔ s.outbox.find? id = some r := by
  unfold requireRecord
  rw [readRecord_eq]
  cases h : s.outbox.find? id with
  | none => simp [bind, Except.bind]
  | some x => simp [bind, Except.bind]

end Reads

section Statements
variable {s s' : OutboxTables δ}

theorem writeDecision_eq_ok {row : DecisionRow δ} : writeDecision s row = .ok s' ↔
    ∃ t, s.decisions.insert? row = some t ∧ s' = { s with decisions := t } :=
  require_bind_eq_ok

theorem writeLease_eq_ok {row : LeaseRow δ} : writeLease s row = .ok s' ↔
    ∃ t, s.leases.insert? row = some t ∧ s' = { s with leases := t } :=
  require_bind_eq_ok

omit [DecidableEq δ] in
theorem writeOutcome_eq_ok {row : OutcomeRow δ} : writeOutcome s row = .ok s' ↔
    ∃ t, s.outcomes.insert? row = some t ∧ s' = { s with outcomes := t } :=
  require_bind_eq_ok

omit [DecidableEq δ] in
theorem writeResolution_eq_ok {row : ResolutionRow δ} : writeResolution s row = .ok s' ↔
    ∃ t, s.resolutions.insert? row = some t ∧ s' = { s with resolutions := t } :=
  require_bind_eq_ok

omit [DecidableEq δ] in
theorem insertOutbox_eq_ok {row : OutboxRecord δ} : insertOutbox s row = .ok s' ↔
    ∃ t, s.outbox.insert? row = some t ∧ s' = { s with outbox := t } :=
  require_bind_eq_ok

omit [DecidableEq δ] in
theorem updateOutbox_eq_ok {p : OutboxRecord δ → Bool} {f : OutboxRecord δ → OutboxRecord δ}
    {n : ℕ} : updateOutbox s p f = .ok (s', n) ↔
    ∃ t, s.outbox.update? p f = some (t, n) ∧ s' = { s with outbox := t } := by
  change (require _ (s.outbox.update? p f) >>=
    fun w => .ok ({ s with outbox := w.1 }, w.2)) = _ ↔ _
  rw [require_bind_eq_ok]
  constructor
  · rintro ⟨⟨t, m⟩, ht, he⟩
    cases he
    exact ⟨t, ht, rfl⟩
  · rintro ⟨t, ht, rfl⟩
    exact ⟨(t, n), ht, rfl⟩

omit [DecidableEq δ] in
/-- An update addressed at a stored row that its guard admits changes that row. -/
theorem updateOutbox_row {p : OutboxRecord δ → Bool} {f : OutboxRecord δ → OutboxRecord δ}
    {id : BoundedText 512} {r : OutboxRecord δ} {n : ℕ} (hp : ∀ r, p r → r.outboxId = id)
    (hf : ∀ r, (f r).outboxId = r.outboxId) (hr : s.outbox.find? id = some r) (hpr : p r)
    (h : updateOutbox s p f = .ok (s', n)) :
    n = 1 ∧ ∃ t, s' = { s with outbox := t } ∧ Table.Rewrites s.outbox t id r (f r) := by
  obtain ⟨t, ht, rfl⟩ := updateOutbox_eq_ok.mp h
  obtain ⟨hn, hrewrites⟩ := Table.rewrites_of_guarded hp (fun r _ => hf r) hr hpr ht
  exact ⟨hn, t, rfl, hrewrites⟩

end Statements

/-- The worker result that a mutation reports, with the digest it is filed under. -/
def OutboxMutation.report? : OutboxMutation P → Option (WorkerResultRequest × WorkerOutcome × δ)
  | .complete r => some (r.toWorkerResultRequest, r.outcome, hashCanonicalRequest P r.json)
  | .fail r => some (r.toWorkerResultRequest, r.outcome, hashCanonicalRequest P r.json)
  | .markUnknown r => some (r.toWorkerResultRequest, r.outcome, hashCanonicalRequest P r.json)
  | _ => none

def emptyDecision (requestHash tokenHash : δ) : DecisionRow δ where
  key := .claim tokenHash
  method := .claimNext
  requestHash := requestHash
  outcome := .empty
  outboxId := none
  attempt := none
  tokenHash := some tokenHash
  resultJson := none

/-- The committed effects of the store, by mutation and answer. -/
inductive Transition (P : Platform δ) (referenced : BoundedText 512 → Bool) :
    OutboxTables δ → OutboxMutation P → OutboxAnswer δ → OutboxTables δ → Prop
  | enqueue {s : OutboxTables δ} {outbox decisions} (request : EnqueueOutboxRequest P)
      (inserted : s.outbox.insert? (enqueuedRecord request.toEnqueueFields) = some outbox)
      (decided : s.decisions.insert? (enqueueDecision request.toEnqueueFields) = some decisions) :
      Transition P referenced s (.enqueue request)
        (.applied (enqueuedRecord request.toEnqueueFields))
        { s with outbox := outbox, decisions := decisions }
  | emptyClaim {s : OutboxTables δ} {decisions} (request : ClaimOutboxRequest)
      (unleased : s.leases.find? (hashToken P request.leaseToken.1) = none)
      (nothingDue : selectEligible s request = none)
      (decided : s.decisions.insert? (emptyDecision (hashCanonicalRequest P request.json)
        (hashToken P request.leaseToken.1)) = some decisions) :
      Transition P referenced s (.claimNext request) .empty { s with decisions := decisions }
  | claimNext {s : OutboxTables δ} {outbox leases decisions} (request : ClaimOutboxRequest)
      (row : OutboxRecord δ) (selected : selectEligible s request = some row)
      (due : dueBy request.now row)
      (rewritten : Table.Rewrites s.outbox outbox row.outboxId row
        (claimed request (row.attempt + 1) row))
      (leased : s.leases.insert? (claimLease request (hashCanonicalRequest P request.json)
        (hashToken P request.leaseToken.1) row) = some leases)
      (decided : s.decisions.insert? (claimDecision (hashCanonicalRequest P request.json)
        (hashToken P request.leaseToken.1) row) = some decisions) :
      Transition P referenced s (.claimNext request)
        (.leaseApplied ⟨claimed request (row.attempt + 1) row, request.workerId⟩)
        { s with outbox := outbox, leases := leases, decisions := decisions }
  | staleReclaim {s : OutboxTables δ} {decisions} (request : ReclaimOutboxRequest)
      (row : OutboxRecord δ) (unleased : s.leases.find? (hashToken P request.leaseToken.1) = none)
      (found : s.outbox.find? request.outboxId = some row)
      (unauthorised : reclaimAuthorised request row = false)
      (decided : s.decisions.insert? (reclaimDecision request
        (hashCanonicalRequest P request.json) .stale request.expectedAttempt.1 none)
        = some decisions) :
      Transition P referenced s (.reclaim request) .stale { s with decisions := decisions }
  | reclaim {s : OutboxTables δ} {outbox leases decisions} (request : ReclaimOutboxRequest)
      (row : OutboxRecord δ) (authorised : reclaimAuthorised request row)
      (rewritten : Table.Rewrites s.outbox outbox request.outboxId row
        (reclaimed request (row.attempt + 1) (reclaimReconciliation request row) row))
      (leased : s.leases.insert? (reclaimLease request (hashCanonicalRequest P request.json)
        (hashToken P request.leaseToken.1) row) = some leases)
      (decided : s.decisions.insert? (reclaimDecision request
        (hashCanonicalRequest P request.json) .applied (row.attempt + 1)
        (some (hashToken P request.leaseToken.1))) = some decisions) :
      Transition P referenced s (.reclaim request)
        (.applied (reclaimed request (row.attempt + 1) (reclaimReconciliation request row) row))
        { s with outbox := outbox, leases := leases, decisions := decisions }
  | report {s : OutboxTables δ} {outbox outcomes decisions} {superseded : Table (decisionSchema δ)}
      {m : OutboxMutation P}
      (request : WorkerResultRequest) (outcome : WorkerOutcome) (requestHash : δ)
      (row : OutboxRecord δ) (isReport : m.report? = some (request, outcome, requestHash))
      (temporal : outcomeTemporal outcome row) (owns : ownsAttempt request row)
      (rewritten : Table.Rewrites s.outbox outbox request.outboxId row (reported outcome row))
      (recorded : s.outcomes.insert? (outcomeRow request outcome requestHash row) = some outcomes)
      (superseding : ∀ k, superseded.find? k = (s.decisions.find? k).filter
        (fun _ => !decide (k = .outcome request.outboxId request.expectedAttempt.1)))
      (decided : superseded.insert? (outcomeDecision request outcome requestHash)
        = some decisions) :
      Transition P referenced s m (.applied (reported outcome row))
        { s with outbox := outbox, outcomes := outcomes, decisions := decisions }
  | staleResolution {s : OutboxTables δ} {decisions} (request : ResolveUnknownOutboxRequest)
      (row : OutboxRecord δ) (found : s.outbox.find? request.outboxId = some row)
      (unauthorised : resolveAuthorised request row = false)
      (decided : s.decisions.insert? (resolveDecision request
        (hashCanonicalRequest P request.json) .stale) = some decisions) :
      Transition P referenced s (.resolveUnknown request) .stale { s with decisions := decisions }
  | resolve {s : OutboxTables δ} {outbox resolutions decisions}
      (request : ResolveUnknownOutboxRequest) (row : OutboxRecord δ)
      (authorised : resolveAuthorised request row)
      (rewritten : Table.Rewrites s.outbox outbox request.outboxId row
        (resolved (resolutionRow request (hashCanonicalRequest P request.json)) row))
      (recorded : s.resolutions.insert? (resolutionRow request
        (hashCanonicalRequest P request.json)) = some resolutions)
      (decided : s.decisions.insert? (resolveDecision request
        (hashCanonicalRequest P request.json) .applied) = some decisions) :
      Transition P referenced s (.resolveUnknown request)
        (.applied (resolved (resolutionRow request (hashCanonicalRequest P request.json)) row))
        { s with outbox := outbox, resolutions := resolutions, decisions := decisions }
  | clean {s cleaned : OutboxTables δ} {decisions} (request : CleanupTerminalOutboxRequest)
      (deleted : deleteRows referenced (selectTerminal s request) s = .ok cleaned)
      (decided : cleaned.decisions.insert? (cleanupDecision request
        (hashCanonicalRequest P request.json)
        (cleanupResult request.limit.1 (selectTerminal s request))) = some decisions) :
      Transition P referenced s (.cleanupTerminal request)
        (.cleaned (cleanupResult request.limit.1 (selectTerminal s request)))
        { cleaned with decisions := decisions }

section Inversion
variable {referenced : BoundedText 512 → Bool} {s s' : OutboxTables δ} {a : Attempted δ}

/-- The answers of a call that changes nothing: replays and refusals. -/
def OutboxAnswer.quiet : OutboxAnswer δ → Prop
  | .replayed _ | .leaseReplayed _ | .emptyReplayed | .cleanupReplayed _ | .stale => True
  | .applied _ | .leaseApplied _ | .empty | .cleaned _ => False

/-- An error or a quiet answer. -/
def Unmoved (a : Attempted δ) : Prop := ∀ answer, a = .ok answer → answer.quiet

omit [DecidableEq δ] in
theorem unmoved_error (e : OutboxStoreError) : Unmoved (.error e : Attempted δ) := by
  intro answer h
  cases h

omit [DecidableEq δ] in
theorem unmoved_ok {answer : OutboxAnswer δ} (h : answer.quiet) : Unmoved (.ok answer) := by
  intro b hb
  cases hb
  exact h

/-- Either nothing changed or a transition was made. -/
def Stepped (P : Platform δ) (referenced : BoundedText 512 → Bool) (s : OutboxTables δ)
    (m : OutboxMutation P) (a : Attempted δ) (s' : OutboxTables δ) : Prop :=
  (s' = s ∧ Unmoved a) ∨ ∃ answer, a = .ok answer ∧ Transition P referenced s m answer s'

theorem insertEnqueue_ok {request : EnqueueOutboxRequest P}
    (h : insertEnqueue request s = .ok (a, s')) :
    Stepped P referenced s (.enqueue request) a s' := by
  unfold insertEnqueue at h
  cases hd : s.decisions.find? (.enqueue request.kind request.effect.idempotencyKey) with
  | some known =>
    refine Or.inl ?_
    simp only [hd, readRecord_eq] at h
    split_ifs at h
    · cases h
      exact ⟨rfl, unmoved_error _⟩
    · cases hid : known.outboxId with
      | none =>
        simp only [hid] at h
        cases h
        exact ⟨rfl, unmoved_error _⟩
      | some id =>
        simp only [hid, ok_bind] at h
        cases hr : s.outbox.find? id with
        | none =>
          simp only [hr] at h
          cases h
          exact ⟨rfl, unmoved_error _⟩
        | some record =>
          simp only [hr] at h
          cases h
          exact ⟨rfl, unmoved_ok trivial⟩
  | none =>
    simp only [hd] at h
    split_ifs at h with hex
    · cases h
      exact Or.inl ⟨rfl, unmoved_error _⟩
    · obtain ⟨s₁, h₁, h⟩ := bind_eq_ok.mp h
      obtain ⟨s₂, h₂, h⟩ := bind_eq_ok.mp h
      obtain ⟨outbox, ho, rfl⟩ := insertOutbox_eq_ok.mp h₁
      obtain ⟨decisions, hdec, rfl⟩ := writeDecision_eq_ok.mp h₂
      have hfind : outbox.find? request.outboxId = some (enqueuedRecord request.toEnqueueFields) :=
        Table.find?_insert?_self ho
      simp only [readRecord_eq, hfind, bind, Except.bind] at h
      cases h
      exact Or.inr ⟨_, rfl, .enqueue request ho hdec⟩

omit [DecidableEq δ] in
theorem mem_of_selectEligible {request : ClaimOutboxRequest} {row : OutboxRecord δ}
    (h : selectEligible s request = some row) :
    row ∈ s.outbox.rows ∧ row.kind ∈ request.kinds ∧ dueBy request.now row := by
  have hmem := List.mem_of_head? h
  rw [List.mem_insertionSort, List.mem_filter] at hmem
  simp only [List.contains_eq_mem, Bool.and_eq_true, decide_eq_true_eq] at hmem
  exact ⟨hmem.1, hmem.2.1, hmem.2.2⟩

theorem emptyClaim_eq_ok {requestHash tokenHash : δ}
    (h : emptyClaim s requestHash tokenHash = .ok (a, s')) :
    a = .ok .empty ∧ ∃ decisions, s.decisions.insert? (emptyDecision requestHash tokenHash)
      = some decisions ∧ s' = { s with decisions := decisions } := by
  obtain ⟨s₁, h₁, h⟩ := bind_eq_ok.mp h
  obtain ⟨decisions, hdec, rfl⟩ := writeDecision_eq_ok.mp h₁
  cases h
  exact ⟨rfl, decisions, hdec, rfl⟩

/-- A claim is fresh only when its token has neither a decision nor a lease. -/
theorem readClaimReplay_eq_none {request : ClaimOutboxRequest} {requestHash tokenHash : δ}
    (h : readClaimReplay s request requestHash tokenHash = .ok none) :
    s.decisions.find? (.claim tokenHash) = none ∧ s.leases.find? tokenHash = none := by
  unfold readClaimReplay at h
  cases hd : s.decisions.find? (.claim tokenHash) with
  | none =>
    refine ⟨rfl, ?_⟩
    cases hl : s.leases.find? tokenHash with
    | none => rfl
    | some lease =>
      simp only [hd, hl] at h
      split_ifs at h
      · obtain ⟨_, -, h⟩ := bind_eq_ok.mp h
        obtain ⟨_, -, h⟩ := bind_eq_ok.mp h
        cases h
      · cases h
  | some d =>
    simp only [hd] at h
    split_ifs at h
    · cases h
    · cases h
    · cases hl : s.leases.find? tokenHash with
      | none =>
        simp only [hl] at h
        cases h
      | some lease =>
        simp only [hl] at h
        split_ifs at h
        · cases h
        · obtain ⟨_, -, h⟩ := bind_eq_ok.mp h
          obtain ⟨_, -, h⟩ := bind_eq_ok.mp h
          cases h

/-- The answer that a claim replays is quiet. -/
theorem readClaimReplay_unmoved {request : ClaimOutboxRequest} {requestHash tokenHash : δ}
    (h : readClaimReplay s request requestHash tokenHash = .ok (some a)) : Unmoved a := by
  unfold readClaimReplay at h
  cases hd : s.decisions.find? (.claim tokenHash) with
  | none =>
    cases hl : s.leases.find? tokenHash with
    | none =>
      simp only [hd, hl] at h
      cases h
    | some lease =>
      simp only [hd, hl] at h
      split_ifs at h
      · obtain ⟨_, -, h⟩ := bind_eq_ok.mp h
        obtain ⟨_, -, h⟩ := bind_eq_ok.mp h
        cases h
        exact unmoved_ok trivial
      · cases h
        exact unmoved_error _
  | some d =>
    simp only [hd] at h
    split_ifs at h
    · cases h
      exact unmoved_error _
    · cases h
      exact unmoved_ok trivial
    · cases hl : s.leases.find? tokenHash with
      | none =>
        simp only [hl] at h
        cases h
        exact unmoved_error _
      | some lease =>
        simp only [hl] at h
        split_ifs at h
        · cases h
          exact unmoved_error _
        · obtain ⟨_, -, h⟩ := bind_eq_ok.mp h
          obtain ⟨_, -, h⟩ := bind_eq_ok.mp h
          cases h
          exact unmoved_ok trivial

theorem claimNext_ok {request : ClaimOutboxRequest} (h : claimNext P request s = .ok (a, s')) :
    Stepped P referenced s (.claimNext request) a s' := by
  obtain ⟨replay, hreplay, h⟩ := bind_eq_ok.mp h
  cases replay with
  | some answer =>
    cases h
    exact Or.inl ⟨rfl, readClaimReplay_unmoved hreplay⟩
  | none =>
    obtain ⟨-, hfree⟩ := readClaimReplay_eq_none hreplay
    cases hsel : selectEligible s request with
    | none =>
      simp only [hsel] at h
      obtain ⟨rfl, decisions, hdec, rfl⟩ := emptyClaim_eq_ok h
      exact Or.inr ⟨_, rfl, .emptyClaim request hfree hsel hdec⟩
    | some row =>
      simp only [hsel] at h
      obtain ⟨hmem, -, hdue⟩ := mem_of_selectEligible hsel
      have hfind : s.outbox.find? row.outboxId = some row := Table.find?_of_mem hmem
      obtain ⟨current, hcur, h⟩ := bind_eq_ok.mp h
      rw [decodeRecord_of_find? hfind] at hcur
      cases hcur
      obtain ⟨⟨s₁, changes⟩, h₁, h⟩ := bind_eq_ok.mp h
      have hguard : ∀ r : OutboxRecord δ, claimable request row r → r.outboxId = row.outboxId := by
        intro r hr
        simp only [claimable, Bool.and_eq_true, decide_eq_true_eq] at hr
        exact hr.1.1
      obtain ⟨rfl, outbox, rfl, hw⟩ := updateOutbox_row (f := claimed request (row.attempt + 1)) hguard
        (fun _ => rfl) hfind (by simp [claimable, hdue]) h₁
      simp only [ne_eq, not_true_eq_false, if_false] at h
      obtain ⟨s₂, h₂, h⟩ := bind_eq_ok.mp h
      obtain ⟨leases, hl, rfl⟩ := writeLease_eq_ok.mp h₂
      obtain ⟨s₃, h₃, h⟩ := bind_eq_ok.mp h
      obtain ⟨decisions, hdec, rfl⟩ := writeDecision_eq_ok.mp h₃
      obtain ⟨record, hrec, h⟩ := bind_eq_ok.mp h
      have hrec' := requireRecord_eq_ok.mp hrec
      change outbox.find? _ = _ at hrec'
      rw [hw.after, Option.some_inj] at hrec'
      subst hrec'
      obtain ⟨lease, hlease, h⟩ := bind_eq_ok.mp h
      cases hlease
      cases h
      exact Or.inr ⟨_, rfl, .claimNext request row hsel hdue hw hl hdec⟩

theorem readReclaimReplay_unmoved {request : ReclaimOutboxRequest} {requestHash : δ}
    (h : readReclaimReplay P s request requestHash = .ok (some a)) : Unmoved a := by
  unfold readReclaimReplay at h
  cases hd : s.decisions.find? (.reclaim request.outboxId request.expectedAttempt.1) with
  | none =>
    simp only [hd] at h
    cases h
  | some d =>
    simp only [hd] at h
    split_ifs at h
    · cases h
      exact unmoved_error _
    · cases h
      exact unmoved_ok trivial
    · cases hl : s.leases.find? (hashToken P request.leaseToken.1) with
      | none =>
        simp only [hl] at h
        cases h
        exact unmoved_error _
      | some lease =>
        simp only [hl] at h
        obtain ⟨_, -, h⟩ := bind_eq_ok.mp h
        cases h
        exact unmoved_ok trivial

theorem staleReclaim_eq_ok {request : ReclaimOutboxRequest} {requestHash : δ}
    (h : staleReclaim request requestHash s = .ok (a, s')) :
    a = .ok .stale ∧ ∃ decisions, s.decisions.insert? (reclaimDecision request requestHash .stale
      request.expectedAttempt.1 none) = some decisions ∧ s' = { s with decisions := decisions } := by
  obtain ⟨s₁, h₁, h⟩ := bind_eq_ok.mp h
  obtain ⟨decisions, hdec, rfl⟩ := writeDecision_eq_ok.mp h₁
  cases h
  exact ⟨rfl, decisions, hdec, rfl⟩

omit [DecidableEq δ] in
theorem reclaimable_of_authorised {request : ReclaimOutboxRequest} {row : OutboxRecord δ}
    (hid : row.outboxId = request.outboxId) (h : reclaimAuthorised request row) :
    reclaimable request row := by
  simp only [reclaimAuthorised, Bool.and_eq_true] at h
  simp only [reclaimable, Bool.and_eq_true, decide_eq_true_eq, hid, true_and]
  exact ⟨⟨⟨by simpa using h.1.1.1.1, by simpa using h.1.1.1.2⟩, h.1.1.2⟩, h.1.2⟩

theorem reclaim_ok {request : ReclaimOutboxRequest} (h : reclaim P request s = .ok (a, s')) :
    Stepped P referenced s (.reclaim request) a s' := by
  obtain ⟨replay, hreplay, h⟩ := bind_eq_ok.mp h
  cases replay with
  | some answer =>
    cases h
    exact Or.inl ⟨rfl, readReclaimReplay_unmoved hreplay⟩
  | none =>
    simp only [Option.isSome_iff_ne_none, ne_eq] at h
    split_ifs at h with hlease
    · simp only [readRecord_eq, ok_bind] at h
      cases hr : s.outbox.find? request.outboxId with
      | none =>
        simp only [hr] at h
        cases h
        exact Or.inl ⟨rfl, unmoved_error _⟩
      | some row =>
        simp only [hr] at h
        split_ifs at h with hauth
        · obtain ⟨⟨s₁, changes⟩, h₁, h⟩ := bind_eq_ok.mp h
          have hguard : ∀ r : OutboxRecord δ, reclaimable request r →
              r.outboxId = request.outboxId := by
            intro r hr
            simp only [reclaimable, Bool.and_eq_true, decide_eq_true_eq] at hr
            exact hr.1.1.1.1
          obtain ⟨rfl, outbox, rfl, hw⟩ := updateOutbox_row
            (f := reclaimed request (row.attempt + 1) (reclaimReconciliation request row)) hguard
            (fun _ => rfl) hr (reclaimable_of_authorised (Table.key_of_find? hr) hauth) h₁
          simp only [if_true] at h
          obtain ⟨s₂, h₂, h⟩ := bind_eq_ok.mp h
          obtain ⟨leases, hl, rfl⟩ := writeLease_eq_ok.mp h₂
          obtain ⟨record, hrec, h⟩ := bind_eq_ok.mp h
          have hrec' := requireRecord_eq_ok.mp hrec
          change outbox.find? _ = _ at hrec'
          rw [hw.after, Option.some_inj] at hrec'
          subst hrec'
          obtain ⟨s₃, h₃, h⟩ := bind_eq_ok.mp h
          obtain ⟨decisions, hdec, rfl⟩ := writeDecision_eq_ok.mp h₃
          cases h
          exact Or.inr ⟨_, rfl, .reclaim request row hauth hw hl hdec⟩
        · obtain ⟨rfl, decisions, hdec, rfl⟩ := staleReclaim_eq_ok h
          exact Or.inr ⟨_, rfl, .staleReclaim request row hlease hr (by simpa using hauth) hdec⟩
    · cases h
      exact Or.inl ⟨rfl, unmoved_error _⟩

theorem supersede_eq_ok {key : DecisionKey δ} (h : supersede s key (s.decisions.find? key) = .ok s') :
    ∃ decisions, s' = { s with decisions := decisions } ∧
      ∀ k, decisions.find? k = (s.decisions.find? k).filter (fun _ => !decide (k = key)) := by
  cases hd : s.decisions.find? key with
  | none =>
    rw [hd] at h
    cases h
    refine ⟨s.decisions, rfl, ?_⟩
    intro k
    by_cases hk : k = key
    · rw [hk, hd, Option.filter_none]
    · cases hx : s.decisions.find? k with
      | none => rfl
      | some d => rw [Option.filter_some, if_pos (by simpa using hk)]
  | some previous =>
    rw [hd] at h
    unfold supersede at h
    simp only at h
    split_ifs at h with hcount
    cases h
    refine ⟨_, rfl, ?_⟩
    intro k
    rw [Table.find?_delete]
    cases hx : s.decisions.find? k with
    | none => rfl
    | some d =>
      have hkey : d.key = k := Table.key_of_find? hx
      have hone := not_not.mp hcount
      obtain ⟨d', hd', hp'⟩ := List.countP_pos_iff.mp (hone ▸ Nat.one_pos)
      have hsame : k = key → d' = d := by
        rintro rfl
        simp only [Bool.and_eq_true, decide_eq_true_eq] at hp'
        have hfind : s.decisions.find? d'.key = some d' := Table.find?_of_mem hd'
        rw [hp'.1.1.1, hx, Option.some_inj] at hfind
        exact hfind.symm
      rw [Option.filter_some, Option.filter_some]
      by_cases hk : k = key
      · rw [hsame hk] at hp'
        simp only [hp', hk, decide_true, Bool.not_true]
      · have hne : ¬ d.key = key := fun he => hk (hkey ▸ he)
        simp only [hk, hne, decide_false, Bool.false_and, Bool.not_false]

omit [DecidableEq δ] in
theorem reportable_of_owns {request : WorkerResultRequest} {outcome : WorkerOutcome}
    {row : OutboxRecord δ} (hid : row.outboxId = request.outboxId)
    (ht : outcomeTemporal outcome row) (ho : ownsAttempt request row) :
    reportable request outcome row := by
  simp only [outcomeTemporal, Bool.and_eq_true] at ht
  simp only [reportable, Bool.and_eq_true, decide_eq_true_eq]
  exact ⟨⟨⟨hid, ho⟩, ht.1.1⟩, ht.1.2⟩

theorem workerResult_ok {m : OutboxMutation P} {request : WorkerResultRequest}
    {outcome : WorkerOutcome} {requestHash : δ} (hm : m.report? = some (request, outcome, requestHash))
    (h : workerResult request outcome requestHash s = .ok (a, s')) :
    Stepped P referenced s m a s' := by
  unfold workerResult at h
  cases hknown : s.outcomes.find? (request.outboxId, request.expectedAttempt.1) with
  | some known =>
    refine Or.inl ?_
    simp only [hknown] at h
    split_ifs at h
    · obtain ⟨_, -, h⟩ := bind_eq_ok.mp h
      cases h
      exact ⟨rfl, unmoved_ok trivial⟩
    · cases h
      exact ⟨rfl, unmoved_ok trivial⟩
  | none =>
    simp only [hknown] at h
    split_ifs at h
    · cases h
      exact Or.inl ⟨rfl, unmoved_ok trivial⟩
    · cases h
      exact Or.inl ⟨rfl, unmoved_ok trivial⟩
    · simp only [readRecord_eq, ok_bind] at h
      cases hr : s.outbox.find? request.outboxId with
      | none =>
        simp only [hr] at h
        cases h
        exact Or.inl ⟨rfl, unmoved_error _⟩
      | some row =>
        simp only [hr] at h
        split_ifs at h with hguarded
        · cases h
          exact Or.inl ⟨rfl, unmoved_ok trivial⟩
        · simp only [Bool.or_eq_true, Bool.not_eq_true', not_or, Bool.not_eq_false] at hguarded
          obtain ⟨⟨s₁, changes⟩, h₁, h⟩ := bind_eq_ok.mp h
          have hguard : ∀ r : OutboxRecord δ, reportable request outcome r →
              r.outboxId = request.outboxId := by
            intro r hr
            simp only [reportable, Bool.and_eq_true, decide_eq_true_eq] at hr
            exact hr.1.1.1
          obtain ⟨rfl, outbox, rfl, hw⟩ := updateOutbox_row (f := reported outcome) hguard
            (fun _ => rfl) hr
            (reportable_of_owns (Table.key_of_find? hr) hguarded.1 hguarded.2) h₁
          simp only [ne_eq, not_true_eq_false, if_false] at h
          obtain ⟨s₂, h₂, h⟩ := bind_eq_ok.mp h
          obtain ⟨superseded, rfl, hsup⟩ := supersede_eq_ok h₂
          obtain ⟨s₃, h₃, h⟩ := bind_eq_ok.mp h
          obtain ⟨outcomes, hout, rfl⟩ := writeOutcome_eq_ok.mp h₃
          obtain ⟨record, hrec, h⟩ := bind_eq_ok.mp h
          have hrec' := requireRecord_eq_ok.mp hrec
          change outbox.find? _ = _ at hrec'
          rw [hw.after, Option.some_inj] at hrec'
          subst hrec'
          obtain ⟨s₄, h₄, h⟩ := bind_eq_ok.mp h
          obtain ⟨decisions, hdec, rfl⟩ := writeDecision_eq_ok.mp h₄
          cases h
          exact Or.inr ⟨_, rfl, .report request outcome requestHash row hm hguarded.1 hguarded.2 hw
            hout hsup hdec⟩

theorem readResolveReplay_unmoved {request : ResolveUnknownOutboxRequest} {requestHash : δ}
    (h : readResolveReplay s request requestHash = .ok (some a)) : Unmoved a := by
  unfold readResolveReplay at h
  cases hd : s.decisions.find? (.resolve request.outboxId request.expectedAttempt.1) with
  | none =>
    simp only [hd] at h
    cases h
  | some d =>
    simp only [hd] at h
    split_ifs at h
    · cases h
      exact unmoved_error _
    · cases h
      exact unmoved_ok trivial
    · cases hl : s.resolutions.find? (request.outboxId, request.expectedAttempt.1) with
      | none =>
        simp only [hl] at h
        cases h
        exact unmoved_error _
      | some resolution =>
        simp only [hl] at h
        split_ifs at h
        · cases h
          exact unmoved_error _
        · obtain ⟨_, -, h⟩ := bind_eq_ok.mp h
          cases h
          exact unmoved_ok trivial

theorem staleResolution_eq_ok {request : ResolveUnknownOutboxRequest} {requestHash : δ}
    (h : staleResolution request requestHash s = .ok (a, s')) :
    a = .ok .stale ∧ ∃ decisions, s.decisions.insert? (resolveDecision request requestHash .stale)
      = some decisions ∧ s' = { s with decisions := decisions } := by
  obtain ⟨s₁, h₁, h⟩ := bind_eq_ok.mp h
  obtain ⟨decisions, hdec, rfl⟩ := writeDecision_eq_ok.mp h₁
  cases h
  exact ⟨rfl, decisions, hdec, rfl⟩

omit [DecidableEq δ] in
theorem resolvable_of_authorised {request : ResolveUnknownOutboxRequest} {row : OutboxRecord δ}
    (hid : row.outboxId = request.outboxId) (h : resolveAuthorised request row) :
    resolvable request row := by
  simp only [resolveAuthorised, Bool.and_eq_true] at h
  simp only [resolvable, Bool.and_eq_true, decide_eq_true_eq, hid, true_and]
  exact ⟨⟨by simpa using h.1.1.1, by simpa using h.1.1.2⟩, h.1.2⟩

theorem resolveUnknown_ok {request : ResolveUnknownOutboxRequest}
    (h : resolveUnknown P request s = .ok (a, s')) :
    Stepped P referenced s (.resolveUnknown request) a s' := by
  obtain ⟨replay, hreplay, h⟩ := bind_eq_ok.mp h
  cases replay with
  | some answer =>
    cases h
    exact Or.inl ⟨rfl, readResolveReplay_unmoved hreplay⟩
  | none =>
    simp only [readRecord_eq, ok_bind] at h
    cases hr : s.outbox.find? request.outboxId with
    | none =>
      simp only [hr] at h
      cases h
      exact Or.inl ⟨rfl, unmoved_error _⟩
    | some row =>
      simp only [hr] at h
      split_ifs at h with hauth
      · obtain ⟨⟨s₁, changes⟩, h₁, h⟩ := bind_eq_ok.mp h
        have hguard : ∀ r : OutboxRecord δ, resolvable request r →
            r.outboxId = request.outboxId := by
          intro r hr
          simp only [resolvable, Bool.and_eq_true, decide_eq_true_eq] at hr
          exact hr.1.1.1
        obtain ⟨rfl, outbox, rfl, hw⟩ := updateOutbox_row
          (f := resolved (resolutionRow request (hashCanonicalRequest P request.json))) hguard
          (fun _ => rfl) hr (resolvable_of_authorised (Table.key_of_find? hr) hauth) h₁
        simp only [if_true] at h
        obtain ⟨s₂, h₂, h⟩ := bind_eq_ok.mp h
        obtain ⟨resolutions, hres, rfl⟩ := writeResolution_eq_ok.mp h₂
        obtain ⟨record, hrec, h⟩ := bind_eq_ok.mp h
        have hrec' := requireRecord_eq_ok.mp hrec
        change outbox.find? _ = _ at hrec'
        rw [hw.after, Option.some_inj] at hrec'
        subst hrec'
        obtain ⟨s₃, h₃, h⟩ := bind_eq_ok.mp h
        obtain ⟨decisions, hdec, rfl⟩ := writeDecision_eq_ok.mp h₃
        cases h
        exact Or.inr ⟨_, rfl, .resolve request row hauth hw hres hdec⟩
      · obtain ⟨rfl, decisions, hdec, rfl⟩ := staleResolution_eq_ok h
        exact Or.inr ⟨_, rfl, .staleResolution request row hr (by simpa using hauth) hdec⟩

theorem readCleanupReplay_unmoved {cleanupId : BoundedText 512} {requestHash : δ}
    (h : readCleanupReplay s cleanupId requestHash = some a) : Unmoved a := by
  unfold readCleanupReplay at h
  cases hd : s.decisions.find? (.cleanup cleanupId) with
  | none =>
    simp only [hd] at h
    cases h
  | some d =>
    simp only [hd] at h
    split_ifs at h
    · cases h
      exact unmoved_error _
    · cases hp : parseCleanup d.resultJson with
      | none =>
        simp only [hp] at h
        cases h
        exact unmoved_error _
      | some result =>
        simp only [hp] at h
        cases h
        exact unmoved_ok trivial

theorem cleanupTerminal_ok {request : CleanupTerminalOutboxRequest}
    (h : cleanupTerminal P referenced request s = .ok (a, s')) :
    Stepped P referenced s (.cleanupTerminal request) a s' := by
  unfold cleanupTerminal at h
  cases hreplay : readCleanupReplay s request.cleanupId (hashCanonicalRequest P request.json) with
  | some answer =>
    simp only [hreplay] at h
    cases h
    exact Or.inl ⟨rfl, readCleanupReplay_unmoved hreplay⟩
  | none =>
    simp only [hreplay] at h
    obtain ⟨cleaned, h₁, h⟩ := bind_eq_ok.mp h
    obtain ⟨s₂, h₂, h⟩ := bind_eq_ok.mp h
    obtain ⟨decisions, hdec, rfl⟩ := writeDecision_eq_ok.mp h₂
    cases h
    exact Or.inr ⟨_, rfl, .clean request h₁ hdec⟩

/-- A transaction that returns leaves the tables alone or makes a listed transition. -/
theorem apply_ok {m : OutboxMutation P} (h : apply referenced m s = .ok (a, s')) :
    Stepped P referenced s m a s' := by
  cases m with
  | enqueue request => exact insertEnqueue_ok h
  | claimNext request => exact claimNext_ok h
  | reclaim request => exact reclaim_ok h
  | complete request => exact workerResult_ok rfl h
  | fail request => exact workerResult_ok rfl h
  | markUnknown request => exact workerResult_ok rfl h
  | resolveUnknown request => exact resolveUnknown_ok h
  | cleanupTerminal request => exact cleanupTerminal_ok h

end Inversion

section Calls

/-- One call of the store by some client: the request, the faults its runtime reports and the
outbox rows that other stores reference when the call is made. -/
structure OutboxCall (P : Platform δ) where
  runtime : OutboxAdapterRuntime
  request : Option (OutboxMutation P)
  referenced : BoundedText 512 → Bool

/-- The tables after a call. -/
def callStep (s : OutboxTables δ) (call : OutboxCall P) : OutboxTables δ :=
  (mutate call.referenced call.runtime call.request s).2

/-- The mutation and the answer that a call commits, acknowledged or not. -/
def committed (s : OutboxTables δ) (call : OutboxCall P) :
    Option (OutboxMutation P × OutboxAnswer δ) :=
  match call.request, call.runtime.beforeEffect with
  | some m, .clear =>
    match apply call.referenced m s with
    | .ok (.ok answer, _) => some (m, answer)
    | _ => none
  | _, _ => none

/-- A call that changes nothing commits nothing or a quiet answer; any other commits a
transition. -/
theorem callStep_cases (s : OutboxTables δ) (call : OutboxCall P) :
    (callStep s call = s ∧ ∀ w, committed s call = some w → w.2.quiet) ∨
    ∃ m answer, committed s call = some (m, answer) ∧
      Transition P call.referenced s m answer (callStep s call) := by
  obtain ⟨runtime, request, referenced⟩ := call
  cases request with
  | none => exact Or.inl ⟨rfl, by simp [committed]⟩
  | some m =>
    unfold callStep mutate committed
    cases hf : runtime.beforeEffect with
    | preTransaction => exact Or.inl (by simp)
    | unreadable => exact Or.inl (by simp)
    | inTransaction =>
      refine Or.inl ?_
      cases ha : apply referenced m s with
      | error fault => simp [ha]
      | ok w =>
        obtain ⟨a, s'⟩ := w
        cases a with
        | error e =>
          rcases apply_ok ha with ⟨rfl, -⟩ | ⟨answer, he, -⟩
          · simp [ha]
          · cases he
        | ok answer => simp [ha]
    | clear =>
      cases ha : apply referenced m s with
      | error fault => exact Or.inl (by simp [ha])
      | ok w =>
        obtain ⟨a, s'⟩ := w
        rcases apply_ok ha with ⟨rfl, hquiet⟩ | ⟨answer, rfl, ht⟩
        · refine Or.inl ?_
          cases a with
          | error e => simp [ha]
          | ok answer =>
            have hq := hquiet answer rfl
            cases runtime.lostAcknowledgement <;> simp [ha, hq]
        · refine Or.inr ⟨m, answer, by simp [ha], ?_⟩
          cases runtime.lostAcknowledgement <;> simpa [ha] using ht

theorem committed_request {s : OutboxTables δ} {call : OutboxCall P}
    {w : OutboxMutation P × OutboxAnswer δ} (h : committed s call = some w) :
    call.request = some w.1 := by
  unfold committed at h
  split at h
  · split at h
    · cases h
      assumption
    · cases h
  · cases h

/-- A call without injected faults. -/
def plainCall (request : OutboxMutation P) : OutboxCall P where
  runtime := .faultFree
  request := some request
  referenced := fun _ => false

abbrev runCalls : OutboxTables δ → List (OutboxCall P) → OutboxTables δ := run callStep

def sampleEnqueueCall : OutboxCall openPlatform := plainCall (.enqueue sampleEnqueue)
def sampleClaimCall : OutboxCall openPlatform := plainCall (.claimNext sampleClaim)
def sampleReclaimCall : OutboxCall openPlatform := plainCall (.reclaim sampleReclaim)

end Calls

end Piclaw
