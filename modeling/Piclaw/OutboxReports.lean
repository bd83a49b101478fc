import Piclaw.OutboxFencing

/-!
# Reports of a live lease holder

The holder of a live lease reports by completing, failing or marking its row unknown. Nothing in
the store refuses such a report: the attempt has no outcome yet and no decision (`ReportsOpen`).
What remains is the UPDATE statement, which keeps `reconciliation_ref` while the table check wants
it NULL in an unknown row, and which stores the receipt of a completion, whose column check rejects
a text that starts with NUL. `reported_check_iff` says that these are the only two obstacles.
-/

namespace Piclaw
open Relational
variable {δ : Type} [DecidableEq δ] {P : Platform δ} {referenced : BoundedText 512 → Bool}

section Statements
variable {s : OutboxTables δ}

omit [DecidableEq δ] in
/-- An update addressed at a stored row runs exactly when the new row satisfies the table check. -/
theorem updateOutbox_checked {p : OutboxRecord δ → Bool} {f : OutboxRecord δ → OutboxRecord δ}
    {id : BoundedText 512} {r : OutboxRecord δ} (hp : ∀ r, p r → r.outboxId = id)
    (hf : ∀ r, (f r).outboxId = r.outboxId)
    (hu : ∀ r, ((f r).kind, (f r).idempotencyKey) = (r.kind, r.idempotencyKey))
    (hr : s.outbox.find? id = some r) (hpr : p r) :
    ((f r).check → ∃ t, updateOutbox s p f = .ok ({ s with outbox := t }, 1) ∧
      Table.Rewrites s.outbox t id r (f r)) ∧
    (¬ (f r).check → updateOutbox s p f = .error .constraint) := by
  constructor
  · intro hc
    obtain ⟨t, ht⟩ := Table.exists_update? hp (fun r _ => hf r) (fun r _ => congrArg some (hu r)) hr
      hpr hc
    have hok : updateOutbox s p f = .ok ({ s with outbox := t }, 1) :=
      updateOutbox_eq_ok.mpr ⟨t, ht, rfl⟩
    obtain ⟨-, t', he, hw⟩ := updateOutbox_row hp hf hr hpr hok
    have htt : t = t' := congrArg OutboxTables.outbox he
    exact ⟨t, hok, htt ▸ hw⟩
  · intro hc
    have hnone : s.outbox.update? p f = none :=
      (Table.update?_eq_none (fun r _ => hf r) (fun r _ => congrArg some (hu r))).mpr
        ⟨r, Table.mem_of_find? hr, hpr, hc⟩
    unfold updateOutbox
    rw [hnone]
    rfl

theorem writeDecision_fresh {row : DecisionRow δ} (hfree : s.decisions.find? row.key = none)
    (hc : row.check) :
    ∃ t, writeDecision s row = .ok { s with decisions := t } ∧ s.decisions.insert? row = some t := by
  obtain ⟨t, ht, -⟩ := Table.exists_insert? (t := s.decisions) (Table.fresh_of_free rfl hfree hc)
  exact ⟨t, writeDecision_eq_ok.mpr ⟨t, ht, rfl⟩, ht⟩

omit [DecidableEq δ] in
theorem writeOutcome_fresh {row : OutcomeRow δ}
    (hfree : s.outcomes.find? (row.outboxId, row.attempt) = none) (hc : row.check) :
    ∃ t, writeOutcome s row = .ok { s with outcomes := t } := by
  obtain ⟨t, ht, -⟩ := Table.exists_insert? (t := s.outcomes) (Table.fresh_of_free rfl hfree hc)
  exact ⟨t, writeOutcome_eq_ok.mpr ⟨t, ht, rfl⟩⟩

end Statements

section Open

/-- What the outcome and decision tables say about attempts: an outcome belongs to a stored row and
to an attempt that is over, and a filed outcome decision has its outcome. -/
structure ReportsOpen (s : OutboxTables δ) : Prop where
  outcome : ∀ id n o, s.outcomes.find? (id, n) = some o →
    ∃ r, s.outbox.find? id = some r ∧ n ≤ r.attempt ∧ (n = r.attempt → r.state ≠ .started)
  decision : ∀ id n d, s.decisions.find? (.outcome id n) = some d →
    d.outboxId = some id ∧ ∃ o, s.outcomes.find? (id, n) = some o

variable {s s' : OutboxTables δ} {m : OutboxMutation P} {a : OutboxAnswer δ}

/-- A row with a stored outcome was not deleted by the transition. -/
theorem outcomes_kept (ht : Transition P referenced s m a s') {id : BoundedText 512} {n : ℕ}
    {o : OutcomeRow δ} (ho : s'.outcomes.find? (id, n) = some o) : ¬ removes id (m, a) := by
  rintro ⟨result, ha, hid⟩
  cases ht <;> cases ha
  rename_i deleted _
  change id ∈ (selectTerminal s _).map (fun r => r.outboxId) at hid
  have hgone := (deleteRows_ok deleted).outcomes id n
  rw [if_pos hid] at hgone
  exact absurd (hgone.symm.trans ho) (by simp)

omit [DecidableEq δ] in
theorem rowMove_over {w : OutboxMutation P × OutboxAnswer δ} {id : BoundedText 512} {n : ℕ}
    {r r' : OutboxRecord δ} (h : RowMove w id r r') (hn : n ≤ r.attempt)
    (hs : n = r.attempt → r.state ≠ .started) :
    n ≤ r'.attempt ∧ (n = r'.attempt → r'.state ≠ .started) := by
  cases h with
  | still other => exact ⟨hn, hs⟩
  | claim request isClaim granted due =>
    change n ≤ r.attempt + 1 ∧ (n = r.attempt + 1 → _)
    exact ⟨by omega, fun h => by omega⟩
  | reclaim request isReclaim granted authorised =>
    change n ≤ r.attempt + 1 ∧ (n = r.attempt + 1 → _)
    exact ⟨by omega, fun h => by omega⟩
  | report request outcome requestHash isReport temporal owns =>
    exact ⟨hn, fun _ => report_state isReport⟩
  | resolve request isResolve authorised =>
    exact ⟨hn, fun _ => resolutionRow_state request (hashCanonicalRequest P request.json)⟩

theorem reportsOpen_step (ht : Transition P referenced s m a s') (h : ReportsOpen s) :
    ReportsOpen s' where
  outcome id n o ho := by
    have hkept := outcomes_kept ht ho
    rcases transition_outcomes ht hkept n with he | ⟨-, request, outcome, requestHash, r, hreport, hn,
      -, -, howns, -, hr'⟩
    · rw [he] at ho
      obtain ⟨r, hr, hle, hover⟩ := h.outcome id n o ho
      obtain ⟨r', hr', hmove⟩ := transition_row ht hr hkept
      exact ⟨r', hr', rowMove_over hmove hle hover⟩
    · simp only [ownsAttempt, Bool.and_eq_true, decide_eq_true_eq] at howns
      refine ⟨_, hr', ?_, fun _ => report_state hreport⟩
      change n ≤ r.attempt
      rw [howns.1.2, hn]
  decision id n d hd := by
    obtain ⟨base, d', hins, hback, -, hnew⟩ := transition_decided ht
    rw [Table.find?_insert? hins] at hd
    split_ifs at hd with hk
    · cases hd
      exact hnew id n hk
    · obtain ⟨hold, hkept⟩ := hback _ d hd
      obtain ⟨hid, o, ho⟩ := h.decision id n d hold
      refine ⟨hid, ?_⟩
      rcases transition_outcomes ht (hkept id hid) n with he | ⟨hnone, -⟩
      · exact ⟨o, he.trans ho⟩
      · rw [ho] at hnone
        cases hnone

theorem reportsOpen_run (calls : List (OutboxCall P)) :
    ReportsOpen (runCalls (OutboxTables.empty δ) calls) := by
  have hempty : ReportsOpen (OutboxTables.empty δ) := by
    constructor
    · intro id n o ho
      cases ho
    · intro id n d hd
      cases hd
  refine run_invariant (fun s call h _ => ?_) hempty (along_true _ calls)
  rcases callStep_cases s call with ⟨he, -⟩ | ⟨m, a, -, ht⟩
  · rwa [he]
  · exact reportsOpen_step ht h

end Open

section Admission

/-- The condition under which a live lease holder's report is applied. -/
def ReportAdmitted (m : OutboxMutation P) (r : OutboxRecord δ) : Prop :=
  match m with
  | .complete request => ∀ receipt ∈ request.receiptRef, receipt.1.toList.head? ≠ some (Char.ofNat 0)
  | .markUnknown _ => r.reconciliationRef = none
  | _ => True

variable {m : OutboxMutation P} {request : WorkerResultRequest} {outcome : WorkerOutcome}
  {requestHash : δ} {r : OutboxRecord δ}

omit [DecidableEq δ] in
/-- The three shapes of a report. -/
theorem report_shape (h : m.report? = some (request, outcome, requestHash)) :
    (∃ q : CompleteOutboxRequest, m = .complete q ∧ outcome = q.outcome) ∨
      (∃ q : FailOutboxRequest, m = .fail q ∧ outcome = q.outcome) ∨
      (∃ q : MarkOutboxUnknownRequest, m = .markUnknown q ∧ outcome = q.outcome) := by
  cases m with
  | complete q =>
    cases h
    exact Or.inl ⟨q, rfl, rfl⟩
  | fail q =>
    cases h
    exact Or.inr (Or.inl ⟨q, rfl, rfl⟩)
  | markUnknown q =>
    cases h
    exact Or.inr (Or.inr ⟨q, rfl, rfl⟩)
  | enqueue | claimNext | reclaim | resolveUnknown | cleanupTerminal => cases h

omit [DecidableEq δ] in
/-- The columns that a report writes, checked: only a receipt can fail. -/
theorem reported_columns_iff (hc : r.check) (hat : sqlInstant outcome.instant.1)
    (hretry : nullOr (fun x => sqlInstant x.1) outcome.retryAt) :
    (reported outcome r).columnChecks ↔ nullOr (fun x => sqlText 2048 x.1) outcome.receiptRef := by
  obtain ⟨⟨h₁, h₂, h₃, h₄, h₅, h₆, h₇, h₈, -, h₁₀, -, -, -, -, -, -, -, -, h₁₉, -, -⟩, -⟩ := hc
  have htag : nullOr (fun x : DiagnosticTag => sqlText 128 x.1) outcome.errorTag :=
    fun x _ => diagnosticTag_sqlText x
  unfold OutboxRecord.columnChecks
  constructor
  · intro h
    exact h.2.2.2.2.2.2.2.2.2.2.2.2.2.2.2.1
  · intro hreceipt
    exact ⟨h₁, h₂, h₃, h₄, h₅, h₆, h₇, h₈, hat, h₁₀, nullOr_none _, nullOr_none _, nullOr_none _,
      nullOr_none _, hretry, hreceipt, htag, (nullOr_some _ _).mpr hat, h₁₉, nullOr_none _,
      nullOr_none _⟩

omit [DecidableEq δ] in
/-- The UPDATE of a live lease holder's report satisfies the table checks exactly when the report is
admitted. -/
theorem reported_check_iff (hreport : m.report? = some (request, outcome, requestHash))
    (hc : r.check) (hs : r.state = .started) (hat : sqlInstant outcome.instant.1)
    (hretry : nullOr (fun x => sqlInstant x.1 ∧ outcome.instant < x) outcome.retryAt) :
    (reported outcome r).check ↔ ReportAdmitted m r := by
  obtain ⟨-, -, -, -, -, -, -, -, -, -, hpos⟩ := started_lease hc hs
  have hcolumns := reported_columns_iff hc hat (fun x hx => (hretry x hx).1)
  have horder : (reported outcome r).enqueuedAt ≤ (reported outcome r).availableAt := hc.2.1
  have hcheck : (reported outcome r).check ↔
      nullOr (fun x => sqlText 2048 x.1) outcome.receiptRef ∧ (reported outcome r).stateCheck := by
    unfold OutboxRecord.check
    rw [hcolumns]
    exact ⟨fun h => ⟨h.1, h.2.2⟩, fun h => ⟨h.1, horder, h.2⟩⟩
  rw [hcheck]
  rcases report_shape hreport with ⟨q, rfl, rfl⟩ | ⟨q, rfl, rfl⟩ | ⟨q, rfl, rfl⟩
  · have hstate : (reported q.outcome r).stateCheck := ⟨rfl, hpos, rfl, rfl, rfl, rfl, rfl⟩
    change nullOr _ q.receiptRef ∧ _ ↔ ∀ receipt ∈ q.receiptRef, _
    rw [and_iff_left hstate]
    unfold nullOr
    simp only [sqlText_iff]
  · have hstate : (reported q.outcome r).stateCheck :=
      ⟨rfl, hpos, rfl, rfl, by simp [reported, FailOutboxRequest.outcome], rfl,
        fun x hx => (hretry x hx).2, rfl⟩
    change nullOr _ none ∧ _ ↔ True
    rw [and_iff_left hstate]
    simp
  · change nullOr _ none ∧ _ ↔ r.reconciliationRef = none
    have hstate : (reported q.outcome r).stateCheck ↔ r.reconciliationRef = none := by
      constructor
      · intro h
        exact h.2.2.2.2.2.2.2.1
      · intro h
        exact ⟨rfl, hpos, rfl, rfl, rfl, by simp [reported, MarkOutboxUnknownRequest.outcome], rfl, h,
          rfl, rfl⟩
    rw [hstate]
    simp

omit [DecidableEq δ] in
theorem outcomeRow_check (hreport : m.report? = some (request, outcome, requestHash))
    (hc : (reported outcome r).check)
    (hretry : nullOr (fun x => sqlInstant x.1 ∧ outcome.instant < x) outcome.retryAt) :
    (outcomeRow request outcome requestHash r).check := by
  obtain ⟨⟨-, -, -, -, -, -, -, -, h₉, -, -, -, -, -, -, h₁₆, h₁₇, -, h₁₉, -, -⟩, -, -⟩ := hc
  refine ⟨request.expectedAttempt.2.1, request.expectedAttempt.2.2, h₉, h₁₆, h₁₇, hretry, h₁₉, ?_⟩
  rcases report_shape hreport with ⟨q, rfl, rfl⟩ | ⟨q, rfl, rfl⟩ | ⟨q, rfl, rfl⟩
  · exact Or.inl ⟨rfl, rfl, rfl, rfl⟩
  · exact Or.inr (Or.inl ⟨rfl, rfl, rfl, by simp [outcomeRow, FailOutboxRequest.outcome]⟩)
  · exact Or.inr (Or.inr ⟨rfl, rfl, rfl, by simp [outcomeRow, MarkOutboxUnknownRequest.outcome],
      rfl⟩)

omit [DecidableEq δ] in
theorem outcomeDecision_check (hid : sqlText 512 request.outboxId.1) :
    (outcomeDecision request outcome requestHash).check := by
  have hmethod : outcome.method.mutation ≠ .cleanupTerminal ∧
      outcome.method.mutation ≠ .claimNext := by
    cases outcome.method <;> simp [WorkerMethod.mutation]
  refine ⟨(nullOr_some _ _).mpr hid, (nullOr_some _ _).mpr request.expectedAttempt.2.2,
    nullOr_none _, Or.inr ⟨hmethod.1, rfl⟩, Or.inr (Or.inr ⟨hmethod.1, hmethod.2, ?_⟩), Or.inr ?_⟩
  · simp [outcomeDecision]
  · simp [outcomeDecision]

end Admission

section Live

/-- The report carries the worker, the attempt and the token of the started row `r`, at a time
inside its lease and, for a retry, with a later retry time. -/
structure LiveReport (r : OutboxRecord δ) (request : WorkerResultRequest)
    (outcome : WorkerOutcome) : Prop where
  started : r.state = .started
  worker : r.workerId = some request.workerId
  attempt : r.attempt = request.expectedAttempt.1
  token : r.leaseToken = some request.leaseToken
  within : ∃ claimed ∈ r.claimedAt, ∃ expires ∈ r.leaseExpiresAt,
    claimed ≤ outcome.instant ∧ outcome.instant < expires
  retry : ∀ retry ∈ outcome.retryAt, outcome.instant < retry

variable {s : OutboxTables δ} {m : OutboxMutation P} {request : WorkerResultRequest}
  {outcome : WorkerOutcome} {requestHash : δ} {r : OutboxRecord δ}

omit [DecidableEq δ] in
theorem LiveReport.owns (h : LiveReport r request outcome) : ownsAttempt request r := by
  simp [ownsAttempt, h.started, h.worker, h.attempt, h.token]

omit [DecidableEq δ] in
theorem LiveReport.temporal (h : LiveReport r request outcome) : outcomeTemporal outcome r := by
  obtain ⟨claimed, hclaimed, expires, hexpires, hfrom, huntil⟩ := h.within
  simp only [outcomeTemporal, Bool.and_eq_true, Option.any_eq_true, Option.all_eq_true,
    decide_eq_true_eq]
  exact ⟨⟨⟨claimed, hclaimed, hfrom⟩, expires, hexpires, huntil⟩, h.retry⟩

omit [DecidableEq δ] in
/-- The time of a live report and its retry time are not before the claim, which a column admitted,
so columns admit them too. -/
theorem LiveReport.sqlInstants (h : LiveReport r request outcome) (hc : r.check) :
    sqlInstant outcome.instant.1 ∧
      nullOr (fun x => sqlInstant x.1 ∧ outcome.instant < x) outcome.retryAt := by
  obtain ⟨claimed, hclaimed, expires, -, hfrom, -⟩ := h.within
  have hsql : sqlInstant claimed.1 := hc.1.2.2.2.2.2.2.2.2.2.2.2.1 claimed hclaimed
  have hat := sqlInstant_of_le hsql hfrom
  exact ⟨hat, fun x hx => ⟨sqlInstant_of_le hat (h.retry x hx).le, h.retry x hx⟩⟩

/-- A live report is applied when the UPDATE passes the checks, and throws otherwise. -/
theorem workerResult_live (hopen : ReportsOpen s) (hr : s.outbox.find? request.outboxId = some r)
    (hlive : LiveReport r request outcome)
    (hreport : m.report? = some (request, outcome, requestHash)) :
    ((reported outcome r).check → ∃ s', workerResult request outcome requestHash s =
      .ok (.ok (.applied (reported outcome r)), s')) ∧
    (¬ (reported outcome r).check →
      workerResult request outcome requestHash s = .error .constraint) := by
  have hnone : s.outcomes.find? (request.outboxId, request.expectedAttempt.1) = none := by
    by_contra ho
    obtain ⟨o, ho⟩ := Option.ne_none_iff_exists'.mp ho
    obtain ⟨x, hx, -, hover⟩ := hopen.outcome _ _ _ ho
    rw [hr, Option.some_inj] at hx
    subst hx
    exact hover hlive.attempt.symm hlive.started
  have hfree : s.decisions.find? (.outcome request.outboxId request.expectedAttempt.1) = none := by
    by_contra hd
    obtain ⟨d, hd⟩ := Option.ne_none_iff_exists'.mp hd
    obtain ⟨-, o, ho⟩ := hopen.decision _ _ _ hd
    rw [hnone] at ho
    cases ho
  have hc := Table.check_of_find? hr
  have hguard : ∀ x : OutboxRecord δ, reportable request outcome x →
      x.outboxId = request.outboxId := by
    intro x hx
    simp only [reportable, Bool.and_eq_true, decide_eq_true_eq] at hx
    exact hx.1.1.1
  have hupdate := updateOutbox_checked (s := s) (f := reported outcome) hguard (fun _ => rfl)
    (fun _ => rfl) hr
    (reportable_of_owns (Table.key_of_find? hr) hlive.temporal hlive.owns)
  unfold workerResult
  simp only [hnone, hfree, readRecord_eq, hr, ok_bind, Option.any_none, hlive.temporal,
    hlive.owns, Bool.not_true, Bool.or_self, Bool.false_eq_true, if_false]
  constructor
  · intro hcheck
    obtain ⟨t, ht, hw⟩ := hupdate.1 hcheck
    have houtcome : (outcomeRow request outcome requestHash r).check :=
      outcomeRow_check hreport hcheck (hlive.sqlInstants hc).2
    obtain ⟨o, ho⟩ := writeOutcome_fresh (s := { s with outbox := t }) hnone houtcome
    have hdecision : (outcomeDecision request outcome requestHash).check :=
      outcomeDecision_check (Table.key_of_find? hr ▸ hc.1.1)
    obtain ⟨d, hd, -⟩ :=
      writeDecision_fresh (s := { s with outbox := t, outcomes := o }) hfree hdecision
    have hrec : requireRecord { s with outbox := t, outcomes := o } request.outboxId =
        .ok (reported outcome r) := requireRecord_eq_ok.mpr hw.after
    refine ⟨{ s with outbox := t, outcomes := o, decisions := d }, ?_⟩
    simp only [ht, ok_bind, supersede, ho, hrec, hd, ne_eq, not_true_eq_false, if_false]
  · intro hcheck
    rw [hupdate.2 hcheck]
    rfl

end Live

/-- A live lease holder's report in a state that calls produced is applied exactly when it is
admitted; otherwise its UPDATE violates a check and the store answers `corrupt_state`. -/
theorem live_report_applied_iff (before : List (OutboxCall P)) (referenced : BoundedText 512 → Bool)
    (m : OutboxMutation P) {request : WorkerResultRequest} {outcome : WorkerOutcome}
    {requestHash : δ} {r : OutboxRecord δ}
    (hreport : m.report? = some (request, outcome, requestHash))
    (hr : (runCalls (OutboxTables.empty δ) before).outbox.find? request.outboxId = some r)
    (hlive : LiveReport r request outcome) :
    ((∃ record, (mutate referenced .faultFree (some m)
        (runCalls (OutboxTables.empty δ) before)).1 = .ok (.applied record)) ↔
      ReportAdmitted m r) ∧
    (¬ ReportAdmitted m r → (mutate referenced .faultFree (some m)
      (runCalls (OutboxTables.empty δ) before)).1 = .error (errorOf .corruptState)) := by
  have hc := Table.check_of_find? hr
  obtain ⟨hat, hretry⟩ := hlive.sqlInstants hc
  have hiff := reported_check_iff hreport hc hlive.started hat hretry
  obtain ⟨happlied, hrefused⟩ := workerResult_live (reportsOpen_run before) hr hlive hreport
  have happly : apply referenced m (runCalls (OutboxTables.empty δ) before) =
      workerResult request outcome requestHash (runCalls (OutboxTables.empty δ) before) := by
    cases m <;> cases hreport <;> rfl
  have hno : ¬ ReportAdmitted m r → (mutate referenced .faultFree (some m)
      (runCalls (OutboxTables.empty δ) before)).1 = .error (errorOf .corruptState) := by
    intro hn
    have he := hrefused (fun h => hn (hiff.mp h))
    simp [mutate, OutboxAdapterRuntime.faultFree, happly, he, classifyDatabaseError]
  refine ⟨⟨?_, ?_⟩, hno⟩
  · rintro ⟨record, hrecord⟩
    by_contra hn
    rw [hno hn] at hrecord
    cases hrecord
  · intro hadmitted
    obtain ⟨s', hs'⟩ := happlied (hiff.mpr hadmitted)
    exact ⟨reported outcome r,
      by simp [mutate, OutboxAdapterRuntime.faultFree, happly, hs']⟩

section Samples

/-- The sample row, claimed and then reclaimed after reconciliation found the first effect absent. -/
def sampleReclaimed : OutboxTables OpenDigest :=
  runCalls (OutboxTables.empty OpenDigest) [sampleEnqueueCall, sampleClaimCall, sampleReclaimCall]

def sampleWorkerResult : WorkerResultRequest where
  outboxId := sampleOutboxId
  workerId := sampleWorkerId
  expectedAttempt := ⟨2, by decide⟩
  leaseToken := sampleNextToken

def sampleMarkUnknown : MarkOutboxUnknownRequest where
  toWorkerResultRequest := sampleWorkerResult
  errorTag := sampleTag
  observedAt := sampleRenewal

def sampleComplete : CompleteOutboxRequest where
  toWorkerResultRequest := sampleWorkerResult
  receiptRef := none
  completedAt := sampleRenewal

def sampleReclaimedRow : OutboxRecord OpenDigest :=
  reclaimed sampleReclaim 2 (some sampleRef)
    (claimed sampleClaim 1 (enqueuedRecord sampleEnqueue.toEnqueueFields))

theorem sampleReclaimed_row :
    sampleReclaimed.outbox.find? sampleOutboxId = some sampleReclaimedRow := by
  decide

theorem sampleReclaimed_live (outcome : WorkerOutcome) (hat : outcome.instant = sampleRenewal)
    (hretry : outcome.retryAt = none) :
    LiveReport sampleReclaimedRow sampleWorkerResult outcome where
  started := rfl
  worker := rfl
  attempt := rfl
  token := rfl
  within := ⟨sampleRenewal, rfl, sampleClosing, rfl, by rw [hat], by rw [hat]; decide⟩
  retry := by simp [hretry]

end Samples

/-- The holder of the second lease cannot mark the row unknown: the first reclaim left its
reconciliation reference on the row. -/
theorem live_report_refused :
    sampleReclaimed.outbox.find? sampleMarkUnknown.outboxId = some sampleReclaimedRow ∧
      LiveReport sampleReclaimedRow sampleMarkUnknown.toWorkerResultRequest
        sampleMarkUnknown.outcome ∧
      (mutate (P := openPlatform) (fun _ => false) .faultFree (some (.markUnknown sampleMarkUnknown))
        sampleReclaimed).1 = .error (errorOf .corruptState) :=
  ⟨sampleReclaimed_row, sampleReclaimed_live _ rfl rfl, by decide⟩

theorem live_report_applied_iff_sample :
    ∃ record, (mutate (P := openPlatform) (fun _ => false) .faultFree
      (some (.complete sampleComplete)) sampleReclaimed).1 = .ok (.applied record) :=
  (live_report_applied_iff _ _ (.complete sampleComplete) rfl sampleReclaimed_row
    (sampleReclaimed_live _ rfl rfl)).1.mpr (by simp [ReportAdmitted, sampleComplete])

end Piclaw
