import Piclaw.OutboxReplay

/-!
# The decision that a mutation depends on

A mutation looks up one decision, the one filed under its own key, and files its own there. Two
states that differ only in decisions filed under other keys therefore answer it alike, and differ
afterwards only where they differed before (`apply_alike`). A cleanup deletes decisions under
every key, but which ones is determined by its answer (`apply_decisions`).
-/

namespace Piclaw
open Relational
variable {δ : Type} [DecidableEq δ] {P : Platform δ} {referenced : BoundedText 512 → Bool}

/-- The key under which the decision of a mutation is filed. -/
def OutboxMutation.decisionKey : OutboxMutation P → DecisionKey δ
  | .enqueue request => .enqueue request.kind request.effect.idempotencyKey
  | .claimNext request => .claim (hashToken P request.leaseToken.1)
  | .reclaim request => .reclaim request.outboxId request.expectedAttempt.1
  | .complete request => .outcome request.outboxId request.expectedAttempt.1
  | .fail request => .outcome request.outboxId request.expectedAttempt.1
  | .markUnknown request => .outcome request.outboxId request.expectedAttempt.1
  | .resolveUnknown request => .resolve request.outboxId request.expectedAttempt.1
  | .cleanupTerminal request => .cleanup request.cleanupId

section Alike
variable {K : Set (DecisionKey δ)} {s t : OutboxTables δ}

/-- `t` is `s` up to the decisions filed outside `K`. -/
def Alike (K : Set (DecisionKey δ)) (s t : OutboxTables δ) : Prop :=
  ∃ decisions, t = { s with decisions := decisions } ∧ Table.AgreeOn K s.decisions decisions

def AlikeAnswers (K : Set (DecisionKey δ)) (x y : Answered δ) : Prop :=
  x.1 = y.1 ∧ Alike K x.2 y.2

theorem alike_refl (K : Set (DecisionKey δ)) (s : OutboxTables δ) : Alike K s s :=
  ⟨s.decisions, rfl, Table.AgreeOn.refl K _⟩

theorem Alike.decided (h : Alike K s t) {k : DecisionKey δ} (hk : k ∈ K) :
    t.decisions.find? k = s.decisions.find? k := by
  obtain ⟨decisions, rfl, hd⟩ := h
  exact (hd k hk).symm

theorem Alike.outbox (h : Alike K s t) : t.outbox = s.outbox := by
  obtain ⟨decisions, rfl, -⟩ := h
  rfl

theorem Alike.leases (h : Alike K s t) : t.leases = s.leases := by
  obtain ⟨decisions, rfl, -⟩ := h
  rfl

theorem Alike.outcomes (h : Alike K s t) : t.outcomes = s.outcomes := by
  obtain ⟨decisions, rfl, -⟩ := h
  rfl

theorem Alike.resolutions (h : Alike K s t) : t.resolutions = s.resolutions := by
  obtain ⟨decisions, rfl, -⟩ := h
  rfl

theorem writeDecision_alike {row : DecisionRow δ} (h : Alike K s t) (hk : row.key ∈ K) :
    Matches (Alike K) (writeDecision s row) (writeDecision t row) := by
  obtain ⟨decisions, rfl, hd⟩ := h
  refine (matches_require _ (hd.insert? (r := row) (fun _ => rfl) hk)).bind ?_
  intro u v huv
  exact ⟨v, rfl, huv⟩

theorem writeLease_alike {row : LeaseRow δ} (h : Alike K s t) :
    Matches (Alike K) (writeLease s row) (writeLease t row) := by
  obtain ⟨decisions, rfl, hd⟩ := h
  refine (matches_same (constrained (s.leases.insert? row))).bind ?_
  rintro u _ rfl
  exact ⟨decisions, rfl, hd⟩

theorem writeOutcome_alike {row : OutcomeRow δ} (h : Alike K s t) :
    Matches (Alike K) (writeOutcome s row) (writeOutcome t row) := by
  obtain ⟨decisions, rfl, hd⟩ := h
  refine (matches_same (constrained (s.outcomes.insert? row))).bind ?_
  rintro u _ rfl
  exact ⟨decisions, rfl, hd⟩

theorem writeResolution_alike {row : ResolutionRow δ} (h : Alike K s t) :
    Matches (Alike K) (writeResolution s row) (writeResolution t row) := by
  obtain ⟨decisions, rfl, hd⟩ := h
  refine (matches_same (constrained (s.resolutions.insert? row))).bind ?_
  rintro u _ rfl
  exact ⟨decisions, rfl, hd⟩

theorem insertOutbox_alike {row : OutboxRecord δ} (h : Alike K s t) :
    Matches (Alike K) (insertOutbox s row) (insertOutbox t row) := by
  obtain ⟨decisions, rfl, hd⟩ := h
  refine (matches_same (constrained (s.outbox.insert? row))).bind ?_
  rintro u _ rfl
  exact ⟨decisions, rfl, hd⟩

theorem updateOutbox_alike {p : OutboxRecord δ → Bool} {f : OutboxRecord δ → OutboxRecord δ}
    (h : Alike K s t) : Matches (fun x y => Alike K x.1 y.1 ∧ x.2 = y.2)
      (updateOutbox s p f) (updateOutbox t p f) := by
  obtain ⟨decisions, rfl, hd⟩ := h
  refine (matches_same (constrained (s.outbox.update? p f))).bind ?_
  rintro ⟨u, n⟩ _ rfl
  exact ⟨⟨decisions, rfl, hd⟩, rfl⟩

theorem requireRecord_alike (h : Alike K s t) (id : BoundedText 512) :
    Matches Eq (requireRecord s id) (requireRecord t id) := by
  obtain ⟨decisions, rfl, -⟩ := h
  exact matches_same (requireRecord s id)

theorem insertEnqueue_alike {request : EnqueueOutboxRequest P} (h : Alike K s t)
    (hk : .enqueue request.kind request.effect.idempotencyKey ∈ K) :
    Matches (AlikeAnswers K) (insertEnqueue request s) (insertEnqueue request t) := by
  unfold insertEnqueue
  rw [h.outbox, h.decided hk]
  cases s.decisions.find? (.enqueue request.kind request.effect.idempotencyKey) with
  | some known =>
    simp only [readRecord_eq, h.outbox, ok_bind]
    split_ifs
    · exact ⟨rfl, h⟩
    · cases known.outboxId with
      | none => exact ⟨rfl, h⟩
      | some id =>
        simp only []
        cases s.outbox.find? id <;> exact ⟨rfl, h⟩
  | none =>
    simp only []
    split_ifs
    · exact ⟨rfl, h⟩
    · refine (insertOutbox_alike h).bind ?_
      intro s₁ t₁ h₁
      refine (writeDecision_alike h₁ hk).bind ?_
      intro s₂ t₂ h₂
      rw [readRecord_eq, readRecord_eq, h₂.outbox]
      cases s₂.outbox.find? request.outboxId <;> exact ⟨rfl, h₂⟩

theorem emptyClaim_alike {requestHash tokenHash : δ} (h : Alike K s t)
    (hk : .claim tokenHash ∈ K) : Matches (AlikeAnswers K) (emptyClaim s requestHash tokenHash)
      (emptyClaim t requestHash tokenHash) := by
  refine (writeDecision_alike h hk).bind ?_
  intro s₁ t₁ h₁
  exact ⟨rfl, h₁⟩

theorem readClaimReplay_alike {request : ClaimOutboxRequest} {requestHash tokenHash : δ}
    (h : Alike K s t) (hk : .claim tokenHash ∈ K) :
    readClaimReplay t request requestHash tokenHash =
      readClaimReplay s request requestHash tokenHash := by
  obtain ⟨decisions, rfl, hd⟩ := h
  unfold readClaimReplay
  simp only [hd _ hk]
  rfl

theorem claimNext_alike {request : ClaimOutboxRequest} (h : Alike K s t)
    (hk : .claim (hashToken P request.leaseToken.1) ∈ K) :
    Matches (AlikeAnswers K) (claimNext P request s) (claimNext P request t) := by
  unfold claimNext
  simp only [readClaimReplay_alike h hk]
  refine (matches_same _).bind ?_
  rintro replay _ rfl
  cases replay with
  | some answer => exact ⟨rfl, h⟩
  | none =>
    have hselect : selectEligible t request = selectEligible s request := by
      unfold selectEligible
      rw [h.outbox]
    rw [hselect]
    cases selectEligible s request with
    | none => exact emptyClaim_alike h hk
    | some row =>
      refine (matches_same (decodeRecord row)).bind ?_
      rintro current _ rfl
      refine (updateOutbox_alike h).bind ?_
      rintro ⟨s₁, n⟩ ⟨t₁, _⟩ ⟨h₁, rfl⟩
      simp only []
      split_ifs
      · exact emptyClaim_alike h₁ hk
      · refine (writeLease_alike h₁).bind ?_
        intro s₂ t₂ h₂
        refine (writeDecision_alike h₂ hk).bind ?_
        intro s₃ t₃ h₃
        refine (requireRecord_alike h₃ current.outboxId).bind ?_
        rintro record _ rfl
        refine (matches_same (leaseOf record request.leaseToken)).bind ?_
        rintro lease _ rfl
        exact ⟨rfl, h₃⟩

theorem readReclaimReplay_alike {request : ReclaimOutboxRequest} {requestHash : δ}
    (h : Alike K s t) (hk : .reclaim request.outboxId request.expectedAttempt.1 ∈ K) :
    readReclaimReplay P t request requestHash = readReclaimReplay P s request requestHash := by
  obtain ⟨decisions, rfl, hd⟩ := h
  unfold readReclaimReplay
  rw [hd _ hk]
  rfl

theorem staleReclaim_alike {request : ReclaimOutboxRequest} {requestHash : δ} (h : Alike K s t)
    (hk : .reclaim request.outboxId request.expectedAttempt.1 ∈ K) :
    Matches (AlikeAnswers K) (staleReclaim request requestHash s)
      (staleReclaim request requestHash t) := by
  refine (writeDecision_alike h hk).bind ?_
  intro s₁ t₁ h₁
  exact ⟨rfl, h₁⟩

theorem reclaim_alike {request : ReclaimOutboxRequest} (h : Alike K s t)
    (hk : .reclaim request.outboxId request.expectedAttempt.1 ∈ K) :
    Matches (AlikeAnswers K) (reclaim P request s) (reclaim P request t) := by
  unfold reclaim
  simp only [readReclaimReplay_alike h hk]
  refine (matches_same _).bind ?_
  rintro replay _ rfl
  cases replay with
  | some answer => exact ⟨rfl, h⟩
  | none =>
    simp only [h.leases, readRecord_eq, h.outbox, ok_bind]
    split_ifs
    · exact ⟨rfl, h⟩
    · cases s.outbox.find? request.outboxId with
      | none => exact ⟨rfl, h⟩
      | some row =>
        simp only []
        split_ifs
        · refine (updateOutbox_alike h).bind ?_
          rintro ⟨s₁, n⟩ ⟨t₁, _⟩ ⟨h₁, rfl⟩
          simp only []
          split_ifs
          · refine (writeLease_alike h₁).bind ?_
            intro s₂ t₂ h₂
            refine (requireRecord_alike h₂ request.outboxId).bind ?_
            rintro record _ rfl
            refine (writeDecision_alike h₂ hk).bind ?_
            intro s₃ t₃ h₃
            exact ⟨rfl, h₃⟩
          · exact staleReclaim_alike h₁ hk
        · exact staleReclaim_alike h hk

theorem supersede_alike {key : DecisionKey δ} (h : Alike K s t) (hk : key ∈ K)
    (previous : Option (DecisionRow δ)) :
    Matches (Alike K) (supersede s key previous) (supersede t key previous) := by
  cases previous with
  | none => exact h
  | some d =>
    obtain ⟨decisions, rfl, hd⟩ := h
    have hkey : ∀ r : DecisionRow δ, (decide (r.key = key) && decide (r.method = d.method) &&
        decide (r.requestHash = d.requestHash) && decide (r.outcome = .stale)) → r.key = key := by
      intro r hr
      simp only [Bool.and_eq_true, decide_eq_true_eq] at hr
      exact hr.1.1.1
    unfold supersede
    simp only [hd.countP hk hkey]
    split_ifs
    · rfl
    · exact ⟨_, rfl, hd.delete _⟩

theorem workerResult_alike {request : WorkerResultRequest} {outcome : WorkerOutcome}
    {requestHash : δ} (h : Alike K s t)
    (hk : .outcome request.outboxId request.expectedAttempt.1 ∈ K) :
    Matches (AlikeAnswers K) (workerResult request outcome requestHash s)
      (workerResult request outcome requestHash t) := by
  unfold workerResult
  simp only [h.outcomes, h.decided hk, readRecord_eq, h.outbox, ok_bind]
  cases s.outcomes.find? (request.outboxId, request.expectedAttempt.1) with
  | some known =>
    simp only []
    split_ifs
    · refine (requireRecord_alike h request.outboxId).bind ?_
      rintro identity _ rfl
      exact ⟨rfl, h⟩
    · exact ⟨rfl, h⟩
  | none =>
    simp only []
    split_ifs
    · exact ⟨rfl, h⟩
    · exact ⟨rfl, h⟩
    · cases s.outbox.find? request.outboxId with
      | none => exact ⟨rfl, h⟩
      | some row =>
        simp only []
        split_ifs
        · exact ⟨rfl, h⟩
        · refine (updateOutbox_alike h).bind ?_
          rintro ⟨s₁, n⟩ ⟨t₁, _⟩ ⟨h₁, rfl⟩
          simp only []
          split_ifs
          · exact ⟨rfl, h₁⟩
          · refine (supersede_alike h₁ hk _).bind ?_
            intro s₂ t₂ h₂
            refine (writeOutcome_alike h₂).bind ?_
            intro s₃ t₃ h₃
            refine (requireRecord_alike h₃ request.outboxId).bind ?_
            rintro record _ rfl
            refine (writeDecision_alike h₃ hk).bind ?_
            intro s₄ t₄ h₄
            exact ⟨rfl, h₄⟩

theorem readResolveReplay_alike {request : ResolveUnknownOutboxRequest} {requestHash : δ}
    (h : Alike K s t) (hk : .resolve request.outboxId request.expectedAttempt.1 ∈ K) :
    readResolveReplay t request requestHash = readResolveReplay s request requestHash := by
  obtain ⟨decisions, rfl, hd⟩ := h
  unfold readResolveReplay
  rw [hd _ hk]
  rfl

theorem staleResolution_alike {request : ResolveUnknownOutboxRequest} {requestHash : δ}
    (h : Alike K s t) (hk : .resolve request.outboxId request.expectedAttempt.1 ∈ K) :
    Matches (AlikeAnswers K) (staleResolution request requestHash s)
      (staleResolution request requestHash t) := by
  refine (writeDecision_alike h hk).bind ?_
  intro s₁ t₁ h₁
  exact ⟨rfl, h₁⟩

theorem resolveUnknown_alike {request : ResolveUnknownOutboxRequest} (h : Alike K s t)
    (hk : .resolve request.outboxId request.expectedAttempt.1 ∈ K) :
    Matches (AlikeAnswers K) (resolveUnknown P request s) (resolveUnknown P request t) := by
  unfold resolveUnknown
  simp only [readResolveReplay_alike h hk]
  refine (matches_same _).bind ?_
  rintro replay _ rfl
  cases replay with
  | some answer => exact ⟨rfl, h⟩
  | none =>
    simp only [readRecord_eq, h.outbox, ok_bind]
    cases s.outbox.find? request.outboxId with
    | none => exact ⟨rfl, h⟩
    | some row =>
      simp only []
      split_ifs
      · refine (updateOutbox_alike h).bind ?_
        rintro ⟨s₁, n⟩ ⟨t₁, _⟩ ⟨h₁, rfl⟩
        simp only []
        split_ifs
        · refine (writeResolution_alike h₁).bind ?_
          intro s₂ t₂ h₂
          refine (requireRecord_alike h₂ request.outboxId).bind ?_
          rintro record _ rfl
          refine (writeDecision_alike h₂ hk).bind ?_
          intro s₃ t₃ h₃
          exact ⟨rfl, h₃⟩
        · exact staleResolution_alike h₁ hk
      · exact staleResolution_alike h hk

theorem deleteRows_alike (rows : List (OutboxRecord δ)) (h : Alike K s t) :
    Matches (Alike K) (deleteRows referenced rows s) (deleteRows referenced rows t) := by
  induction rows generalizing s t with
  | nil => exact h
  | cons row rows ih =>
    obtain ⟨decisions, rfl, hd⟩ := h
    unfold deleteRows
    simp only []
    split_ifs
    · rfl
    · rfl
    · exact ih ⟨_, rfl, hd.delete _⟩

theorem cleanupTerminal_alike {request : CleanupTerminalOutboxRequest} (h : Alike K s t)
    (hk : .cleanup request.cleanupId ∈ K) :
    Matches (AlikeAnswers K) (cleanupTerminal P referenced request s)
      (cleanupTerminal P referenced request t) := by
  have hselect : selectTerminal t request = selectTerminal s request := by
    unfold selectTerminal
    rw [h.outbox]
  unfold cleanupTerminal readCleanupReplay
  simp only [h.decided hk, hselect]
  cases s.decisions.find? (.cleanup request.cleanupId) with
  | some decision =>
    simp only []
    split_ifs
    · exact ⟨rfl, h⟩
    · cases parseCleanup decision.resultJson <;> exact ⟨rfl, h⟩
  | none =>
    refine (deleteRows_alike _ h).bind ?_
    intro s₁ t₁ h₁
    refine (writeDecision_alike h₁ hk).bind ?_
    intro s₂ t₂ h₂
    exact ⟨rfl, h₂⟩

/-- A mutation cannot tell apart states that agree on the decision filed under its key. -/
theorem apply_alike {m : OutboxMutation P} (h : Alike K s t) (hk : m.decisionKey ∈ K) :
    Matches (AlikeAnswers K) (apply referenced m s) (apply referenced m t) := by
  cases m with
  | enqueue request => exact insertEnqueue_alike h hk
  | claimNext request => exact claimNext_alike h hk
  | reclaim request => exact reclaim_alike h hk
  | complete request => exact workerResult_alike h hk
  | fail request => exact workerResult_alike h hk
  | markUnknown request => exact workerResult_alike h hk
  | resolveUnknown request => exact resolveUnknown_alike h hk
  | cleanupTerminal request => exact cleanupTerminal_alike h hk

end Alike

section Frame
variable {s s' : OutboxTables δ} {m : OutboxMutation P} {a : OutboxAnswer δ}

/-- The rows that an attempt deleted. -/
def deletedBy : Attempted δ → List (BoundedText 512)
  | .ok (.cleaned result) => result.deletedIds
  | _ => []

def keepsDecision (a : Attempted δ) (d : DecisionRow δ) : Bool :=
  !decide (∃ id ∈ deletedBy a, d.outboxId = some id)

omit [DecidableEq δ] in
theorem filter_keepsDecision {a : Attempted δ} {x : Option (DecisionRow δ)}
    (h : deletedBy a = []) : x.filter (keepsDecision a) = x := by
  cases x with
  | none => rfl
  | some d => simp [keepsDecision, h, Option.filter]

omit [DecidableEq δ] in
theorem deletedBy_unmoved {a : Attempted δ} (h : Unmoved a) : deletedBy a = [] := by
  cases a with
  | error e => rfl
  | ok answer =>
    have hquiet := h answer rfl
    cases answer <;> first | rfl | exact hquiet.elim

/-- A transition files its decision under its own key and drops those of the rows it deletes. -/
theorem transition_decisions (ht : Transition P referenced s m a s') {k : DecisionKey δ}
    (hk : k ≠ m.decisionKey) :
    s'.decisions.find? k = (s.decisions.find? k).filter (keepsDecision (.ok a)) := by
  have hother : ∀ {t u : Table (decisionSchema δ)} {row : DecisionRow δ},
      t.insert? row = some u → row.key = m.decisionKey → u.find? k = t.find? k := by
    intro t u row hins hrow
    rw [Table.find?_insert? hins, if_neg]
    exact fun he => hk (he.symm.trans hrow)
  cases ht with
  | enqueue request inserted decided => exact (hother decided rfl).trans (filter_keepsDecision rfl).symm
  | emptyClaim request unleased nothingDue decided =>
    exact (hother decided rfl).trans (filter_keepsDecision rfl).symm
  | claimNext request row selected due rewritten leased decided =>
    exact (hother decided rfl).trans (filter_keepsDecision rfl).symm
  | staleReclaim request row unleased found unauthorised decided =>
    exact (hother decided rfl).trans (filter_keepsDecision rfl).symm
  | reclaim request row authorised rewritten leased decided =>
    exact (hother decided rfl).trans (filter_keepsDecision rfl).symm
  | report request outcome requestHash row isReport temporal owns rewritten recorded superseding
      decided =>
    have hkey : m.decisionKey = .outcome request.outboxId request.expectedAttempt.1 := by
      cases m <;> cases isReport <;> rfl
    rw [hother decided hkey.symm, superseding, filter_keepsDecision rfl]
    cases s.decisions.find? k with
    | none => rfl
    | some d => rw [Option.filter_some, if_pos (by simpa [hkey] using hk)]
  | staleResolution request row found unauthorised decided =>
    exact (hother decided rfl).trans (filter_keepsDecision rfl).symm
  | resolve request row authorised rewritten recorded decided =>
    exact (hother decided rfl).trans (filter_keepsDecision rfl).symm
  | clean request deleted decided =>
    exact (hother decided rfl).trans ((deleteRows_ok deleted).decisions k)

/-- A row that a transition does not delete stays. -/
theorem transition_keeps_row (ht : Transition P referenced s m a s') {id : BoundedText 512}
    (hr : (s.outbox.find? id).isSome) (hid : id ∉ deletedBy (.ok a)) :
    (s'.outbox.find? id).isSome := by
  obtain ⟨r, hr⟩ := Option.isSome_iff_exists.mp hr
  have hkept : ¬ removes id (m, a) := by
    rintro ⟨result, rfl, hmem⟩
    exact hid hmem
  obtain ⟨r', hr', -⟩ := transition_row ht hr hkept
  rw [hr']
  rfl

/-- What a transaction that returns does to the decisions filed under other keys and to a row. -/
theorem apply_frame {a : Attempted δ} (h : apply referenced m s = .ok (a, s')) {k : DecisionKey δ}
    (hk : k ≠ m.decisionKey) :
    s'.decisions.find? k = (s.decisions.find? k).filter (keepsDecision a) ∧
      ∀ id, (s.outbox.find? id).isSome → id ∉ deletedBy a → (s'.outbox.find? id).isSome := by
  rcases apply_ok h with ⟨rfl, hquiet⟩ | ⟨answer, rfl, ht⟩
  · exact ⟨(filter_keepsDecision (deletedBy_unmoved hquiet)).symm, fun _ hr _ => hr⟩
  · exact ⟨transition_decisions ht hk, fun _ => transition_keeps_row ht⟩

end Frame

end Piclaw
