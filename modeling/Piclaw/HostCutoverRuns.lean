import Piclaw.HostCutover

/-!
# Runs of the writer cutover

Every turn makes at most one move of the manifest, and a move raises the revision by one. From the
moves follow the writer, the receipts and, for a verified manifest, where its receipt comes from.
-/

namespace Piclaw

open Relational CutoverHost

variable {δ : Type} {H : CutoverHost δ} {ports : CutoverPorts} {s s' : CutoverState δ}

theorem change_eq_ok {expected : ℕ} {phases : List CutoverPhase}
    {body : CutoverManifest → Except CutoverFault ChangeBody}
    {finalCheck : ℕ → CutoverManifest → Except CutoverFault Unit} {m' : CutoverManifest}
    (h : change ports s expected phases body finalCheck = .ok (s', m')) :
    ∃ row next, s.row = some row ∧ row.manifest.revision = expected ∧
      row.manifest.phase ∈ phases ∧ body row.manifest = .ok next ∧
      finalCheck 0 row.manifest = .ok () ∧ finalCheck 1 row.manifest = .ok () ∧
      m' = { next.manifest with revision := next.manifest.revision + 1 } ∧
      s' = { s with row := some { row with manifest := m' }, work := next.work } := by
  unfold change at h
  obtain ⟨row, hrow, h⟩ := bind_eq_ok.mp h
  unfold readRow at hrow
  rw [ensure_bind_eq_ok, require_eq_ok] at hrow
  dsimp only at h
  rw [ensure_bind_eq_ok, ensure_bind_eq_ok] at h
  obtain ⟨⟨hrevision, hphase⟩, -, h⟩ := h
  obtain ⟨next, hnext, h⟩ := bind_eq_ok.mp h
  obtain ⟨_, hfirst, h⟩ := bind_eq_ok.mp h
  obtain ⟨_, hsecond, h⟩ := bind_eq_ok.mp h
  cases h
  exact ⟨row, next, hrow.2, hrevision, hphase, hnext, hfirst, hsecond, rfl, rfl⟩

/-- The moves of the manifest. `digests` is what a receipt of its request must carry. -/
inductive CutoverMove (H : CutoverHost δ) : CutoverManifest → CutoverManifest → Prop where
  | intent (m : CutoverManifest) (hphase : m.phase ∈ [CutoverPhase.source, .copying]) :
    CutoverMove H m { m with phase := .copying, revision := m.revision + 1 }
  | prepared (m : CutoverManifest) (receipt : CutoverReceipt) (hphase : m.phase = .copying) :
    CutoverMove H m { m with receipt := some receipt, revision := m.revision + 1 }
  | verified (m : CutoverManifest) (receipt : CutoverReceipt) (hphase : m.phase = .copying) :
    CutoverMove H m
      { m with phase := .verified, receipt := some receipt, revision := m.revision + 1 }
  | committed (m : CutoverManifest) (checkpoint : Option RollbackCheckpoint)
      (hphase : m.phase = .verified) :
    CutoverMove H m
      { m with
        rollbackCheckpoint := checkpoint
        phase := .active
        writer := H.candidateStoreRef
        revision := m.revision + 1 }
  | recorded (m : CutoverManifest)
      (hphase : m.phase ∈ [CutoverPhase.active, .reconciliationRequired]) :
    CutoverMove H m { m with revision := m.revision + 1 }
  | rolledBack (m : CutoverManifest) :
    CutoverMove H m
      { m with
        phase := .source
        writer := H.sourceEngineId
        receipt := none
        revision := m.revision + 1 }

theorem CutoverMove.revision {m m' : CutoverManifest} (h : CutoverMove H m m') :
    m'.revision = m.revision + 1 := by
  cases h <;> rfl

/-- What the writer and the receipt of a manifest are in each phase. -/
structure CutoverManifest.Sound (H : CutoverHost δ) (m : CutoverManifest) : Prop where
  writer : m.writer = if m.phase = .active then H.candidateStoreRef else H.sourceEngineId
  receipt : m.phase = .verified ∨ m.phase = .active → m.receipt.isSome
  known : m.phase ≠ .reconciliationRequired

theorem CutoverMove.sound {m m' : CutoverManifest} (h : CutoverMove H m m') (hm : m.Sound H) :
    m'.Sound H := by
  cases h with
  | intent hphase =>
    have hwriter := hm.writer
    rw [if_neg] at hwriter
    · refine ⟨hwriter, ?_, fun heq => by cases heq⟩
      rintro (heq | heq) <;> cases heq
    · intro heq
      rw [heq] at hphase
      simp at hphase
  | prepared receipt hphase =>
    have hwriter := hm.writer
    exact ⟨hwriter, fun _ => rfl, hm.known⟩
  | verified receipt hphase =>
    have hwriter := hm.writer
    rw [hphase] at hwriter
    exact ⟨hwriter, fun _ => rfl, fun heq => by cases heq⟩
  | committed checkpoint hphase =>
    exact ⟨rfl, fun _ => hm.receipt (.inl hphase), fun heq => by cases heq⟩
  | recorded hphase => exact ⟨hm.writer, hm.receipt, hm.known⟩
  | rolledBack =>
    refine ⟨rfl, ?_, fun heq => by cases heq⟩
    rintro (heq | heq) <;> cases heq

/-! ## What a successful call does -/

/-- A call that moves the manifest and leaves the rest of the domain as it was. -/
structure Moved (expected : ℕ) (move : CutoverManifest → CutoverManifest → Prop)
    (s s' : CutoverState δ) : Prop where
  row : ∃ row m', s.row = some row ∧ row.manifest.revision = expected ∧ move row.manifest m' ∧
    s'.row = some { row with manifest := m' }
  begins : s'.begins = s.begins
  verifies : s'.verifies = s.verifies
  calls : s'.calls = s.calls
  returned : s'.returned = s.returned
  latestBegin : s'.latestBegin = s.latestBegin
  ledger : s'.ledger = s.ledger

theorem drained_bind_eq_ok {α : Type} {n : ℕ} {request : CutoverRequest}
    {f : Unit → Except CutoverFault α} {a : α} :
    (drained ports n request >>= f) = .ok a ↔
      ports.checkDrained n = ⟨request.sourceDigest, 0, 0⟩ ∧ f () = .ok a :=
  ensure_bind_eq_ok

theorem receiptOf_eq_ok {value receipt : CutoverReceipt} {request : CutoverRequest}
    (h : receiptOf value request = .ok receipt) : receipt = value ∧
      value.sourceDigest = request.sourceDigest ∧ value.receiptHash = request.importHash := by
  unfold receiptOf at h
  rw [ensure_bind_eq_ok, ensure_bind_eq_ok] at h
  obtain ⟨-, hvalue, h⟩ := h
  cases h
  exact ⟨rfl, hvalue⟩

theorem requestSnapshot_eq_ok {r r' : CutoverRequest} (h : requestSnapshot r = .ok r') :
    r' = r := by
  unfold requestSnapshot at h
  rw [ensure_bind_eq_ok, ensure_bind_eq_ok] at h
  obtain ⟨-, -, h⟩ := h
  cases h
  rfl

theorem preflight_eq_ok {request : CutoverRequest}
    (h : H.preflight ports s request = .ok s') :
    (∃ row, s.row = some row ∧ s' = s) ∨
      (s.row = none ∧ ∃ hash, s' = { s with
        row := some ⟨hash, ⟨.source, 0, H.sourceEngineId, request, none, none⟩⟩ }) := by
  unfold preflight at h
  obtain ⟨r, hr, hrest⟩ := bind_eq_ok.mp h
  clear h
  obtain rfl := requestSnapshot_eq_ok hr
  rw [ensure_bind_eq_ok, ensure_bind_eq_ok, drained_bind_eq_ok] at hrest
  obtain ⟨-, -, -, h⟩ := hrest
  cases hrow : s.row with
  | some prior =>
    rw [hrow] at h
    dsimp only at h
    rw [ensure_bind_eq_ok] at h
    obtain ⟨-, h⟩ := h
    cases h
    exact .inl ⟨prior, rfl, rfl⟩
  | none =>
    rw [hrow] at h
    cases h
    exact .inr ⟨rfl, _, rfl⟩

theorem beginIntent_eq_ok {expected : ℕ} (h : beginIntent ports s expected = .ok s') :
    ∃ t request, Moved expected (CutoverMove H) s t ∧ t.work = s.work ∧
      (∃ row, t.row = some row ∧ row.manifest.phase = .copying ∧
        row.manifest.revision = expected + 1 ∧
        row.manifest.receipt = (s.row.bind fun r => r.manifest.receipt)) ∧
      s' = { t with
        begins := s.begins ++ [⟨s.calls, expected + 1, request, .copying⟩]
        calls := s.calls + 1
        latestBegin := some s.calls } := by
  unfold beginIntent at h
  obtain ⟨⟨t, intent⟩, hchange, h⟩ := bind_eq_ok.mp h
  obtain ⟨row, next, hrow, hrevision, hphase, hbody, -, -, rfl, rfl⟩ := change_eq_ok hchange
  rw [drained_bind_eq_ok] at hbody
  obtain ⟨-, hbody⟩ := hbody
  cases hbody
  obtain ⟨request, hrequest, h⟩ := bind_eq_ok.mp h
  cases h
  refine ⟨{ s with row := some { row with manifest := { row.manifest with
      phase := .copying, revision := row.manifest.revision + 1 } } }, request,
    ⟨⟨row, _, hrow, hrevision, .intent row.manifest hphase, rfl⟩, rfl, rfl, rfl, rfl, rfl, rfl⟩,
    rfl, ⟨_, rfl, rfl, ?_, ?_⟩, ?_⟩
  · rw [← hrevision]
  · rw [hrow]
    rfl
  · rw [← hrevision]

theorem copyReturned_eq_ok {call : BeginCall} {value : Option CutoverReceipt}
    (h : copyReturned ports s call value = .ok s') : s' = { s with
      begins := s.begins.map fun c =>
        if c.number = call.number then { c with stage := .importing } else c } := by
  unfold copyReturned at h
  obtain ⟨v, -, h⟩ := bind_eq_ok.mp h
  obtain ⟨receipt, -, h⟩ := bind_eq_ok.mp h
  rw [ensure_bind_eq_ok] at h
  obtain ⟨-, h⟩ := h
  cases h
  rfl

theorem importReturned_eq_ok {call : BeginCall} {value : Option CutoverReceipt}
    (h : importReturned ports s call value = .ok s') :
    ∃ receipt, value = some receipt ∧ receipt.sourceDigest = call.request.sourceDigest ∧
      receipt.receiptHash = call.request.importHash ∧ s'.work = s.work ∧
      Moved call.revision (fun m m' => m.phase = .copying ∧
        m' = { m with receipt := some receipt, revision := m.revision + 1 }) s s' := by
  unfold importReturned at h
  obtain ⟨v, hv, h⟩ := bind_eq_ok.mp h
  rw [require_eq_ok] at hv
  obtain ⟨receipt, hreceipt, h⟩ := bind_eq_ok.mp h
  obtain ⟨hvalue, hdigest, hhash⟩ := receiptOf_eq_ok hreceipt
  rw [ensure_bind_eq_ok] at h
  obtain ⟨-, h⟩ := h
  obtain ⟨⟨t, m⟩, hchange, h⟩ := bind_eq_ok.mp h
  obtain ⟨row, next, hrow, hrevision, hphase, hbody, -, -, rfl, rfl⟩ := change_eq_ok hchange
  rw [drained_bind_eq_ok] at hbody
  obtain ⟨-, hbody⟩ := hbody
  cases hbody
  cases h
  subst hvalue
  exact ⟨receipt, hv, hdigest, hhash, rfl,
    ⟨row, _, hrow, hrevision, ⟨List.mem_singleton.mp hphase, rfl⟩, rfl⟩, rfl, rfl, rfl, rfl, rfl,
    rfl⟩

theorem verifyStart_eq_ok {expected : ℕ} (h : verifyStart ports s expected = .ok s') :
    ∃ row receipt, s.row = some row ∧ row.manifest.revision = expected ∧
      row.manifest.phase = .copying ∧ row.manifest.receipt = some receipt ∧
      s' = { s with
        verifies := s.verifies ++ [⟨s.calls, expected, row.manifest.request, receipt⟩]
        calls := s.calls + 1 } := by
  unfold verifyStart at h
  obtain ⟨row, hrow, h⟩ := bind_eq_ok.mp h
  unfold readRow at hrow
  rw [ensure_bind_eq_ok, require_eq_ok] at hrow
  dsimp only at h
  rw [ensure_bind_eq_ok] at h
  obtain ⟨⟨hrevision, hphase⟩, h⟩ := h
  obtain ⟨receipt, hreceipt, h⟩ := bind_eq_ok.mp h
  rw [require_eq_ok] at hreceipt
  obtain ⟨request, hrequest, h⟩ := bind_eq_ok.mp h
  cases h
  obtain rfl := requestSnapshot_eq_ok hrequest
  exact ⟨row, receipt, hrow.2, hrevision, hphase, hreceipt, rfl⟩

theorem verifierReturned_eq_ok {call : VerifyCall} {value : Option CutoverReceipt}
    (h : verifierReturned ports s call value = .ok s') :
    ∃ receipt, value = some receipt ∧ receipt.sourceDigest = call.request.sourceDigest ∧
      receipt.receiptHash = call.request.importHash ∧ s'.work = s.work ∧
      Moved call.revision (fun m m' => m.phase = .copying ∧
        m' = { m with
          phase := .verified, receipt := some receipt, revision := m.revision + 1 }) s s' := by
  unfold verifierReturned at h
  obtain ⟨v, hv, h⟩ := bind_eq_ok.mp h
  rw [require_eq_ok] at hv
  obtain ⟨receipt, hreceipt, h⟩ := bind_eq_ok.mp h
  obtain ⟨hvalue, hdigest, hhash⟩ := receiptOf_eq_ok hreceipt
  rw [ensure_bind_eq_ok] at h
  obtain ⟨-, h⟩ := h
  obtain ⟨⟨t, m⟩, hchange, h⟩ := bind_eq_ok.mp h
  obtain ⟨row, next, hrow, hrevision, hphase, hbody, -, -, rfl, rfl⟩ := change_eq_ok hchange
  rw [drained_bind_eq_ok] at hbody
  obtain ⟨-, hbody⟩ := hbody
  cases hbody
  cases h
  subst hvalue
  exact ⟨receipt, hv, hdigest, hhash, rfl,
    ⟨row, _, hrow, hrevision, ⟨List.mem_singleton.mp hphase, rfl⟩, rfl⟩, rfl, rfl, rfl, rfl, rfl,
    rfl⟩

theorem commitWriter_eq_ok {expected : ℕ} {guards : ℕ → Bool}
    (h : H.commitWriter ports s expected guards = .ok s') :
    ∃ checkpoint, H.rollbackFrontier s.ledger = .ok checkpoint ∧ s'.work = s.work ∧
      s'.committed = some s.ledger ∧ Moved expected (fun m m' => m.phase = .verified ∧
        m' = { m with
          rollbackCheckpoint := checkpoint
          phase := .active
          writer := H.candidateStoreRef
          revision := m.revision + 1 }) s s' := by
  unfold commitWriter at h
  obtain ⟨⟨t, m⟩, hchange, h⟩ := bind_eq_ok.mp h
  obtain ⟨row, next, hrow, hrevision, hphase, hbody, -, -, rfl, rfl⟩ := change_eq_ok hchange
  rw [ensure_bind_eq_ok, drained_bind_eq_ok, ensure_bind_eq_ok] at hbody
  obtain ⟨-, -, -, hbody⟩ := hbody
  obtain ⟨checkpoint, hcheckpoint, hbody⟩ := bind_eq_ok.mp hbody
  cases hbody
  cases h
  exact ⟨checkpoint, hcheckpoint, rfl, rfl,
    ⟨row, _, hrow, hrevision, ⟨List.mem_singleton.mp hphase, rfl⟩, rfl⟩, rfl, rfl, rfl, rfl, rfl,
    rfl⟩

theorem recordPostCutoverWork_eq_ok {expected : ℕ} {operationId contentHash : String}
    (h : recordPostCutoverWork ports s expected operationId contentHash = .ok s') :
    Moved expected (fun m m' => m.phase ∈ [CutoverPhase.active, .reconciliationRequired] ∧
      m' = { m with revision := m.revision + 1 }) s s' ∧ s'.committed = s.committed := by
  unfold recordPostCutoverWork at h
  rw [ensure_bind_eq_ok] at h
  obtain ⟨-, h⟩ := h
  obtain ⟨⟨t, m⟩, hchange, h⟩ := bind_eq_ok.mp h
  obtain ⟨row, next, hrow, hrevision, hphase, hbody, -, -, rfl, rfl⟩ := change_eq_ok hchange
  have hnext : next.manifest = row.manifest := by
    cases hprior : s.work.lookup operationId with
    | none =>
      rw [hprior] at hbody
      cases hbody
      rfl
    | some prior =>
      rw [hprior] at hbody
      dsimp only at hbody
      rw [ensure_bind_eq_ok] at hbody
      obtain ⟨-, hbody⟩ := hbody
      cases hbody
      rfl
  cases h
  rw [hnext]
  exact ⟨⟨⟨row, _, hrow, hrevision, ⟨hphase, rfl⟩, rfl⟩, rfl, rfl, rfl, rfl, rfl, rfl⟩, rfl⟩

theorem switchBack_eq_ok {expected : ℕ} (h : H.switchBack ports s expected = .ok s') :
    ∃ row, s.row = some row ∧ H.ensureSafe ports s 1 row.manifest = .ok () ∧
      H.ensureSafe ports s 3 row.manifest = .ok () ∧
      H.ensureSafe ports s 5 row.manifest = .ok () ∧ s'.work = s.work ∧
      s'.committed = s.committed ∧
      Moved expected (fun m m' => m' = { m with
        phase := .source
        writer := H.sourceEngineId
        receipt := none
        revision := m.revision + 1 }) s s' := by
  unfold switchBack at h
  obtain ⟨⟨t, m⟩, hchange, h⟩ := bind_eq_ok.mp h
  obtain ⟨row, next, hrow, hrevision, hphase, hbody, hfirst, hsecond, rfl, rfl⟩ :=
    change_eq_ok hchange
  obtain ⟨_, hsafe, hbody⟩ := bind_eq_ok.mp hbody
  cases hbody
  cases h
  exact ⟨row, hrow, hsafe, hfirst, hsecond, rfl, rfl,
    ⟨row, _, hrow, hrevision, rfl, rfl⟩, rfl, rfl, rfl, rfl, rfl, rfl⟩

theorem rollback_eq_ok {expected : ℕ} {earlier : CutoverState δ}
    (h : H.rollback ports s expected earlier = .ok s') :
    H.switchBack ports s expected = .ok s' := by
  unfold rollback at h
  obtain ⟨plan, -, h⟩ := bind_eq_ok.mp h
  rw [ensure_bind_eq_ok] at h
  exact h.2

/-! ## One turn -/

/-- The revision that a call carries. -/
def carriedRevision (s : CutoverState δ) : CutoverTurn δ → Option ℕ
  | .begin _ expected => some expected
  | .importReturned _ number _ =>
    (s.begins.find? fun c => decide (c.number = number ∧ c.stage = .importing)).map
      BeginCall.revision
  | .verify _ expected => some expected
  | .verifierReturned _ number _ =>
    (s.verifies.find? fun c => decide (c.number = number)).map VerifyCall.revision
  | .commitWriter _ expected _ => some expected
  | .recordPostCutoverWork _ expected _ _ => some expected
  | .rollback _ expected _ => some expected
  | _ => none

/-- What one turn does to the manifest row and the recorded work. -/
inductive CutoverOutcome (H : CutoverHost δ) (s : CutoverState δ) (turn : CutoverTurn δ)
    (s' : CutoverState δ) : Prop where
  | unchanged (row : s'.row = s.row) (work : s'.work = s.work)
  | created (absent : s.row = none) (hash : δ) (request : CutoverRequest)
      (row : s'.row = some ⟨hash, ⟨.source, 0, H.sourceEngineId, request, none, none⟩⟩)
  | moved (row : CutoverRow δ) (m' : CutoverManifest) (before : s.row = some row)
      (carried : carriedRevision s turn = some row.manifest.revision)
      (move : CutoverMove H row.manifest m')
      (after : s'.row = some { row with manifest := m' })

theorem settleCall_cases {P : CutoverState δ → Prop} {x : Except CutoverFault (CutoverState δ)}
    (herror : P s) (hok : ∀ t, x = .ok t → P t) : P (settleCall s x) := by
  cases x with
  | error e => exact herror
  | ok t => exact hok t rfl

theorem Moved.outcome {expected : ℕ} {move : CutoverManifest → CutoverManifest → Prop}
    {turn : CutoverTurn δ} {t t' : CutoverState δ} (h : Moved expected move t t')
    (hrow : t.row = s.row) (hcarried : carriedRevision s turn = some expected)
    (hmove : ∀ m m', move m m' → CutoverMove H m m') : CutoverOutcome H s turn t' := by
  obtain ⟨row, m', hbefore, hrevision, hm, hafter⟩ := h.row
  refine .moved row m' (hrow ▸ hbefore) ?_ (hmove _ _ hm) hafter
  rw [hrevision]
  exact hcarried

theorem cutoverStep_outcome (H : CutoverHost δ) (s : CutoverState δ) (turn : CutoverTurn δ) :
    CutoverOutcome H s turn (cutoverStep H s turn) := by
  cases turn with
  | preflight ports request =>
    apply settleCall_cases (.unchanged rfl rfl)
    intro t ht
    rcases preflight_eq_ok ht with ⟨row, hrow, rfl⟩ | ⟨hnone, hash, rfl⟩
    · exact .unchanged rfl rfl
    · exact .created hnone hash request rfl
  | begin ports expected =>
    apply settleCall_cases (.unchanged rfl rfl)
    intro t ht
    obtain ⟨u, request, hmoved, hwork, -, rfl⟩ := beginIntent_eq_ok ht
    obtain ⟨row, m', hbefore, hrevision, hm, hafter⟩ := hmoved.row
    exact .moved row m' hbefore (by rw [hrevision]; rfl) hm hafter
  | copyReturned ports number value =>
    unfold cutoverStep
    dsimp only
    cases hfind : s.begins.find? fun c => decide (c.number = number ∧ c.stage = .copying) with
    | none => exact .unchanged rfl rfl
    | some call =>
      apply settleCall_cases (.unchanged rfl rfl)
      intro t ht
      rw [copyReturned_eq_ok ht]
      exact .unchanged rfl rfl
  | importReturned ports number value =>
    unfold cutoverStep
    dsimp only
    cases hfind : s.begins.find? fun c => decide (c.number = number ∧ c.stage = .importing) with
    | none => exact .unchanged rfl rfl
    | some call =>
      apply settleCall_cases (.unchanged rfl rfl)
      intro t ht
      obtain ⟨receipt, -, -, -, hwork, hmoved⟩ := importReturned_eq_ok ht
      refine hmoved.outcome rfl ?_ ?_
      · change (s.begins.find? _).map BeginCall.revision = _
        rw [hfind]
        rfl
      · rintro m m' ⟨hphase, rfl⟩
        exact .prepared m receipt hphase
  | verify ports expected =>
    apply settleCall_cases (.unchanged rfl rfl)
    intro t ht
    obtain ⟨row, receipt, -, -, -, -, rfl⟩ := verifyStart_eq_ok ht
    exact .unchanged rfl rfl
  | verifierReturned ports number value =>
    unfold cutoverStep
    dsimp only
    cases hfind : s.verifies.find? fun c => decide (c.number = number) with
    | none => exact .unchanged rfl rfl
    | some call =>
      apply settleCall_cases (.unchanged rfl rfl)
      intro t ht
      obtain ⟨receipt, -, -, -, hwork, hmoved⟩ := verifierReturned_eq_ok ht
      refine hmoved.outcome rfl ?_ ?_
      · change (s.verifies.find? _).map VerifyCall.revision = _
        rw [hfind]
        rfl
      · rintro m m' ⟨hphase, rfl⟩
        exact .verified m receipt hphase
  | commitWriter ports expected guards =>
    apply settleCall_cases (.unchanged rfl rfl)
    intro t ht
    obtain ⟨checkpoint, -, -, -, hmoved⟩ := commitWriter_eq_ok ht
    refine hmoved.outcome rfl rfl ?_
    rintro m m' ⟨hphase, rfl⟩
    exact .committed m checkpoint hphase
  | recordPostCutoverWork ports expected operationId contentHash =>
    apply settleCall_cases (.unchanged rfl rfl)
    intro t ht
    refine (recordPostCutoverWork_eq_ok ht).1.outcome rfl rfl ?_
    rintro m m' ⟨hphase, rfl⟩
    exact .recorded m hphase
  | rollback ports expected earlier =>
    apply settleCall_cases (.unchanged rfl rfl)
    intro t ht
    obtain ⟨row, -, -, -, -, -, -, hmoved⟩ := switchBack_eq_ok (rollback_eq_ok ht)
    refine hmoved.outcome rfl rfl ?_
    rintro m m' rfl
    exact .rolledBack m
  | changeLedger ledger => exact .unchanged rfl rfl

/-- A call that carries an older revision changes nothing. -/
theorem stale_call_unchanged {row : CutoverRow δ} {turn : CutoverTurn δ} {revision : ℕ}
    (hrow : s.row = some row) (hcarried : carriedRevision s turn = some revision)
    (hstale : revision < row.manifest.revision) :
    (cutoverStep H s turn).row = s.row ∧ (cutoverStep H s turn).work = s.work := by
  cases cutoverStep_outcome H s turn with
  | unchanged hsame hwork => exact ⟨hsame, hwork⟩
  | created hnone =>
    rw [hrow] at hnone
    cases hnone
  | moved row' m' hbefore hcarried' hmove hafter =>
    rw [hrow] at hbefore
    cases hbefore
    rw [hcarried] at hcarried'
    have := Option.some.inj hcarried'
    omega

def SoundRow (H : CutoverHost δ) (s : CutoverState δ) : Prop :=
  ∀ row, s.row = some row → row.manifest.Sound H

theorem soundRow_step (turn : CutoverTurn δ) (h : SoundRow H s) :
    SoundRow H (cutoverStep H s turn) := by
  intro row hrow
  cases cutoverStep_outcome H s turn with
  | unchanged hsame hwork =>
    rw [hsame] at hrow
    exact h row hrow
  | created hnone hash request hafter =>
    rw [hafter] at hrow
    cases hrow
    refine ⟨rfl, ?_, fun heq => by cases heq⟩
    rintro (heq | heq) <;> cases heq
  | moved row' m' hbefore hcarried hmove hafter =>
    rw [hafter] at hrow
    cases hrow
    exact hmove.sound (h row' hbefore)

/-! ## Where a verified receipt comes from -/

/-- A begin starts where no receipt is stored and no other begin waits for its callbacks. -/
def StartsClean (s : CutoverState δ) : CutoverTurn δ → Prop
  | .begin _ _ => s.begins = [] ∧ ∀ row, s.row = some row → row.manifest.receipt = none
  | _ => True

/-- The verified receipt was returned by the preparation of the most recent begin, and no other
begin waits for its copy or its import. -/
def FreshlyVerified (s : CutoverState δ) : Prop :=
  ∃ row receipt number, s.row = some row ∧ row.manifest.receipt = some receipt ∧
    s.latestBegin = some number ∧ (number, receipt) ∈ s.returned ∧
    ∀ call ∈ s.begins, call.number = number

def phaseOf (s : CutoverState δ) : Option CutoverPhase := s.row.map fun row => row.manifest.phase

def Determined (request : CutoverRequest) (receipt : CutoverReceipt) : Prop :=
  receipt.sourceDigest = request.sourceDigest ∧ receipt.receiptHash = request.importHash

theorem Determined.unique {request : CutoverRequest} {r r' : CutoverReceipt}
    (h : Determined request r) (h' : Determined request r') : r = r' := by
  obtain ⟨sourceDigest, receiptHash⟩ := r
  obtain ⟨sourceDigest', receiptHash'⟩ := r'
  obtain ⟨rfl, rfl⟩ := h
  obtain ⟨h₁, h₂⟩ := h'
  change sourceDigest' = _ at h₁
  change receiptHash' = _ at h₂
  rw [h₁, h₂]

/-- What holds of the calls in flight when every begin has started clean. -/
structure CleanCalls (s : CutoverState δ) : Prop where
  latest : ∀ call ∈ s.begins, s.latestBegin = some call.number
  beginRequest : ∀ call ∈ s.begins, ∃ row, s.row = some row ∧ call.request = row.manifest.request
  determined : ∀ row receipt, s.row = some row → row.manifest.receipt = some receipt →
    Determined row.manifest.request receipt
  fresh : ∀ row receipt, s.row = some row → row.manifest.phase = .copying →
    row.manifest.receipt = some receipt →
    s.begins = [] ∧ ∃ number, s.latestBegin = some number ∧ (number, receipt) ∈ s.returned
  verifying : ∀ call ∈ s.verifies, ∃ row, s.row = some row ∧
    call.request = row.manifest.request ∧ call.revision ≤ row.manifest.revision ∧
    (call.revision = row.manifest.revision → row.manifest.phase = .copying ∧
      row.manifest.receipt.isSome)

/-- A move that leaves the calls in flight alone and makes no new copying manifest with a receipt
keeps what holds of them. -/
theorem CleanCalls.moved {row : CutoverRow δ} {m' : CutoverManifest} {t : CutoverState δ}
    (h : CleanCalls s) (hrow : s.row = some row) (hafter : t.row = some { row with manifest := m' })
    (hbegins : ∀ call ∈ t.begins, call ∈ s.begins) (hverifies : ∀ call ∈ t.verifies, call ∈ s.verifies)
    (hlatest : t.latestBegin = s.latestBegin)
    (hrequest : m'.request = row.manifest.request)
    (hrevision : m'.revision = row.manifest.revision + 1)
    (hdetermined : ∀ receipt, m'.receipt = some receipt → Determined m'.request receipt)
    (hfresh : m'.phase ≠ .copying) : CleanCalls t := by
  constructor
  · intro call hcall
    rw [hlatest]
    exact h.latest call (hbegins call hcall)
  · intro call hcall
    obtain ⟨row', hrow', hcallRequest⟩ := h.beginRequest call (hbegins call hcall)
    rw [hrow] at hrow'
    cases hrow'
    exact ⟨_, hafter, hcallRequest.trans hrequest.symm⟩
  · intro row' receipt hrow' hreceipt
    rw [hafter] at hrow'
    cases hrow'
    exact hdetermined receipt hreceipt
  · intro row' receipt hrow' hphase
    rw [hafter] at hrow'
    cases hrow'
    exact absurd hphase hfresh
  · intro call hcall
    obtain ⟨row', hrow', hcallRequest, hle, -⟩ := h.verifying call (hverifies call hcall)
    rw [hrow] at hrow'
    cases hrow'
    refine ⟨_, hafter, hcallRequest.trans hrequest.symm, ?_, ?_⟩
    · change call.revision ≤ m'.revision
      omega
    · intro heq
      change call.revision = m'.revision at heq
      omega

/-- Dropping calls in flight and recording a returned receipt. -/
theorem CleanCalls.frame {t : CutoverState δ} (h : CleanCalls s) (hrow : t.row = s.row)
    (hbegins : ∀ call ∈ t.begins, ∃ c ∈ s.begins, call.number = c.number ∧ call.request = c.request)
    (hverifies : ∀ call ∈ t.verifies, call ∈ s.verifies) (hlatest : t.latestBegin = s.latestBegin)
    (hreturned : ∀ e ∈ s.returned, e ∈ t.returned) : CleanCalls t := by
  constructor
  · intro call hcall
    obtain ⟨c, hc, hnumber, -⟩ := hbegins call hcall
    rw [hlatest, hnumber]
    exact h.latest c hc
  · intro call hcall
    obtain ⟨c, hc, -, hrequest⟩ := hbegins call hcall
    rw [hrow, hrequest]
    exact h.beginRequest c hc
  · rw [hrow]
    exact h.determined
  · intro row receipt hrow' hphase hreceipt
    rw [hrow] at hrow'
    obtain ⟨hnone, number, hnumber, hmem⟩ := h.fresh row receipt hrow' hphase hreceipt
    refine ⟨?_, number, hlatest.trans hnumber, hreturned _ hmem⟩
    apply List.eq_nil_iff_forall_not_mem.mpr
    intro call hcall
    obtain ⟨c, hc, -⟩ := hbegins call hcall
    rw [hnone] at hc
    cases hc
  · intro call hcall
    rw [hrow]
    exact h.verifying call (hverifies call hcall)

theorem mem_dropped {calls : List BeginCall} {number : ℕ} :
    ∀ call ∈ calls.filter (fun c => decide (c.number ≠ number)),
      ∃ c ∈ calls, call.number = c.number ∧ call.request = c.request :=
  fun call hcall => ⟨call, (List.mem_filter.mp hcall).1, rfl, rfl⟩

theorem CleanCalls.begin {ports : CutoverPorts} {expected : ℕ} (h : CleanCalls s)
    (hclean : StartsClean s (.begin ports expected)) {t : CutoverState δ}
    (ht : beginIntent ports s expected = .ok t) : CleanCalls t := by
  obtain ⟨hnone, hreceipt⟩ := hclean
  unfold beginIntent at ht
  obtain ⟨⟨u, intent⟩, hchange, ht⟩ := bind_eq_ok.mp ht
  obtain ⟨row, next, hrow, hrevision, hphase, hbody, -, -, hintent, rfl⟩ := change_eq_ok hchange
  rw [drained_bind_eq_ok] at hbody
  obtain ⟨-, hbody⟩ := hbody
  cases hbody
  obtain ⟨request, hrequest, ht⟩ := bind_eq_ok.mp ht
  cases ht
  have hsame := requestSnapshot_eq_ok hrequest
  rw [hintent] at hsame
  have hempty := hreceipt row hrow
  rw [hnone]
  constructor
  · intro call hcall
    rw [List.mem_singleton.mp hcall]
  · intro call hcall
    rw [List.mem_singleton.mp hcall]
    refine ⟨_, rfl, ?_⟩
    rw [hintent]
    exact hsame
  · intro row' receipt hrow' hsome
    cases hrow'
    rw [hintent] at hsome
    change row.manifest.receipt = _ at hsome
    rw [hempty] at hsome
    cases hsome
  · intro row' receipt hrow' _ hsome
    cases hrow'
    rw [hintent] at hsome
    change row.manifest.receipt = _ at hsome
    rw [hempty] at hsome
    cases hsome
  · intro call hcall
    obtain ⟨row', hrow', hcallRequest, hle, -⟩ := h.verifying call hcall
    rw [hrow] at hrow'
    cases hrow'
    refine ⟨_, rfl, ?_, ?_, ?_⟩
    · rw [hintent]
      exact hcallRequest
    · rw [hintent]
      change call.revision ≤ row.manifest.revision + 1
      omega
    · rw [hintent]
      intro heq
      change call.revision = row.manifest.revision + 1 at heq
      omega

theorem CleanCalls.importReturned {ports : CutoverPorts} {call : BeginCall}
    {value : Option CutoverReceipt} {t : CutoverState δ} (h : CleanCalls s)
    (hcall : ∃ row, s.row = some row ∧ call.request = row.manifest.request)
    (hnone : s.begins = []) (hlatest : s.latestBegin = some call.number)
    (hreturned : ∀ receipt, value = some receipt → (call.number, receipt) ∈ s.returned)
    (ht : CutoverHost.importReturned ports s call value = .ok t) : CleanCalls t := by
  obtain ⟨receipt, hvalue, hdigest, hhash, -, hmoved⟩ := importReturned_eq_ok ht
  obtain ⟨row, m', hrow, hrevision, ⟨hphase, rfl⟩, hafter⟩ := hmoved.row
  obtain ⟨row', hrow', hrequest⟩ := hcall
  rw [hrow] at hrow'
  cases hrow'
  constructor
  · intro c hc
    rw [hmoved.begins, hnone] at hc
    cases hc
  · intro c hc
    rw [hmoved.begins, hnone] at hc
    cases hc
  · intro row' receipt' hrow' hsome
    rw [hafter] at hrow'
    cases hrow'
    obtain rfl := Option.some.inj hsome
    rw [hrequest] at hdigest hhash
    exact ⟨hdigest, hhash⟩
  · intro row' receipt' hrow' _ hsome
    rw [hafter] at hrow'
    cases hrow'
    obtain rfl := Option.some.inj hsome
    refine ⟨hmoved.begins.trans hnone, call.number, hmoved.latestBegin.trans hlatest, ?_⟩
    rw [hmoved.returned]
    exact hreturned _ hvalue
  · intro c hc
    rw [hmoved.verifies] at hc
    obtain ⟨row', hrow', hcallRequest, hle, -⟩ := h.verifying c hc
    rw [hrow] at hrow'
    cases hrow'
    refine ⟨_, hafter, hcallRequest, ?_, ?_⟩
    · change c.revision ≤ row.manifest.revision + 1
      omega
    · intro heq
      change c.revision = row.manifest.revision + 1 at heq
      omega

/-- A verifier that comes back in time verifies what the most recent begin prepared. -/
theorem CleanCalls.verifierReturned {ports : CutoverPorts} {call : VerifyCall}
    {value : Option CutoverReceipt} {t : CutoverState δ} (h : CleanCalls s)
    (hcall : ∃ row, s.row = some row ∧ call.request = row.manifest.request ∧
      (call.revision = row.manifest.revision → row.manifest.phase = .copying ∧
        row.manifest.receipt.isSome))
    (ht : CutoverHost.verifierReturned ports s call value = .ok t) :
    CleanCalls t ∧ FreshlyVerified t := by
  obtain ⟨receipt, hvalue, hdigest, hhash, -, hmoved⟩ := verifierReturned_eq_ok ht
  obtain ⟨row, m', hrow, hrevision, ⟨hphase, rfl⟩, hafter⟩ := hmoved.row
  obtain ⟨row', hrow', hrequest, hsome⟩ := hcall
  rw [hrow] at hrow'
  cases hrow'
  rw [hrequest] at hdigest hhash
  refine ⟨?_, ?_⟩
  · refine h.moved hrow hafter ?_ ?_ hmoved.latestBegin rfl rfl ?_ ?_
    · rw [hmoved.begins]
      exact fun _ hc => hc
    · rw [hmoved.verifies]
      exact fun _ hc => hc
    · intro receipt' hreceipt
      obtain rfl := Option.some.inj hreceipt
      exact ⟨hdigest, hhash⟩
    · intro heq
      cases heq
  · obtain ⟨stored, hstored⟩ := Option.isSome_iff_exists.mp (hsome hrevision.symm).2
    obtain ⟨hnone, number, hnumber, hmem⟩ := h.fresh row stored hrow hphase hstored
    have hunique := (h.determined row stored hrow hstored).unique ⟨hdigest, hhash⟩
    refine ⟨_, receipt, number, hafter, rfl, hmoved.latestBegin.trans hnumber, ?_, ?_⟩
    · rw [hmoved.returned, ← hunique]
      exact hmem
    · intro c hc
      rw [hmoved.begins, hnone] at hc
      cases hc

theorem mem_of_find_begin {number : ℕ} {stage : BeginStage} {call : BeginCall}
    (hfind : s.begins.find? (fun c => decide (c.number = number ∧ c.stage = stage)) = some call) :
    call ∈ s.begins ∧ call.number = number := by
  have hcond := List.find?_some hfind
  rw [decide_eq_true_eq] at hcond
  exact ⟨List.mem_of_find?_eq_some hfind, hcond.1⟩

/-- When every begin has started clean, at most one waits for its callbacks. -/
theorem CleanCalls.dropped {call : BeginCall} (h : CleanCalls s) (hcall : call ∈ s.begins) :
    s.begins.filter (fun c => decide (c.number ≠ call.number)) = [] := by
  rw [List.filter_eq_nil_iff]
  intro c hc
  have hlatest := h.latest c hc
  rw [h.latest call hcall] at hlatest
  rw [decide_eq_true_eq]
  exact fun hne => hne (Option.some.inj hlatest).symm

theorem phaseOf_of_moved {expected : ℕ} {move : CutoverManifest → CutoverManifest → Prop}
    {phase : CutoverPhase} {t t' : CutoverState δ} (h : Moved expected move t t')
    (hmove : ∀ m m', move m m' → m'.phase = phase) : phaseOf t' = some phase := by
  obtain ⟨row, m', -, -, hm, hafter⟩ := h.row
  unfold phaseOf
  rw [hafter]
  exact congrArg some (hmove _ _ hm)

/-- What a turn that meets the condition keeps, and what it does when it verifies. -/
structure Tracks (s t : CutoverState δ) : Prop where
  calls : CleanCalls t
  verified : phaseOf s ≠ some .verified → phaseOf t = some .verified → FreshlyVerified t

theorem Tracks.of_same {t : CutoverState δ} (h : CleanCalls t) (heq : phaseOf t = phaseOf s) :
    Tracks s t :=
  ⟨h, fun hne hverified => absurd (heq ▸ hverified) hne⟩

theorem Tracks.of_other {t : CutoverState δ} (phase : CutoverPhase) (h : CleanCalls t)
    (heq : phaseOf t = some phase) (hne : phase ≠ .verified) : Tracks s t := by
  refine ⟨h, fun _ hverified => ?_⟩
  rw [heq] at hverified
  exact absurd (Option.some.inj hverified) hne

theorem cleanCalls_step {turn : CutoverTurn δ} (h : CleanCalls s) (hclean : StartsClean s turn) :
    Tracks s (cutoverStep H s turn) := by
  cases turn with
  | preflight ports request =>
    apply settleCall_cases (Tracks.of_same h rfl)
    intro t ht
    rcases preflight_eq_ok ht with ⟨row, hrow, rfl⟩ | ⟨hnone, hash, rfl⟩
    · exact .of_same h rfl
    · refine Tracks.of_other .source ?_ rfl ?_
      · constructor
        · exact h.latest
        · intro call hcall
          obtain ⟨row, hrow, -⟩ := h.beginRequest call hcall
          rw [hnone] at hrow
          cases hrow
        · intro row receipt hrow hreceipt
          cases hrow
          cases hreceipt
        · intro row receipt hrow hphase
          cases hrow
          cases hphase
        · intro call hcall
          obtain ⟨row, hrow, -⟩ := h.verifying call hcall
          rw [hnone] at hrow
          cases hrow
      · intro heq
        cases heq
  | begin ports expected =>
    apply settleCall_cases (Tracks.of_same h rfl)
    intro t ht
    obtain ⟨u, request, -, -, ⟨row, hrow, hphase, -⟩, rfl⟩ := beginIntent_eq_ok (H := H) ht
    refine Tracks.of_other .copying (h.begin hclean ht) ?_ ?_
    · unfold phaseOf
      dsimp only
      rw [hrow]
      exact congrArg some hphase
    · intro heq
      cases heq
  | copyReturned ports number value =>
    unfold cutoverStep
    dsimp only
    cases hfind : s.begins.find? fun c => decide (c.number = number ∧ c.stage = .copying) with
    | none => exact Tracks.of_same h rfl
    | some call =>
      apply settleCall_cases
      · exact Tracks.of_same (h.frame rfl mem_dropped (fun _ hc => hc) rfl fun _ he => he) rfl
      · intro t ht
        rw [copyReturned_eq_ok ht]
        refine Tracks.of_same (h.frame rfl ?_ (fun _ hc => hc) rfl fun _ he => he) rfl
        intro c hc
        obtain ⟨b, hb, rfl⟩ := List.mem_map.mp hc
        refine ⟨b, hb, ?_⟩
        split_ifs <;> exact ⟨rfl, rfl⟩
  | importReturned ports number value =>
    unfold cutoverStep
    dsimp only
    cases hfind : s.begins.find? fun c => decide (c.number = number ∧ c.stage = .importing) with
    | none => exact Tracks.of_same h rfl
    | some call =>
      obtain ⟨hmem, rfl⟩ := mem_of_find_begin hfind
      have hframe : CleanCalls { s with
          begins := s.begins.filter fun c => decide (c.number ≠ call.number)
          returned := value.toList.map (fun receipt => (call.number, receipt)) ++ s.returned } :=
        h.frame rfl mem_dropped (fun _ hc => hc) rfl fun _ he => List.mem_append_right _ he
      have htracks : Tracks s _ := .of_same hframe rfl
      apply settleCall_cases htracks
      intro t ht
      obtain ⟨receipt, hvalue, -, -, -, hmoved⟩ := importReturned_eq_ok ht
      refine Tracks.of_other .copying ?_ (phaseOf_of_moved hmoved ?_) ?_
      · refine hframe.importReturned (h.beginRequest call hmem) (h.dropped hmem)
          (h.latest call hmem) ?_ ht
        intro receipt hreceipt
        rw [hreceipt]
        exact List.mem_append_left _ (List.mem_singleton_self _)
      · rintro m m' ⟨hphase, rfl⟩
        exact hphase
      · intro heq
        cases heq
  | verify ports expected =>
    apply settleCall_cases (Tracks.of_same h rfl)
    intro t ht
    obtain ⟨row, receipt, hrow, hrevision, hphase, hreceipt, rfl⟩ := verifyStart_eq_ok ht
    refine Tracks.of_same ?_ rfl
    constructor
    · exact h.latest
    · exact h.beginRequest
    · exact h.determined
    · exact h.fresh
    · intro call hcall
      rcases List.mem_append.mp hcall with hold | hnew
      · exact h.verifying call hold
      · rw [List.mem_singleton.mp hnew]
        refine ⟨row, hrow, rfl, le_of_eq hrevision.symm, fun _ => ⟨hphase, ?_⟩⟩
        rw [hreceipt]
        rfl
  | verifierReturned ports number value =>
    unfold cutoverStep
    dsimp only
    cases hfind : s.verifies.find? fun c => decide (c.number = number) with
    | none => exact Tracks.of_same h rfl
    | some call =>
      have hframe : CleanCalls { s with
          verifies := s.verifies.filter fun c => decide (c.number ≠ number) } :=
        h.frame rfl (fun c hc => ⟨c, hc, rfl, rfl⟩) (fun _ hc => (List.mem_filter.mp hc).1) rfl
          fun _ he => he
      have htracks : Tracks s _ := .of_same hframe rfl
      apply settleCall_cases htracks
      intro t ht
      obtain ⟨row, hrow, hrequest, -, hsome⟩ :=
        h.verifying call (List.mem_of_find?_eq_some hfind)
      obtain ⟨hcalls, hverified⟩ := hframe.verifierReturned ⟨row, hrow, hrequest, hsome⟩ ht
      exact ⟨hcalls, fun _ _ => hverified⟩
  | commitWriter ports expected guards =>
    apply settleCall_cases (Tracks.of_same h rfl)
    intro t ht
    obtain ⟨checkpoint, -, -, -, hmoved⟩ := commitWriter_eq_ok ht
    obtain ⟨row, m', hrow, -, ⟨hphase, rfl⟩, hafter⟩ := hmoved.row
    refine Tracks.of_other .active ?_ (phaseOf_of_moved hmoved ?_) ?_
    · refine h.moved hrow hafter (by rw [hmoved.begins]; exact fun _ hc => hc)
        (by rw [hmoved.verifies]; exact fun _ hc => hc) hmoved.latestBegin rfl rfl ?_ ?_
      · exact fun receipt hreceipt => h.determined row receipt hrow hreceipt
      · intro heq
        cases heq
    · rintro m m' ⟨-, rfl⟩
      rfl
    · intro heq
      cases heq
  | recordPostCutoverWork ports expected operationId contentHash =>
    apply settleCall_cases (Tracks.of_same h rfl)
    intro t ht
    obtain ⟨hmoved, -⟩ := recordPostCutoverWork_eq_ok ht
    obtain ⟨row, m', hrow, -, ⟨hphase, rfl⟩, hafter⟩ := hmoved.row
    have hcopying : row.manifest.phase ≠ .copying := by
      intro heq
      rw [heq] at hphase
      simp at hphase
    refine Tracks.of_same ?_ ?_
    · refine h.moved hrow hafter (by rw [hmoved.begins]; exact fun _ hc => hc)
        (by rw [hmoved.verifies]; exact fun _ hc => hc) hmoved.latestBegin rfl rfl ?_ hcopying
      exact fun receipt hreceipt => h.determined row receipt hrow hreceipt
    · unfold phaseOf
      rw [hafter, hrow]
      rfl
  | rollback ports expected earlier =>
    apply settleCall_cases (Tracks.of_same h rfl)
    intro t ht
    obtain ⟨_, -, -, -, -, -, -, hmoved⟩ := switchBack_eq_ok (rollback_eq_ok ht)
    obtain ⟨row, m', hrow, -, rfl, hafter⟩ := hmoved.row
    refine Tracks.of_other .source ?_ (phaseOf_of_moved hmoved ?_) ?_
    · refine h.moved hrow hafter (by rw [hmoved.begins]; exact fun _ hc => hc)
        (by rw [hmoved.verifies]; exact fun _ hc => hc) hmoved.latestBegin rfl rfl ?_ ?_
      · intro receipt hreceipt
        cases hreceipt
      · intro heq
        cases heq
    · rintro m m' rfl
      rfl
    · intro heq
      cases heq
  | changeLedger ledger =>
    refine Tracks.of_same (h.frame rfl (fun c hc => ⟨c, hc, rfl, rfl⟩) (fun _ hc => hc) rfl
      fun _ he => he) rfl

/-! ## Every run -/

theorem soundRow_run (ledger : HostLedger) (turns : List (CutoverTurn δ)) :
    SoundRow H (run (cutoverStep H) (.empty ledger) turns) := by
  apply run_invariant (C := fun _ _ => True) (fun s turn hs _ => soundRow_step turn hs)
  · intro row hrow
    cases hrow
  · exact along_true _ _

theorem cleanCalls_run (ledger : HostLedger) {turns : List (CutoverTurn δ)}
    (hclean : Along (cutoverStep H) StartsClean (.empty ledger) turns) :
    CleanCalls (run (cutoverStep H) (.empty ledger) turns) := by
  have hstep : ∀ (s : CutoverState δ) turn, CleanCalls s → StartsClean s turn →
      CleanCalls (cutoverStep H s turn) := fun s turn hs hC => (cleanCalls_step hs hC).calls
  refine run_invariant hstep ?_ hclean
  constructor
  · intro call hcall
    cases hcall
  · intro call hcall
    cases hcall
  · intro row receipt hrow
    cases hrow
  · intro row receipt hrow
    cases hrow
  · intro call hcall
    cases hcall

/-- The cutover state machine. In every state of every run the writer and the receipt fit the phase,
every turn raises the revision by one or leaves the manifest as it is, and a call with an older
revision changes nothing. A run whose begins all start clean verifies fresh receipts only. -/
theorem cutover_machine (H : CutoverHost δ) (ledger : HostLedger) (before : List (CutoverTurn δ))
    (turn : CutoverTurn δ)
    (hclean : Along (cutoverStep H) StartsClean (.empty ledger) (before ++ [turn])) :
    (∀ row, (cutoverStep H (run (cutoverStep H) (.empty ledger) before) turn).row = some row →
        (row.manifest.writer =
          if row.manifest.phase = .active then H.candidateStoreRef else H.sourceEngineId) ∧
        (row.manifest.phase = .verified ∨ row.manifest.phase = .active →
          row.manifest.receipt.isSome)) ∧
      (∀ row, (run (cutoverStep H) (.empty ledger) before).row = some row →
        (cutoverStep H (run (cutoverStep H) (.empty ledger) before) turn).row = some row ∨
          ∃ row', (cutoverStep H (run (cutoverStep H) (.empty ledger) before) turn).row =
            some row' ∧ row'.manifest.revision = row.manifest.revision + 1) ∧
      (∀ row revision, (run (cutoverStep H) (.empty ledger) before).row = some row →
        carriedRevision (run (cutoverStep H) (.empty ledger) before) turn = some revision →
        revision < row.manifest.revision →
        (cutoverStep H (run (cutoverStep H) (.empty ledger) before) turn).row = some row ∧
          (cutoverStep H (run (cutoverStep H) (.empty ledger) before) turn).work =
            (run (cutoverStep H) (.empty ledger) before).work) ∧
      (phaseOf (run (cutoverStep H) (.empty ledger) before) ≠ some .verified →
        phaseOf (cutoverStep H (run (cutoverStep H) (.empty ledger) before) turn) =
          some .verified →
        FreshlyVerified (cutoverStep H (run (cutoverStep H) (.empty ledger) before) turn)) := by
  obtain ⟨hbefore, hturn, -⟩ := along_append.mp hclean
  have hsound := soundRow_run (H := H) ledger before
  refine ⟨?_, ?_, ?_, ?_⟩
  · intro row hrow
    have h := soundRow_step turn hsound row hrow
    exact ⟨h.writer, h.receipt⟩
  · intro row hrow
    cases cutoverStep_outcome H (run (cutoverStep H) (.empty ledger) before) turn with
    | unchanged hsame hwork => exact .inl (hsame.trans hrow)
    | created hnone =>
      rw [hrow] at hnone
      cases hnone
    | moved row' m' hrow' hcarried hmove hafter =>
      rw [hrow] at hrow'
      cases hrow'
      exact .inr ⟨_, hafter, hmove.revision⟩
  · intro row revision hrow hcarried hstale
    obtain ⟨hsame, hwork⟩ := stale_call_unchanged (H := H) hrow hcarried hstale
    exact ⟨hsame.trans hrow, hwork⟩
  · exact (cleanCalls_step (cleanCalls_run ledger hbefore) hturn).verified

section Samples

def sampleHost : CutoverHost OpenDigest where
  platform := openPlatform
  localeCompare := compare
  sourceEngineId := "source"
  candidateStoreRef := "candidate"
  distinct := by decide

def sampleSource : String := "1111111111111111111111111111111111111111111111111111111111111111"

def sampleImport : String := "2222222222222222222222222222222222222222222222222222222222222222"

def samplePorts : CutoverPorts := ⟨true, fun _ => true, fun _ => ⟨sampleSource, 0, 0⟩⟩

def samplePrepared : List (CutoverTurn OpenDigest) :=
  [.preflight samplePorts ⟨"request-1", sampleSource, sampleImport, none⟩,
    .begin samplePorts 0,
    .copyReturned samplePorts 0 (some ⟨sampleSource, sampleImport⟩),
    .importReturned samplePorts 0 (some ⟨sampleSource, sampleImport⟩)]

def sampleLedger : HostLedger := fun _ => some []

theorem cutover_machine_sample :
    phaseOf (run (cutoverStep sampleHost) (.empty sampleLedger)
        (samplePrepared ++ [.verify samplePorts 2,
          .verifierReturned samplePorts 1 (some ⟨sampleSource, sampleImport⟩)])) =
        some .verified ∧
      FreshlyVerified (cutoverStep sampleHost (run (cutoverStep sampleHost) (.empty sampleLedger)
        (samplePrepared ++ [.verify samplePorts 2]))
        (.verifierReturned samplePorts 1 (some ⟨sampleSource, sampleImport⟩))) := by
  refine ⟨by decide +kernel, ?_⟩
  have hclean : Along (cutoverStep sampleHost) StartsClean (.empty sampleLedger)
      ((samplePrepared ++ [.verify samplePorts 2]) ++
        [.verifierReturned samplePorts 1 (some ⟨sampleSource, sampleImport⟩)]) := by
    refine ⟨trivial, ⟨rfl, ?_⟩, trivial, trivial, trivial, trivial, trivial⟩
    intro row hrow
    cases hrow
    rfl
  exact (cutover_machine sampleHost sampleLedger _ _ hclean).2.2.2 (by decide +kernel)
    (by decide +kernel)

/-- A second begin keeps the receipt of the first, so a verify may finish before its copy. -/
theorem cutover_verifies_stale_receipt :
    ¬ ∀ (before : List (CutoverTurn OpenDigest)) (turn : CutoverTurn OpenDigest),
      phaseOf (run (cutoverStep sampleHost) (.empty sampleLedger) before) ≠ some .verified →
        phaseOf (cutoverStep sampleHost
          (run (cutoverStep sampleHost) (.empty sampleLedger) before) turn) = some .verified →
        FreshlyVerified (cutoverStep sampleHost
          (run (cutoverStep sampleHost) (.empty sampleLedger) before) turn) := by
  intro hall
  obtain ⟨row, receipt, number, -, -, hlatest, hreturned, -⟩ := hall
    (samplePrepared ++ [.begin samplePorts 2, .verify samplePorts 3])
    (.verifierReturned samplePorts 2 (some ⟨sampleSource, sampleImport⟩)) (by decide +kernel)
    (by decide +kernel)
  have hnumber : some 1 = some number := by
    rw [← hlatest]
    decide +kernel
  obtain rfl := Option.some.inj hnumber
  have hnone : ∀ e ∈ (cutoverStep sampleHost (run (cutoverStep sampleHost) (.empty sampleLedger)
      (samplePrepared ++ [.begin samplePorts 2, .verify samplePorts 3]))
      (.verifierReturned samplePorts 2 (some ⟨sampleSource, sampleImport⟩))).returned,
      e.1 ≠ 1 := by
    decide +kernel
  exact hnone _ hreturned rfl

end Samples

end Piclaw
