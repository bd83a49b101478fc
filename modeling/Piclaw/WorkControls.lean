import Piclaw.WorkTransitions

/-!
# Controls are claimed as work

A claim takes the earliest pending source of its chat, or a queued message before it. So it makes
an operation out of a control exactly when that earliest source is one: a cancellation, or a
source aimed at an operation that has been settled in the meantime.
-/

namespace Piclaw
open Relational
open Relational.Table (Rewrites)
variable {δ Ω : Type} {P : Platform δ} {H : SettlementHost δ Ω}
  {s s' u : WorkTables δ}

/-- A cancellation, or a source aimed at another operation than `operationId`. -/
def control (operationId : Text) (source : SourceRow δ) : Bool :=
  decide (source.kind = .cancellation) ||
    source.targetOperationId.any fun target => decide (target ≠ operationId)

section Lanes

theorem queuedSource_work {operationId : Text} {source : SourceRow δ} (h : queuedSource source = true) :
    control operationId source = false := by
  unfold queuedSource at h
  simp only [Bool.and_eq_true, decide_eq_true_eq, Option.isNone_iff_eq_none] at h
  obtain ⟨⟨hkind, htarget⟩, -⟩ := h
  unfold control
  rw [hkind, htarget]
  rfl

/-- The host's order only reorders queued messages, so the next source is a control exactly when
the earliest pending one is. -/
theorem nextPendingSource_control {order : Option (List Text)} {chatJid operationId : Text}
    {source : SourceRow δ} (h : nextPendingSource order s chatJid = some source) :
    ∃ first, (pendingSources s chatJid).head? = some first ∧
      control operationId source = control operationId first := by
  unfold nextPendingSource at h
  dsimp only at h
  cases hrows : pendingSources s chatJid with
  | nil =>
    rw [hrows] at h
    cases h
  | cons first rest =>
    rw [hrows] at h
    refine ⟨first, rfl, ?_⟩
    cases order with
    | none =>
      cases h
      rfl
    | some order =>
      simp only [List.head?_cons, Option.some.injEq] at h
      cases hfound : order.findSome? fun id =>
          ((first :: rest).takeWhile queuedSource).find? fun r => decide (r.sourceId = id) with
      | none =>
        rw [hfound] at h
        rw [← h]
        rfl
      | some found =>
        rw [hfound] at h
        change found = source at h
        subst h
        obtain ⟨id, -, hfind⟩ := List.exists_of_findSome?_eq_some hfound
        have hmem := List.mem_of_find?_eq_some hfind
        have hqueued : queuedSource found = true := List.mem_takeWhile_imp hmem
        have hfirst : queuedSource first = true := by
          cases hq : queuedSource first with
          | true => rfl
          | false =>
            rw [List.takeWhile_cons, hq] at hmem
            cases hmem
        rw [queuedSource_work hqueued, queuedSource_work hfirst]

end Lanes

section Claims

/-- What a claim does to the operations: nothing, or a new one for the next pending source. -/
inductive ClaimMakes (order : Option (List Text)) (request : ClaimNextSourceRequest δ)
    (s s' : WorkTables δ) : Prop where
  | nothing (hoperations : s'.operations = s.operations)
  | operation (source : SourceRow δ)
      (hsource : nextPendingSource order s request.chatJid = some source)
      (hoperations : ∀ o, s'.operations.find? o = if request.newOperationId = o then
        some (claimedOperation request source.sourceSeq) else s.operations.find? o)
      (hclaimed : s'.sources.find? (request.chatJid, source.sourceSeq) =
        some { source with state := .claimed })

theorem nextPendingSource_congr (h : s'.sources = s.sources) (order : Option (List Text))
    (chatJid : Text) : nextPendingSource order s' chatJid = nextPendingSource order s chatJid := by
  unfold nextPendingSource pendingSources
  rw [h]

theorem applyClaimNext_makes {runtime : WorkAdapterRuntime} {request : ClaimNextSourceRequest δ}
    {outcome : WorkOutcome} (h : applyClaimNext runtime request s = .ok (outcome, s')) :
    ClaimMakes runtime.pendingQueuedSourceOrder request s s' := by
  unfold applyClaimNext at h
  obtain ⟨u, hensure, h⟩ := bind_eq_ok.mp h
  obtain ⟨hsources, hoperations⟩ := ensureChat_eq_ok hensure
  obtain ⟨chat, -, h⟩ := bind_eq_ok.mp h
  dsimp only at h
  split_ifs at h with hfrontier
  · cases h
    exact .nothing hoperations
  split at h
  · cases h
    exact .nothing hoperations
  split at h
  · cases h
    exact .nothing hoperations
  rename_i source hsource
  split_ifs at h with howner
  · cases h
    exact .nothing hoperations
  obtain ⟨known, -, h⟩ := bind_eq_ok.mp h
  split at h
  · cases h
    exact .nothing hoperations
  obtain ⟨⟨v, claims⟩, hclaim, h⟩ := bind_eq_ok.mp h
  obtain ⟨sources, hupdate, rfl⟩ := updateSources_eq_ok hclaim
  dsimp only at h
  split_ifs at h with hclaims
  · cases h
    exact .nothing hoperations
  rw [not_not] at hclaims
  subst hclaims
  obtain ⟨w, hinsert, h⟩ := bind_eq_ok.mp h
  obtain ⟨operations, hnew, rfl⟩ := insertOperation_eq_ok hinsert
  obtain ⟨x, hmember, h⟩ := bind_eq_ok.mp h
  obtain ⟨members, -, rfl⟩ := insertOperationSource_eq_ok hmember
  obtain ⟨⟨y, owners⟩, hchats, h⟩ := bind_eq_ok.mp h
  obtain ⟨chats, -, rfl⟩ := updateChats_eq_ok hchats
  -- the operation is there from here on, whatever is answered
  have hmakes : ∀ t : WorkTables δ, t.operations = operations → t.sources = sources →
      ClaimMakes runtime.pendingQueuedSourceOrder request s t := by
    intro t hop hsrc
    rw [nextPendingSource_congr hsources] at hsource
    refine .operation source hsource ?_ ?_
    · intro o
      rw [hop, Table.find?_insert? hnew, ← hoperations]
      rfl
    · obtain ⟨hmem, hchat, -⟩ := nextPendingSource_pending hsource
      have hfind : u.sources.find? (request.chatJid, source.sourceSeq) = some source := by
        rw [hsources, ← hchat]
        exact Table.find?_of_mem hmem
      obtain ⟨r, -, hrewrites⟩ := Table.rewrites_of_update? (k := (request.chatJid, source.sourceSeq))
        (by
          intro r hr
          simp only [Bool.and_eq_true, decide_eq_true_eq] at hr
          change (r.chatJid, r.sourceSeq) = _
          rw [hr.1.1, hr.1.2])
        (by intro r _; rfl) hupdate
      have hsame := hrewrites.before
      rw [hfind] at hsame
      cases hsame
      rw [hsrc]
      exact hrewrites.after
  dsimp only at h
  split_ifs at h with howners
  · cases h
    exact hmakes _ rfl rfl
  · obtain ⟨row, -, h⟩ := bind_eq_ok.mp h
    obtain ⟨operation, -, h⟩ := bind_eq_ok.mp h
    cases h
    exact hmakes _ rfl rfl

/-- A claim makes an operation out of a control exactly when the earliest pending source of its
chat is one. -/
theorem ClaimMakes.control_iff {order : Option (List Text)} {request : ClaimNextSourceRequest δ}
    (h : ClaimMakes order request s s') {o : Text} {row : OperationRow}
    (hnew : s.operations.find? o = none) (hrow : s'.operations.find? o = some row) :
    o = request.newOperationId ∧ ∃ source first,
      s'.sources.find? (row.chatJid, row.primarySourceSeq) = some source ∧
      (pendingSources s request.chatJid).head? = some first ∧
      control o source = control o first := by
  cases h with
  | nothing hoperations =>
    rw [hoperations, hnew] at hrow
    cases hrow
  | operation source hsource hoperations hclaimed =>
    rw [hoperations] at hrow
    split_ifs at hrow with ho
    · cases hrow
      obtain ⟨first, hfirst, hcontrol⟩ :
          ∃ first, (pendingSources s request.chatJid).head? = some first ∧
            control o source = control o first := nextPendingSource_control hsource
      exact ⟨ho.symm, _, first, hclaimed, hfirst, hcontrol⟩
    · rw [hnew] at hrow
      cases hrow

theorem ClaimMakes.congr {order : Option (List Text)} {request : ClaimNextSourceRequest δ}
    (h : ClaimMakes order request s u) (hledger : s'.toLedger = u.toLedger) :
    ClaimMakes order request s s' := by
  have hoperations' : s'.operations = u.operations := congrArg Ledger.operations hledger
  have hsources : s'.sources = u.sources := congrArg Ledger.sources hledger
  cases h with
  | nothing hoperations => exact .nothing (hoperations'.trans hoperations)
  | operation source hsource hoperations hclaimed =>
    refine .operation source hsource ?_ ?_
    · rw [hoperations']
      exact hoperations
    · rw [hsources]
      exact hclaimed

theorem allocateSource_operations {request : AcceptSourceRequest δ} {outcome : WorkOutcome}
    (h : allocateSource P request s = .ok (outcome, s')) : s'.operations = s.operations := by
  unfold allocateSource at h
  obtain ⟨chat, -, h⟩ := bind_eq_ok.mp h
  obtain ⟨⟨v, allocated⟩, hchats, h⟩ := bind_eq_ok.mp h
  obtain ⟨chats, -, rfl⟩ := updateChats_eq_ok hchats
  dsimp only at h
  split_ifs at h with hallocated hwake
  · cases h
    rfl
  · obtain ⟨w, hsource, h⟩ := bind_eq_ok.mp h
    obtain ⟨sources, -, hw⟩ := require_bind_eq_ok.mp hsource
    cases hw
    obtain ⟨x, hintent, h⟩ := bind_eq_ok.mp h
    obtain ⟨intents, -, hx⟩ := require_bind_eq_ok.mp hintent
    cases hx
    obtain ⟨row, -, h⟩ := bind_eq_ok.mp h
    cases h
    rfl
  · obtain ⟨w, hsource, h⟩ := bind_eq_ok.mp h
    obtain ⟨sources, -, hw⟩ := require_bind_eq_ok.mp hsource
    cases hw
    obtain ⟨x, hx, h⟩ := bind_eq_ok.mp h
    cases hx
    obtain ⟨row, -, h⟩ := bind_eq_ok.mp h
    cases h
    rfl

/-- No source pending in the chat of the claim comes before its controls. -/
def LaneClear (request : ClaimNextSourceRequest δ) (u : WorkTables δ) : Prop :=
  ∀ first, (pendingSources u request.chatJid).head? = some first →
    control request.newOperationId first = false

theorem laneClear_iff {request : ClaimNextSourceRequest δ} : LaneClear request u ↔
    ((pendingSources u request.chatJid).head?).all
      (fun first => !control request.newOperationId first) = true := by
  unfold LaneClear
  cases (pendingSources u request.chatJid).head? <;> simp

/-- The operations that a step creates work on sources that are not controls. -/
def CreatesWork (s s' : WorkTables δ) : Prop :=
  ∀ o row, s.operations.find? o = none → s'.operations.find? o = some row →
    ∀ source, s'.sources.find? (row.chatJid, row.primarySourceSeq) = some source →
      control o source = false

end Claims

section Calls
variable [DecidableEq δ]

theorem applyMutation_makes {runtime : WorkAdapterRuntime} {request : ClaimNextSourceRequest δ}
    {outcome : WorkOutcome}
    (h : applyMutationWithinTransaction P runtime (.claimNext request) s = .ok (outcome, s')) :
    ClaimMakes runtime.pendingQueuedSourceOrder request s s' := by
  unfold applyMutationWithinTransaction at h
  split at h
  · cases h
    exact .nothing rfl
  · obtain ⟨_, -, h⟩ := bind_eq_ok.mp h
    obtain ⟨⟨answer, t⟩, happly, h⟩ := bind_eq_ok.mp h
    have hmakes := applyClaimNext_makes happly
    dsimp only at h
    split at h
    · cases h
      exact hmakes
    · split_ifs at h with hfault
      obtain ⟨v, hwrite, h⟩ := bind_eq_ok.mp h
      obtain ⟨_, -, h⟩ := bind_eq_ok.mp h
      cases h
      exact hmakes.congr (writeWorkDecision_ledger hwrite)

theorem mutateWork_makes {runtime : WorkAdapterRuntime} {request : ClaimNextSourceRequest δ}
    {hsealed : (WorkMutation.claimNext request).requestHash =
      hashCanonicalRequest P (WorkMutation.claimNext request).json} :
    ClaimMakes runtime.pendingQueuedSourceOrder request s
      (mutateWork P runtime (some ⟨.claimNext request, hsealed⟩) s).2 := by
  unfold mutateWork
  dsimp only
  by_cases hfaulted : faultedBefore runtime (WorkMutation.claimNext request).method = true
  · rw [if_pos hfaulted]
    exact .nothing rfl
  · rw [if_neg hfaulted]
    cases hmutation : applyMutationWithinTransaction P runtime (.claimNext request) s with
    | error fault => exact .nothing rfl
    | ok answered =>
      obtain ⟨outcome, t⟩ := answered
      have hmakes := applyMutation_makes hmutation
      cases outcome with
      | error error => exact hmakes
      | ok answer =>
        obtain ⟨value, duplicate⟩ := answer
        dsimp only
        by_cases hlost : runtime.lostAcknowledgement = true
        · rw [if_pos hlost]
          exact hmakes
        · rw [if_neg hlost]
          exact hmakes

/-- The claim that a call makes, and the tables that it starts from. -/
def claimOf (P : Platform δ) (s : WorkTables δ) :
    WorkCall P → Option (ClaimNextSourceRequest δ × WorkTables δ)
  | .mutate _ (some ⟨.claimNext request, _⟩) => some (request, s)
  | .host runtime (some (.acceptAndClaimSource accept claim)) =>
    match acceptSourceInTransaction P runtime accept.1 s with
    | .ok (_, u) => some (claim.1, u)
    | .error _ => none
  | _ => none

theorem applyAcceptSource_operations {runtime : WorkAdapterRuntime} {request : AcceptSourceRequest δ}
    {outcome : WorkOutcome} (h : applyAcceptSource P runtime request s = .ok (outcome, s')) :
    s'.operations = s.operations := by
  unfold applyAcceptSource at h
  split_ifs at h with hprocess
  obtain ⟨u, hensure, h⟩ := bind_eq_ok.mp h
  rw [← (ensureChat_eq_ok hensure).2]
  split at h
  · split_ifs at h
    all_goals
      cases h
      rfl
  · split_ifs at h with hparent
    · cases h
      rfl
    · split at h
      · exact allocateSource_operations h
      · obtain ⟨row, -, h⟩ := bind_eq_ok.mp h
        split_ifs at h with hopen
        · exact allocateSource_operations h
        · cases h
          rfl

theorem mutateInTransaction_eq_ok {runtime : WorkAdapterRuntime} {m : WorkMutation δ}
    {value : WorkValue} (h : mutateInTransaction P runtime m s = .ok (value, s')) :
    ∃ duplicate, applyMutationWithinTransaction P runtime m s = .ok (.ok (value, duplicate), s') := by
  unfold mutateInTransaction at h
  split_ifs at h with hfaulted
  · cases h
  · obtain ⟨⟨outcome, t⟩, happly, h⟩ := bind_eq_ok.mp h
    unfold admitted at h
    cases outcome with
    | error error => cases h
    | ok answer =>
      obtain ⟨v, duplicate⟩ := answer
      cases h
      exact ⟨duplicate, happly⟩

theorem acceptSourceInTransaction_operations {runtime : WorkAdapterRuntime}
    {request : AcceptSourceRequest δ} {value : WorkValue}
    (h : acceptSourceInTransaction P runtime request s = .ok (value, s')) :
    s'.operations = s.operations := by
  obtain ⟨duplicate, h⟩ := mutateInTransaction_eq_ok h
  unfold applyMutationWithinTransaction at h
  split at h
  · cases h
    rfl
  · obtain ⟨_, -, h⟩ := bind_eq_ok.mp h
    obtain ⟨⟨answer, t⟩, happly, h⟩ := bind_eq_ok.mp h
    have hoperations := applyAcceptSource_operations happly
    dsimp only at h
    split at h
    · cases h
    · split_ifs at h with hfault
      obtain ⟨v, hwrite, h⟩ := bind_eq_ok.mp h
      obtain ⟨_, -, h⟩ := bind_eq_ok.mp h
      cases h
      rw [← hoperations]
      exact congrArg Ledger.operations (writeWorkDecision_ledger hwrite)

/-- A call with a claim either leaves the operations alone or makes what its claim makes. -/
theorem claimOf_makes {s : SettlementState δ Ω} {call : WorkCall P}
    {request : ClaimNextSourceRequest δ} (h : claimOf P s.toWorkTables call = some (request, u)) :
    u.operations = s.operations ∧ ((workStep P H s call).operations = s.operations ∨
      ∃ order, ClaimMakes order request u (workStep P H s call).toWorkTables) := by
  cases call with
  | mutate runtime sealed =>
    rcases sealed with _ | ⟨m, hsealed⟩
    · cases h
    · cases m with
      | claimNext claim =>
        cases h
        exact ⟨rfl, .inr ⟨_, mutateWork_makes⟩⟩
      | _ => cases h
  | settle runtime commit => cases h
  | host runtime hostCall =>
    rcases hostCall with _ | hostCall
    · cases h
    · cases hostCall with
      | acceptAndClaimSource accept claim =>
        unfold claimOf at h
        dsimp only at h
        cases haccept : acceptSourceInTransaction P runtime accept.1 s.toWorkTables with
        | error fault =>
          rw [haccept] at h
          cases h
        | ok accepted =>
          rw [haccept] at h
          obtain ⟨value, v⟩ := accepted
          cases h
          have hoperations := acceptSourceInTransaction_operations haccept
          refine ⟨hoperations, ?_⟩
          unfold workStep hostTransaction applyHost
          dsimp only
          cases hhost : acceptAndClaimSourceInTransaction P runtime accept.1 claim.1
              s.toWorkTables with
          | error fault => exact .inl rfl
          | ok receipt =>
            obtain ⟨answer, t⟩ := receipt
            refine .inr ⟨runtime.pendingQueuedSourceOrder, ?_⟩
            change ClaimMakes _ claim.1 u t
            unfold acceptAndClaimSourceInTransaction at hhost
            split_ifs at hhost with hshape
            · cases hhost
            · rw [haccept, ok_bind] at hhost
              cases value with
              | source source =>
                obtain ⟨⟨claimed, w⟩, hclaim, hhost⟩ := bind_eq_ok.mp hhost
                dsimp only at hhost
                split_ifs at hhost with hexact
                · cases hhost
                  obtain ⟨duplicate, hmutation⟩ := mutateInTransaction_eq_ok hclaim
                  exact applyMutation_makes hmutation
                · cases hhost
              | _ => cases hhost
      | _ => cases h

theorem claimOf_work {s : SettlementState δ Ω} {call : WorkCall P}
    {request : ClaimNextSourceRequest δ} (h : claimOf P s.toWorkTables call = some (request, u))
    {o : Text} {row : OperationRow} (hnew : s.operations.find? o = none)
    (hrow : (workStep P H s call).operations.find? o = some row) :
    CreatesWork s.toWorkTables (workStep P H s call).toWorkTables ↔ LaneClear request u := by
  obtain ⟨hoperations, hmakes⟩ := claimOf_makes (H := H) h
  rcases hmakes with hsame | ⟨order, hmakes⟩
  · rw [hsame, hnew] at hrow
    cases hrow
  · have hmade : ∀ {o' : Text} {row' : OperationRow}, s.operations.find? o' = none →
        (workStep P H s call).operations.find? o' = some row' →
        o' = request.newOperationId ∧ ∃ source first,
          (workStep P H s call).sources.find? (row'.chatJid, row'.primarySourceSeq) = some source ∧
          (pendingSources u request.chatJid).head? = some first ∧
          control o' source = control o' first := by
      intro o' row' hnew' hrow'
      refine hmakes.control_iff ?_ hrow'
      rw [hoperations]
      exact hnew'
    constructor
    · intro hwork first hfirst
      obtain ⟨rfl, source, first', hsource, hfirst', hcontrol⟩ := hmade hnew hrow
      rw [hfirst] at hfirst'
      cases hfirst'
      rw [← hcontrol]
      exact hwork _ row hnew hrow source hsource
    · intro hclear o' row' hnew' hrow' source hsource
      obtain ⟨rfl, source', first, hsource', hfirst, hcontrol⟩ := hmade hnew' hrow'
      rw [hsource] at hsource'
      cases hsource'
      rw [hcontrol]
      exact hclear first hfirst

theorem claimOf_clear {s : SettlementState δ Ω} {call : WorkCall P}
    {request : ClaimNextSourceRequest δ} (h : claimOf P s.toWorkTables call = some (request, u))
    (hclear : LaneClear request u) :
    CreatesWork s.toWorkTables (workStep P H s call).toWorkTables := by
  intro o row hnew hrow
  exact (claimOf_work h hnew hrow).mpr hclear o row hnew hrow

/-- Each claim of the call starts where its lane is clear. -/
def ClearWhenClaiming (s : SettlementState δ Ω) (call : WorkCall P) : Prop :=
  ∀ request u, claimOf P s.toWorkTables call = some (request, u) → LaneClear request u

/-- Each claim of the call creates operations only for work. -/
def ClaimsWork (H : SettlementHost δ Ω) (s : SettlementState δ Ω) (call : WorkCall P) : Prop :=
  ∀ request u, claimOf P s.toWorkTables call = some (request, u) →
    CreatesWork s.toWorkTables (workStep P H s call).toWorkTables

/-- A claim that creates an operation makes it of work exactly when no control is the earliest
pending source of its chat; along every run whose claims start so, no claim takes a control. -/
theorem claims_take_work :
    (∀ (s : SettlementState δ Ω) (call : WorkCall P) request u,
      claimOf P s.toWorkTables call = some (request, u) →
      ∀ o row, s.operations.find? o = none → (workStep P H s call).operations.find? o = some row →
        (CreatesWork s.toWorkTables (workStep P H s call).toWorkTables ↔ LaneClear request u)) ∧
    ∀ (host : Ω) (calls : List (WorkCall P)),
      Along (workStep P H) ClearWhenClaiming (SettlementState.initial host) calls →
      Along (workStep P H) (ClaimsWork H) (SettlementState.initial host) calls := by
  refine ⟨?_, ?_⟩
  · intro s call request u h o row hnew hrow
    exact claimOf_work h hnew hrow
  · intro host calls
    generalize (SettlementState.initial host : SettlementState δ Ω) = s
    induction calls generalizing s with
    | nil => exact fun _ => trivial
    | cons call calls ih =>
      rintro ⟨hclear, hrest⟩
      exact ⟨fun request u h => claimOf_clear h (hclear request u h), ih _ hrest⟩

theorem claims_take_work_sample :
    Along (workStep openPlatform silentHost) (ClaimsWork silentHost) (SettlementState.initial ())
      settledBeforeCancelled := by
  refine claims_take_work.2 () settledBeforeCancelled ⟨?_, ?_, ?_, ?_, trivial⟩
  · intro request u h
    cases h
  · intro request u h
    cases h
    exact laneClear_iff.mpr (by decide +kernel)
  · intro request u h
    cases h
  · intro request u h
    cases h

theorem settled_cancellation_claimed :
    let s := run (workStep openPlatform silentHost) (SettlementState.initial ())
      settledBeforeCancelled
    let t := workStep openPlatform silentHost s (sampleTaken sampleNextOwner firstFrontier)
    s.operations.find? sampleNextOwner = none ∧
      ∃ row source, t.operations.find? sampleNextOwner = some row ∧
        t.sources.find? (row.chatJid, row.primarySourceSeq) = some source ∧
        source.kind = .cancellation ∧ source.targetOperationId = some sampleOwner := by
  intro s t
  have hnew : s.operations.find? sampleNextOwner = none := by decide +kernel
  have hclaimed : (t.operations.find? sampleNextOwner).any (fun row =>
      (t.sources.find? (row.chatJid, row.primarySourceSeq)).any fun source =>
        decide (source.kind = .cancellation) &&
          decide (source.targetOperationId = some sampleOwner)) = true := by decide +kernel
  obtain ⟨row, hrow, hclaimed⟩ := (Option.any_eq_true _ _).mp hclaimed
  obtain ⟨source, hsource, hcontrol⟩ := (Option.any_eq_true _ _).mp hclaimed
  simp only [Bool.and_eq_true, decide_eq_true_eq] at hcontrol
  exact ⟨hnew, row, source, hrow, hsource, hcontrol.1, hcontrol.2⟩

end Calls

end Piclaw
