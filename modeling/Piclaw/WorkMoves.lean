import Piclaw.WorkControls
import Piclaw.WorkRefusals

/-!
# Every transaction moves the ledger

A transaction of the work store, of its host or of the settlement that commits has made a sequence
of ledger moves. The operations of the store are read with the source that they change; a settlement
closes the members of its operation one after another and then releases the operation.
-/

namespace Piclaw
open Relational
open Relational.Table (Rewrites)
variable {δ Ω : Type} {P : Platform δ} {H : SettlementHost δ Ω} {s s' u : WorkTables δ}
  {late : Prop} {outcome : WorkOutcome}

section Steps

theorem AcceptStep.moves {request : AcceptSourceRequest δ}
    (h : AcceptStep P request s outcome s') : LedgerMoves late s.toLedger s'.toLedger := by
  cases h with
  | refused error => exact .refl
  | known hrow => exact .refl
  | allocated hbound htarget hchat hsource =>
    exact .single (.accept hbound hchat hsource rfl rfl)

theorem ClaimStep.moves {order : Option (List Text)} {request : ClaimNextSourceRequest δ}
    (h : ClaimStep order request s outcome s') : LedgerMoves late s.toLedger s'.toLedger := by
  cases h with
  | refused error => exact .refl
  | nothing => exact .refl
  | claimed hnext hsourceChat hpending hidle hchat hsource hop hmember hoperation =>
    rename_i chat source chats sources operations members operation
    have hcreated : s.operations.insert? ⟨request.newOperationId, source.chatJid, 1, .claimed,
        source.sourceSeq, none, none, none⟩ = some operations := by
      rw [hsourceChat]
      exact hop
    rw [← hsourceChat] at hchat hsource hmember
    exact .single (.claim hidle hchat hsource hpending hcreated hmember)

theorem OperationStep.moves (h : OperationStep s outcome s') :
    LedgerMoves late s.toLedger s'.toLedger := by
  cases h with
  | refused error => exact .refl
  | known duplicate hrow hopen => exact .refl
  | moved hrewrites hopen hmove => exact .single (.operate hrewrites hopen hmove)

theorem sourceStateForQueue_ne_pending (state : QueuedInputState) :
    sourceStateForQueue state ≠ .pending := by
  cases state <;> simp [sourceStateForQueue]

/-- The source is adopted and its queued input filed, or both are carried forward. -/
theorem QueueStep.moves {operation : OperationRow} {refusal : Option ServiceWorkError}
    (hrow : s.operations.find? operation.operationId = some operation)
    (hopen : operation.phase ≠ .terminal) (h : QueueStep operation s refusal s') :
    LedgerMoves late s.toLedger s'.toLedger := by
  cases h with
  | refused error => exact .refl
  | accepted hchat hpending hmembers hsource hqueued hq hstate =>
    rename_i source members sources queuedInputs q
    simp only [Prod.mk.injEq] at hq
    obtain ⟨hqchat, hqid, hqseq⟩ := hq
    have hadopt : LedgerMoves late s.toLedger
        { s.toLedger with sources := sources, operationSources := members } :=
      .single (.adopt hsource hpending hrow hchat.symm (.inl hopen) hmembers)
    have hmembership : ⟨q.chatJid, q.operationId, q.sourceSeq⟩ ∈ members.rows := by
      rw [hqchat, hqid, hqseq]
      exact (mem_of_adopted hmembers).mpr (.inl rfl)
    have hclaimed := hsource.after
    rw [← hqchat, ← hqseq] at hclaimed
    exact hadopt.tail (.enqueue hqueued hmembership hclaimed rfl hstate)
  | advanced next entry hchat hheld hsource hqueued =>
    exact .single (.progress hsource hheld hrow hchat.symm (sourceStateForQueue_ne_pending next)
      (.queued next entry rfl hqueued))

theorem QueuedInputStep.moves (h : QueuedInputStep s outcome s') :
    LedgerMoves late s.toLedger s'.toLedger := by
  cases h with
  | refused error => exact .refl
  | queued hrow hopen hqueue hbump => exact (hqueue.moves hrow hopen).trans hbump.moves

end Steps

section Mutations
variable [DecidableEq δ] {runtime : WorkAdapterRuntime}

theorem applyWork_moves {m : WorkMutation δ} (h : applyWork P runtime m s = .ok (outcome, s')) :
    LedgerMoves late s.toLedger s'.toLedger := by
  cases m with
  | acceptSource request =>
    obtain ⟨u, hensure, hstep⟩ := applyAcceptSource_step h
    exact (ensureChat_moves hensure).trans hstep.moves
  | claimNext request =>
    obtain ⟨u, hensure, hstep⟩ := applyClaimNext_step h
    exact (ensureChat_moves hensure).trans hstep.moves
  | appendIntent request => exact (applyAppendIntent_step h).moves
  | acceptCancellation request => exact (applyCancellation_step h).moves
  | bindHarness request => exact (applyHarnessBinding_step h).moves
  | finishHarness request => exact (applyHarnessFinish_step h).moves
  | recordQueuedInput request => exact (applyQueuedInput_step h).moves

/-- A mutation leaves the ledger as it is or as its statements have made it. -/
theorem applyMutation_ledger {m : WorkMutation δ}
    (h : applyMutationWithinTransaction P runtime m s = .ok (outcome, s')) :
    s'.toLedger = s.toLedger ∨
      ∃ answer u, applyWork P runtime m s = .ok (answer, u) ∧ s'.toLedger = u.toLedger := by
  unfold applyMutationWithinTransaction at h
  split at h
  · cases h
    exact .inl rfl
  · obtain ⟨_, -, h⟩ := bind_eq_ok.mp h
    obtain ⟨⟨answer, u⟩, happly, h⟩ := bind_eq_ok.mp h
    cases answer with
    | error refusal =>
      cases h
      exact .inr ⟨_, _, happly, rfl⟩
    | ok answer =>
      obtain ⟨value, duplicate⟩ := answer
      dsimp only at h
      split_ifs at h with hfault
      obtain ⟨v, hdecision, h⟩ := bind_eq_ok.mp h
      obtain ⟨_, -, h⟩ := bind_eq_ok.mp h
      cases h
      exact .inr ⟨_, _, happly, writeWorkDecision_ledger hdecision⟩

theorem applyMutation_moves {m : WorkMutation δ}
    (h : applyMutationWithinTransaction P runtime m s = .ok (outcome, s')) :
    LedgerMoves late s.toLedger s'.toLedger := by
  rcases applyMutation_ledger h with hsame | ⟨answer, u, happly, hsame⟩
  · rw [hsame]
  · rw [hsame]
    exact applyWork_moves happly

theorem mutateWork_ledger (request : Option (SealedMutation P)) :
    (mutateWork P runtime request s).2.toLedger = s.toLedger ∨
      ∃ m answer u, applyWork P runtime m s = .ok (answer, u) ∧
        (mutateWork P runtime request s).2.toLedger = u.toLedger := by
  unfold mutateWork
  cases request with
  | none => exact .inl rfl
  | some m =>
    dsimp only
    by_cases hfaulted : faultedBefore runtime m.1.method
    · rw [if_pos hfaulted]
      exact .inl rfl
    · rw [if_neg hfaulted]
      cases happly : applyMutationWithinTransaction P runtime m.1 s with
      | error fault => exact .inl rfl
      | ok answered =>
        obtain ⟨answer, t⟩ := answered
        have hledger : t.toLedger = s.toLedger ∨
            ∃ m answer u, applyWork P runtime m s = .ok (answer, u) ∧ t.toLedger = u.toLedger :=
          (applyMutation_ledger happly).imp_right fun h => ⟨m.1, h⟩
        cases answer with
        | error error => exact hledger
        | ok answer =>
          dsimp only
          split_ifs with hlost
          · exact hledger
          · exact hledger

theorem mutateWork_moves (request : Option (SealedMutation P)) :
    LedgerMoves late s.toLedger (mutateWork P runtime request s).2.toLedger := by
  rcases mutateWork_ledger request with hsame | ⟨m, answer, u, happly, hsame⟩
  · rw [hsame]
  · rw [hsame]
    exact applyWork_moves happly

theorem mutateInTransaction_moves {m : WorkMutation δ} {value : WorkValue}
    (h : mutateInTransaction P runtime m s = .ok (value, s')) :
    LedgerMoves late s.toLedger s'.toLedger := by
  unfold mutateInTransaction at h
  split_ifs at h with hfaulted
  · cases h
  · obtain ⟨⟨answer, t⟩, happly, h⟩ := bind_eq_ok.mp h
    have hmoves : LedgerMoves late s.toLedger t.toLedger := applyMutation_moves happly
    cases answer with
    | error error => cases h
    | ok answer =>
      cases h
      exact hmoves

end Mutations

section Host
variable [DecidableEq δ] {runtime : WorkAdapterRuntime} {value : WorkValue}

theorem acceptAndClaim_moves {accept : AcceptSourceRequest δ} {claim : ClaimNextSourceRequest δ}
    (h : acceptAndClaimSourceInTransaction P runtime accept claim s = .ok (value, s')) :
    LedgerMoves late s.toLedger s'.toLedger := by
  unfold acceptAndClaimSourceInTransaction at h
  split_ifs at h with hshape
  · cases h
  · obtain ⟨⟨accepted, u⟩, haccept, h⟩ := bind_eq_ok.mp h
    have haccepted : LedgerMoves late s.toLedger u.toLedger := mutateInTransaction_moves haccept
    cases accepted with
    | source source =>
      obtain ⟨⟨claimed, w⟩, hclaim, h⟩ := bind_eq_ok.mp h
      have hclaimed : LedgerMoves late u.toLedger w.toLedger := mutateInTransaction_moves hclaim
      dsimp only at h
      split_ifs at h with hexact
      · cases h
        exact haccepted.trans hclaimed
      · cases h
    | _ => cases h

/-- The withdrawn source is disposed, and the frontier of an idle chat follows. -/
theorem withdrawUnclaimed_moves {request : WithdrawFields δ}
    (h : withdrawUnclaimedSource runtime request s = .ok (value, s')) :
    LedgerMoves late s.toLedger s'.toLedger := by
  unfold withdrawUnclaimedSource at h
  split at h
  · cases h
  rename_i source hsource
  split_ifs at h with hfree howned
  · cases h
  · cases h
  have hmem := List.mem_of_find?_eq_some hsource
  have hid := List.find?_some hsource
  simp only [Bool.and_eq_true, decide_eq_true_eq] at hid
  have hfound : s.sources.find? (request.chatJid, source.sourceSeq) = some source := by
    rw [← hid.1]
    exact Table.find?_of_mem hmem
  have hpending : source.state = .pending := by
    unfold freeQueuedSource at hfree
    simp only [Bool.not_eq_false, Bool.and_eq_true, decide_eq_true_eq] at hfree
    exact hfree.1.1.2
  obtain ⟨⟨v, changed⟩, hupdate, h⟩ := bind_eq_ok.mp h
  obtain ⟨-, sources, rfl, hrewrites⟩ := updateSources_rewrites hupdate hfound (by
    intro r hr
    simp only [Bool.and_eq_true, decide_eq_true_eq] at hr
    exact hr.1) (fun _ => ⟨rfl, rfl⟩) (by simp [hid.1, hpending])
  dsimp only at h
  split_ifs at h with hchanged
  · cases h
  obtain ⟨w, hfrontier, h⟩ := bind_eq_ok.mp h
  obtain ⟨row, -, h⟩ := bind_eq_ok.mp h
  obtain ⟨x, hdecision, h⟩ := bind_eq_ok.mp h
  obtain ⟨_, -, h⟩ := bind_eq_ok.mp h
  cases h
  rw [writeWorkDecision_ledger hdecision]
  unfold advanceFrontier at hfrontier
  obtain ⟨chat, hchat, hfrontier⟩ := bind_eq_ok.mp hfrontier
  obtain ⟨hchatFound, -⟩ := chatRow_eq_ok hchat
  have hchatFound : s.chats.find? source.chatJid = some chat := by
    rw [hid.1]
    exact hchatFound
  cases hactive : chat.activeOperationId with
  | some active =>
    rw [hactive] at hfrontier
    cases hfrontier
    exact .single (.withdraw hrewrites hpending hchatFound (by rw [hactive]; rfl))
  | none =>
    rw [hactive] at hfrontier
    obtain ⟨frontier, hcompute, hfrontier⟩ := bind_eq_ok.mp hfrontier
    obtain ⟨⟨y, advanced⟩, hchats, hfrontier⟩ := bind_eq_ok.mp hfrontier
    cases hfrontier
    obtain ⟨chats, hchatUpdate, rfl⟩ := updateChats_eq_ok hchats
    have hchatJid : chat.chatJid = request.chatJid := by
      rw [← hid.1]
      exact Table.key_of_find? hchatFound
    have hadvanced : s.chats.Rewrites chats source.chatJid chat
        { chat with consumedThroughSourceSeq := frontier } := by
      refine (Table.rewrites_of_guarded ?_ ?_ hchatFound ?_ hchatUpdate).2
      · intro r hr
        rw [hid.1]
        exact of_decide_eq_true hr
      · intro r _
        rfl
      · simp [hchatJid]
    rw [← hid.1] at hcompute
    exact .single (.withdrawIdle hrewrites hpending hactive hcompute hadvanced)

theorem attachable_spec {request : AttachFields δ} {operation : OperationRow}
    {source : SourceRow δ} (h : attachable request s = .ok (operation, source)) :
    s.operations.find? operation.operationId = some operation ∧
      operation.chatJid = request.chatJid ∧ operation.phase ≠ .terminal ∧
      s.sources.find? (request.chatJid, source.sourceSeq) = some source ∧
      source.state = .pending := by
  unfold attachable at h
  obtain ⟨found, hfound, h⟩ := bind_eq_ok.mp h
  have hrow := operationRow_eq_ok hfound
  cases found with
  | none => cases h
  | some op =>
    dsimp only at h
    by_cases hchat : op.chatJid ≠ request.chatJid
    · rw [if_pos hchat] at h
      cases h
    rw [if_neg hchat] at h
    obtain ⟨chat, -, h⟩ := bind_eq_ok.mp h
    split_ifs at h with howner hversion hharness
    · cases h
    · cases h
    · cases h
    split at h
    · cases h
    rename_i src hsrc
    split_ifs at h with hfree howned
    · cases h
    · cases h
    cases h
    push Not at howner hfree
    have hkey : operation.operationId = request.effect.operationId := Table.key_of_find? hrow
    have hseq := (source_of_find? hsrc).2
    refine ⟨hkey ▸ hrow, not_not.mp hchat, ?_, ?_, ?_⟩
    · rw [howner.2.1]
      decide
    · rw [hseq]
      exact hsrc
    · have hfree := hfree.2
      unfold freeQueuedSource at hfree
      simp only [ne_eq, Bool.not_eq_false, Bool.and_eq_true, decide_eq_true_eq] at hfree
      exact hfree.1.1.2

theorem attachQueuedSource_moves {request : AttachFields δ} {operation : OperationRow}
    {source : SourceRow δ} (hattachable : attachable request s = .ok (operation, source))
    (h : attachQueuedSource P runtime request operation source s = .ok (value, s')) :
    LedgerMoves late s.toLedger s'.toLedger := by
  obtain ⟨hrow, hchat, hopen, hsource, hpending⟩ := attachable_spec hattachable
  have hsourceChat := (source_of_find? hsource).1
  unfold attachQueuedSource at h
  obtain ⟨⟨v, changed⟩, hupdate, h⟩ := bind_eq_ok.mp h
  obtain ⟨sources, hsources, rfl⟩ := updateSources_eq_ok hupdate
  dsimp only at h
  split_ifs at h with hchanged
  · cases h
  obtain ⟨w, hinsert, h⟩ := bind_eq_ok.mp h
  obtain ⟨members, hmembers, rfl⟩ := insertOperationSource_eq_ok hinsert
  obtain ⟨⟨answer, x⟩, hintent, h⟩ := bind_eq_ok.mp h
  obtain ⟨⟨admittedValue, y⟩, hadmitted, h⟩ := bind_eq_ok.mp h
  obtain ⟨z, hdecision, h⟩ := bind_eq_ok.mp h
  obtain ⟨_, -, h⟩ := bind_eq_ok.mp h
  cases h
  have hanswered : y = x := by
    unfold admitted at hadmitted
    cases answer with
    | error error => cases hadmitted
    | ok answer =>
      cases hadmitted
      rfl
  subst hanswered
  rw [writeWorkDecision_ledger hdecision]
  obtain ⟨r, hr, hrewrites⟩ := Table.rewrites_of_update? (k := (request.chatJid, source.sourceSeq))
    (sourceKey (by
      intro r hr
      simp only [Bool.and_eq_true, decide_eq_true_eq] at hr
      exact hr.1.1.1.1.1)) (by intro r _; rfl) (not_not.mp hchanged ▸ hsources)
  have heq := hrewrites.before
  rw [hsource] at heq
  cases heq
  rw [← hsourceChat] at hrewrites hmembers
  refine Relation.ReflTransGen.trans (.single (.adopt hrewrites hpending hrow ?_ (.inl hopen)
    (.inl hmembers))) (applyAppendIntent_step hintent).moves
  rw [hchat, hsourceChat]

end Host

section LateAdoption
variable [DecidableEq δ] {runtime : WorkAdapterRuntime} {value : WorkValue}
  {input : AcceptSourceRequest δ} {expectedVersion : Option PositiveInteger} {cause : Option Text}

/-- The source that an acceptance finds: the one that its decision names, or else the one with its
identifier. -/
def namedSource (s : WorkTables δ) (input : AcceptSourceRequest δ) : Option (SourceRow δ) :=
  match s.decisions.find? input.effect.idempotencyKey with
  | none => sourceById s input.chatJid input.sourceId
  | some decision =>
    match decision.result with
    | .source chatJid sourceSeq _ => sourceRow s chatJid sourceSeq
    | _ => none

omit [DecidableEq δ] in
theorem namedSource_found {source : SourceRow δ} (h : namedSource s input = some source) :
    s.sources.find? (source.chatJid, source.sourceSeq) = some source := by
  have hmem : source ∈ s.sources.rows := by
    unfold namedSource at h
    split at h
    · exact List.mem_of_find?_eq_some h
    · split at h
      · exact Table.mem_of_find? h
      · cases h
  exact Table.find?_of_mem hmem

/-- The cancellation is already decided and its operation has been settled, but the source that
asks for it is still pending. -/
def AdoptsLate (P : Platform δ) (input : AcceptSourceRequest δ)
    (expectedVersion : Option PositiveInteger) (cause : Option Text) (s : WorkTables δ) : Prop :=
  ∃ operation source request decision,
    input.targetOperationId = some operation.operationId ∧
    s.operations.find? operation.operationId = some operation ∧ operation.phase = .terminal ∧
    namedSource s input = some source ∧ source.state = .pending ∧
    derivedCancellation P input operation.operationId (sourceSnapshot source source.state)
      expectedVersion cause = some request ∧
    s.decisions.find? request.effect.idempotencyKey = some decision ∧
    decision.method = .acceptCancellation ∧ decision.requestHash = request.effect.requestHash

omit [DecidableEq δ] in
theorem materialise_source {method : WorkMethod} {result : StoredDecision}
    {snapshot : AcceptedSourceSnapshot}
    (h : materialiseDecision s method result = some (.source snapshot)) :
    ∃ chatJid sourceSeq state source, result = .source chatJid sourceSeq state ∧
      sourceRow s chatJid sourceSeq = some source ∧ snapshot = sourceSnapshot source state := by
  cases result with
  | source chatJid sourceSeq state =>
    obtain ⟨source, hsource, h⟩ := Option.bind_eq_some_iff.mp h
    cases h
    exact ⟨chatJid, sourceSeq, state, source, rfl, hsource, rfl⟩
  | operation operation =>
    obtain ⟨known, -, h⟩ := Option.bind_eq_some_iff.mp h
    split_ifs at h with hmethod
    · obtain ⟨row, -, h⟩ := Option.bind_eq_some_iff.mp h
      cases h
    · cases h
  | claim chatJid sourceSeq operation =>
    obtain ⟨known, -, h⟩ := Option.bind_eq_some_iff.mp h
    obtain ⟨row, -, h⟩ := Option.bind_eq_some_iff.mp h
    cases h
  | empty => cases h

/-- An acceptance for an operation that is terminal finds its source and changes no source. -/
theorem acceptSource_closed {target : Text} {row : OperationRow} {snapshot : AcceptedSourceSnapshot}
    (htarget : input.targetOperationId = some target) (hrow : s.operations.find? target = some row)
    (hterminal : row.phase = .terminal)
    (h : acceptSourceInTransaction P runtime input s = .ok (.source snapshot, u)) :
    u.sources = s.sources ∧
      (∀ k, k ≠ input.effect.idempotencyKey → u.decisions.find? k = s.decisions.find? k) ∧
      ∃ source, namedSource s input = some source ∧
        snapshot = sourceSnapshot source snapshot.state := by
  obtain ⟨duplicate, h⟩ := mutateInTransaction_eq_ok h
  unfold applyMutationWithinTransaction at h
  cases hreplay : readDecision s (WorkMutation.acceptSource input).method
      (WorkMutation.acceptSource input).idempotencyKey
      (WorkMutation.acceptSource input).requestHash with
  | some stored =>
    rw [hreplay] at h
    cases h
    refine ⟨rfl, fun _ _ => rfl, ?_⟩
    unfold readDecision at hreplay
    cases hdecision : s.decisions.find? (WorkMutation.acceptSource input).idempotencyKey with
    | none =>
      rw [hdecision] at hreplay
      cases hreplay
    | some decision =>
      rw [hdecision] at hreplay
      dsimp only at hreplay
      split_ifs at hreplay with hmismatch
      · cases hreplay
      change s.decisions.find? input.effect.idempotencyKey = some decision at hdecision
      split at hreplay
      · rename_i stored hstored
        cases hreplay
        obtain ⟨chatJid, sourceSeq, state, source, hresult, hsource, hsnapshot⟩ :=
          materialise_source hstored
        refine ⟨source, ?_, by rw [hsnapshot]; rfl⟩
        unfold namedSource
        rw [hdecision]
        dsimp only
        rw [hresult]
        exact hsource
      · cases hreplay
  | none =>
    rw [hreplay] at h
    obtain ⟨_, -, h⟩ := bind_eq_ok.mp h
    obtain ⟨⟨answer, t⟩, happly, h⟩ := bind_eq_ok.mp h
    cases answer with
    | error error => cases h
    | ok answer =>
      obtain ⟨answered, known⟩ := answer
      dsimp only at h
      split_ifs at h with hfault
      obtain ⟨v, hdecision, h⟩ := bind_eq_ok.mp h
      obtain ⟨_, -, h⟩ := bind_eq_ok.mp h
      cases h
      obtain ⟨decisions, hinsert, hdecided⟩ := require_bind_eq_ok.mp hdecision
      cases hdecided
      have hfree : s.decisions.find? input.effect.idempotencyKey = none := by
        unfold readDecision at hreplay
        cases hfound : s.decisions.find? (WorkMutation.acceptSource input).idempotencyKey with
        | none => exact hfound
        | some decision =>
          rw [hfound] at hreplay
          dsimp only at hreplay
          split_ifs at hreplay with hmismatch
          split at hreplay
          · cases hreplay
          · cases hreplay
      obtain ⟨w, hensure, hstep⟩ := applyAcceptSource_step happly
      obtain ⟨hsources, hoperations⟩ := ensureChat_eq_ok hensure
      have hdecisions : w.decisions = s.decisions := by
        cases ensureChat_keptOrOpened hensure with
        | kept => rfl
        | opened hchat hinsert => rfl
      cases hstep with
      | @known source hfound =>
        refine ⟨hsources, ?_, source, ?_, rfl⟩
        · intro k hk
          rw [Table.find?_insert? hinsert, if_neg, hdecisions]
          exact fun heq => hk heq.symm
        · unfold namedSource
          rw [hfree]
          unfold sourceById at hfound ⊢
          rw [← hsources]
          exact hfound
      | allocated hbound hopen hchat hsource =>
        have hclosed := hopen target htarget
        rw [hoperations, hrow] at hclosed
        simp [targetOpen, hterminal] at hclosed

omit [DecidableEq δ] in
theorem derivedCancellation_spec {operationId : Text} {source : AcceptedSourceSnapshot}
    {request : AcceptCancellationRequest δ}
    (h : derivedCancellation P input operationId source expectedVersion cause = some request) :
    request.effect.operationId = operationId ∧
      request.effect.idempotencyKey.1 = "cancel:" ++ input.effect.idempotencyKey.1 := by
  unfold derivedCancellation at h
  obtain ⟨sourceSeq, -, h⟩ := Option.bind_eq_some_iff.mp h
  obtain ⟨version, -, h⟩ := Option.bind_eq_some_iff.mp h
  obtain ⟨reason, -, h⟩ := Option.bind_eq_some_iff.mp h
  cases h
  exact ⟨rfl, rfl⟩

theorem cancel_key_ne (key key' : Text) (h : key'.1 = "cancel:" ++ key.1) : key' ≠ key := by
  rintro rfl
  have hlength := congrArg String.length h
  rw [String.length_append] at hlength
  change _ = 7 + _ at hlength
  omega

/-- A settled operation takes no new cancellation: one that succeeds has been decided before. -/
theorem cancellation_decided {request : AcceptCancellationRequest δ} {row : OperationRow}
    {answer : WorkValue × Bool}
    (hrow : s.operations.find? request.effect.operationId = some row)
    (hterminal : row.phase = .terminal)
    (h : applyMutationWithinTransaction P runtime (.acceptCancellation request) s =
      .ok (.ok answer, s')) :
    ∃ decision, s.decisions.find? request.effect.idempotencyKey = some decision ∧
      decision.method = .acceptCancellation ∧
      decision.requestHash = request.effect.requestHash := by
  unfold applyMutationWithinTransaction at h
  cases hreplay : readDecision s (WorkMutation.acceptCancellation request).method
      (WorkMutation.acceptCancellation request).idempotencyKey
      (WorkMutation.acceptCancellation request).requestHash with
  | some stored =>
    rw [hreplay] at h
    cases h
    unfold readDecision at hreplay
    change (match s.decisions.find? request.effect.idempotencyKey with
      | none => none
      | some decision => _) = _ at hreplay
    cases hdecision : s.decisions.find? request.effect.idempotencyKey with
    | none =>
      rw [hdecision] at hreplay
      cases hreplay
    | some decision =>
      rw [hdecision] at hreplay
      dsimp only at hreplay
      split_ifs at hreplay with hmismatch
      · cases hreplay
      push Not at hmismatch
      exact ⟨decision, rfl, hmismatch.1, hmismatch.2⟩
  | none =>
    rw [hreplay] at h
    obtain ⟨_, -, h⟩ := bind_eq_ok.mp h
    obtain ⟨⟨outcome, t⟩, happly, h⟩ := bind_eq_ok.mp h
    change applyCancellation request s = _ at happly
    unfold applyCancellation at happly
    obtain ⟨found, hfound, happly⟩ := bind_eq_ok.mp happly
    have hrow' := operationRow_eq_ok hfound
    rw [hrow] at hrow'
    cases hrow'
    dsimp only at happly
    rw [if_pos hterminal] at happly
    cases happly
    cases h

omit [DecidableEq δ] in
/-- The cancellation's source joins its operation, or it is a member of it already. -/
theorem adoptCancellation_spec {operation : OperationRow} {source : AcceptedSourceSnapshot}
    (h : adoptCancellationSource operation source s = .ok s') :
    s'.operations = s.operations ∧ s'.decisions = s.decisions ∧
      (s' = s ∨ ∃ row sources members, sourceRow s source.chatJid source.sourceSeq = some row ∧
        row.state = .pending ∧
        s.sources.Rewrites sources (row.chatJid, row.sourceSeq) row { row with state := .claimed } ∧
        s.operationSources.insert? ⟨row.chatJid, operation.operationId, row.sourceSeq⟩ =
          some members ∧
        s' = { s with sources := sources, operationSources := members }) := by
  unfold adoptCancellationSource at h
  split_ifs at h with hpending hmember
  · obtain ⟨row, hrow, hstate⟩ := (Option.any_eq_true _ _).mp hpending
    have hstate : row.state = .pending := of_decide_eq_true hstate
    obtain ⟨hchatJid, hseq⟩ := source_of_find? hrow
    obtain ⟨⟨v, changed⟩, hupdate, h⟩ := bind_eq_ok.mp h
    obtain ⟨-, sources, rfl, hrewrites⟩ := updateSources_rewrites hupdate hrow (by
      intro r hr
      simp only [Bool.and_eq_true, decide_eq_true_eq] at hr
      exact hr.1) (fun _ => ⟨rfl, rfl⟩) (by simp [hchatJid, hseq, hstate])
    obtain ⟨members, hmembers, rfl⟩ := insertOperationSource_eq_ok h
    rw [← hchatJid, ← hseq] at hmembers
    exact ⟨rfl, rfl, .inr ⟨row, sources, members, hrow, hstate, hrewrites, hmembers, rfl⟩⟩
  · cases h
    exact ⟨rfl, rfl, .inl rfl⟩
  · cases h

omit [DecidableEq δ] in
theorem admitted_eq_ok {answered : WorkAnswered δ} (h : admitted answered = .ok (value, s')) :
    ∃ duplicate, answered = (.ok (value, duplicate), s') := by
  obtain ⟨outcome, t⟩ := answered
  unfold admitted at h
  cases outcome with
  | error error => cases h
  | ok answer =>
    cases h
    exact ⟨_, rfl⟩

/-- Only the late adoption gives a terminal operation a member. -/
theorem acceptAndCancel_moves
    (h : acceptAndCancelSourceInTransaction P runtime input expectedVersion cause s =
      .ok (value, s')) :
    LedgerMoves (AdoptsLate P input expectedVersion cause s) s.toLedger s'.toLedger := by
  unfold acceptAndCancelSourceInTransaction at h
  split at h
  swap
  · cases h
  rename_i target parent hkind htarget hparent
  obtain ⟨⟨accepted, u⟩, haccept, h⟩ := bind_eq_ok.mp h
  refine (mutateInTransaction_moves haccept).trans ?_
  have hoperations := acceptSourceInTransaction_operations haccept
  cases accepted with
  | source source =>
    dsimp only at h
    obtain ⟨found, hfound, h⟩ := bind_eq_ok.mp h
    have hrow := operationRow_eq_ok hfound
    cases found with
    | none => cases h
    | some operation =>
      have hkey : operation.operationId = target := Table.key_of_find? hrow
      dsimp only at h
      split_ifs at h with howner
      · cases h
      push Not at howner
      cases hderived : derivedCancellation P input operation.operationId source expectedVersion
          cause with
      | none =>
        rw [hderived] at h
        cases h
      | some request =>
        rw [hderived] at h
        obtain ⟨hrequest, hcancelKey⟩ := derivedCancellation_spec hderived
        unfold cancelAccepted at h
        split_ifs at h with hfaulted
        · cases h
        obtain ⟨_, -, h⟩ := bind_eq_ok.mp h
        obtain ⟨v, hadopt, h⟩ := bind_eq_ok.mp h
        obtain ⟨answered, hmutation, h⟩ := bind_eq_ok.mp h
        obtain ⟨⟨answer, w⟩, hadmitted, h⟩ := bind_eq_ok.mp h
        obtain ⟨_, -, h⟩ := bind_eq_ok.mp h
        cases h
        obtain ⟨duplicate, rfl⟩ := admitted_eq_ok hadmitted
        refine Relation.ReflTransGen.trans ?_ (applyMutation_moves hmutation)
        obtain ⟨hvoperations, hvdecisions, hadopted⟩ := adoptCancellation_spec hadopt
        rcases hadopted with rfl | ⟨row, sources, members, hsource, hpending, hrewrites, hmembers,
          rfl⟩
        · exact .refl
        have hchat : operation.chatJid = row.chatJid := by
          rw [howner.2.1, (source_of_find? hsource).1]
        refine .single (.adopt hrewrites hpending (hkey ▸ hrow) hchat ?_ (.inl hmembers))
        by_cases hterminal : operation.phase = .terminal
        · -- the operation was settled before this call, which replays its cancellation
          right
          rw [hoperations] at hrow
          obtain ⟨hsources, hdecisions, named, hnamed, hsnapshot⟩ :=
            acceptSource_closed htarget hrow hterminal haccept
          obtain ⟨decision, hdecision, hmethod, hhash⟩ := cancellation_decided
            (by rw [hrequest, hvoperations, hoperations, hkey]; exact hrow) hterminal hmutation
          have hsame : row = named := by
            have hnamedRow : s.sources.find? (source.chatJid, source.sourceSeq) = some named := by
              rw [hsnapshot]
              exact namedSource_found hnamed
            change u.sources.find? _ = _ at hsource
            rw [hsources, hnamedRow] at hsource
            cases hsource
            rfl
          subst hsame
          refine ⟨operation, row, request, decision, by rw [hkey]; exact htarget,
            hkey ▸ hrow, hterminal, hnamed, hpending, ?_, ?_, hmethod, hhash⟩
          · rw [← hderived, hsnapshot]
            rfl
          · rw [hvdecisions, hdecisions _ (cancel_key_ne _ _ hcancelKey)] at hdecision
            exact hdecision
        · exact .inl hterminal
  | _ => cases h

end LateAdoption

section Settlement
variable {operation : OperationRow} {chat : ChatRow} {d : SourceDisposition}

theorem settleConstrained_bind_eq_ok {α β : Type} {x : Option α}
    {f : α → Except SettlementFault β} {b : β} :
    (settleConstrained x >>= f) = .ok b ↔ ∃ a, x = some a ∧ f a = .ok b := by
  rw [bind_eq_ok]
  simp only [settleConstrained, require_eq_ok]

theorem demand_eq_ok {condition : Bool} {fault : SettlementFault} :
    demand condition fault = .ok () ↔ condition = true := by
  cases condition <;> simp [demand]

theorem queueStateFor_closed {state : AcceptedSourceState} (h : state.closed = true) :
    state = sourceStateForQueue (queueStateFor state) := by
  cases state <;> first | rfl | cases h

/-- Settling a source closes a member that is held. -/
theorem settleSource_spec (hrow : s.operations.find? operation.operationId = some operation)
    (hclosed : d.state.closed = true) (h : settleSource operation d s = .ok s') :
    LedgerMoves late s.toLedger s'.toLedger ∧ s'.operations = s.operations ∧
      s'.chats = s.chats ∧ s'.operationSources = s.operationSources ∧
      ⟨operation.chatJid, operation.operationId, d.sourceSeq.1⟩ ∈ s.operationSources.rows ∧
      sourceClosed s'.toLedger operation.chatJid d.sourceSeq.1 = some true := by
  unfold settleSource at h
  obtain ⟨hmember, h⟩ := demand_bind_eq_ok.mp h
  obtain ⟨⟨sources, settled⟩, hsources, h⟩ := settleConstrained_bind_eq_ok.mp h
  obtain ⟨hsettled, h⟩ := demand_bind_eq_ok.mp h
  obtain ⟨⟨queuedInputs, queued⟩, hqueued, h⟩ := settleConstrained_bind_eq_ok.mp h
  obtain ⟨hqueue, h⟩ := demand_bind_eq_ok.mp h
  cases h
  have hmembership : ⟨operation.chatJid, operation.operationId, d.sourceSeq.1⟩ ∈
      s.operationSources.rows := by
    rw [Bool.and_eq_true, List.any_eq_true] at hmember
    obtain ⟨m, hm, heq⟩ := hmember.1
    rw [← of_decide_eq_true heq]
    exact hm
  have hone : settled = 1 := of_decide_eq_true hsettled
  subst hone
  obtain ⟨row, hr, hrewrites⟩ := Table.rewrites_of_update?
    (k := (operation.chatJid, d.sourceSeq.1)) (sourceKey (by
      intro r hr
      simp only [Bool.and_eq_true, decide_eq_true_eq] at hr
      exact hr.1)) (by intro r _; rfl) hsources
  simp only [Bool.and_eq_true, Bool.or_eq_true, decide_eq_true_eq] at hr
  obtain ⟨⟨hchatJid, hseq⟩, hstate⟩ := hr
  have hheld : row.state.held = true := by
    rcases hstate with hstate | hstate
    · rw [hstate]
      rfl
    · rw [hstate]
      rfl
  have hpending : d.state ≠ .pending := by
    intro hpending
    rw [hpending] at hclosed
    cases hclosed
  have hqueueMove : QueueMove s.toLedger row.chatJid operation.operationId row.sourceSeq d.state
      queuedInputs := by
    rw [hchatJid, hseq]
    by_cases hone : queued = 1
    · subst hone
      obtain ⟨q, -, hq⟩ := Table.rewrites_of_update?
        (k := (operation.operationId, d.sourceSeq.1)) (by
          intro r hr
          simp only [Bool.and_eq_true, decide_eq_true_eq] at hr
          exact Prod.ext hr.1.1 hr.1.2) (by intro r _; rfl) hqueued
      exact .queued _ q.harnessEntryId (queueStateFor_closed hclosed) hq
    · have hsame : queuedInputs = s.queuedInputs :=
        Table.update?_unchanged (k := (operation.operationId, d.sourceSeq.1)) (by
          intro r hr
          simp only [Bool.and_eq_true, decide_eq_true_eq] at hr
          exact Prod.ext hr.1.1 hr.1.2) hqueued hone
      rw [hsame]
      refine .unqueued hmembership ?_ hclosed
      simpa [hone] using hqueue
  rw [← hchatJid, ← hseq] at hrewrites
  refine ⟨.single (.progress hrewrites hheld hrow hchatJid.symm hpending hqueueMove), rfl, rfl, rfl,
    hmembership, ?_⟩
  unfold sourceClosed
  dsimp only
  rw [← hchatJid, ← hseq, hrewrites.after]
  exact congrArg some hclosed

/-- Settling sources of an operation touches rows of its chat and its own queued inputs. -/
structure SettlesOnly (operation : OperationRow) (s s' : WorkTables δ) : Prop where
  operations : s'.operations = s.operations
  chats : s'.chats = s.chats
  members : s'.operationSources = s.operationSources
  decisions : s'.decisions = s.decisions
  sources : ∀ c n, c ≠ operation.chatJid → s'.sources.find? (c, n) = s.sources.find? (c, n)
  queuedInputs : ∀ o n, o ≠ operation.operationId →
    s'.queuedInputs.find? (o, n) = s.queuedInputs.find? (o, n)

/-- Settling a source touches its row and the row of its queued input. -/
theorem settleSource_others (h : settleSource operation d s = .ok s') :
    (s'.operations = s.operations ∧ s'.chats = s.chats ∧
      s'.operationSources = s.operationSources ∧ s'.decisions = s.decisions) ∧
      (∀ k, k ≠ (operation.chatJid, d.sourceSeq.1) →
        s'.sources.find? k = s.sources.find? k) ∧
      ∀ k, k ≠ (operation.operationId, d.sourceSeq.1) →
        s'.queuedInputs.find? k = s.queuedInputs.find? k := by
  unfold settleSource at h
  obtain ⟨-, h⟩ := demand_bind_eq_ok.mp h
  obtain ⟨⟨sources, settled⟩, hsources, h⟩ := settleConstrained_bind_eq_ok.mp h
  obtain ⟨-, h⟩ := demand_bind_eq_ok.mp h
  obtain ⟨⟨queuedInputs, queued⟩, hqueued, h⟩ := settleConstrained_bind_eq_ok.mp h
  obtain ⟨-, h⟩ := demand_bind_eq_ok.mp h
  cases h
  refine ⟨⟨rfl, rfl, rfl, rfl⟩, fun k hk => ?_, fun k hk => ?_⟩
  · change sources.find? k = _
    rw [Table.find?_update? (by intro r _; rfl) hsources]
    refine Table.changed_others (sourceKey ?_) hk
    intro r hr
    simp only [Bool.and_eq_true, decide_eq_true_eq] at hr
    exact hr.1
  · change queuedInputs.find? k = _
    rw [Table.find?_update? (by intro r _; rfl) hqueued]
    refine Table.changed_others ?_ hk
    intro r hr
    simp only [Bool.and_eq_true, decide_eq_true_eq] at hr
    exact Prod.ext hr.1.1 hr.1.2

theorem settleSources_frame {ds : List SourceDisposition}
    (h : settleSources operation ds s = .ok s') : SettlesOnly operation s s' := by
  induction ds generalizing s with
  | nil =>
    cases h
    exact ⟨rfl, rfl, rfl, rfl, fun _ _ _ => rfl, fun _ _ _ => rfl⟩
  | cons d ds ih =>
    obtain ⟨u, hsettle, h⟩ := bind_eq_ok.mp h
    obtain ⟨⟨hoperations, hchats, hmembers, hdecisions⟩, hsources, hqueued⟩ :=
      settleSource_others hsettle
    have hrest := ih h
    refine ⟨hrest.operations.trans hoperations, hrest.chats.trans hchats,
      hrest.members.trans hmembers, hrest.decisions.trans hdecisions, fun c n hc => ?_,
      fun o n ho => ?_⟩
    · rw [hrest.sources c n hc]
      exact hsources _ fun heq => hc (Prod.mk.inj heq).1
    · rw [hrest.queuedInputs o n ho]
      exact hqueued _ fun heq => ho (Prod.mk.inj heq).1

theorem LedgerMoves.closed {l l' : Ledger δ} {c : Text} {n : ℕ} (h : LedgerMoves late l l')
    (hclosed : sourceClosed l c n = some true) : sourceClosed l' c n = some true := by
  induction h with
  | refl => exact hclosed
  | tail _ hmove ih => exact hmove.closed ih

/-- Settling the sources of a list closes each of them. -/
theorem settleSources_spec {ds : List SourceDisposition}
    (hrow : s.operations.find? operation.operationId = some operation)
    (hclosed : ∀ d ∈ ds, d.state.closed = true) (h : settleSources operation ds s = .ok s') :
    LedgerMoves late s.toLedger s'.toLedger ∧ s'.operations = s.operations ∧
      s'.chats = s.chats ∧ s'.operationSources = s.operationSources ∧
      ∀ d ∈ ds, ⟨operation.chatJid, operation.operationId, d.sourceSeq.1⟩ ∈
          s.operationSources.rows ∧
        sourceClosed s'.toLedger operation.chatJid d.sourceSeq.1 = some true := by
  induction ds generalizing s with
  | nil =>
    cases h
    exact ⟨.refl, rfl, rfl, rfl, fun d hd => by cases hd⟩
  | cons d ds ih =>
    obtain ⟨u, hsettle, h⟩ := bind_eq_ok.mp h
    obtain ⟨hmoves, hoperations, hchats, hmembers, hmember, hone⟩ := @settleSource_spec δ s u late
      operation d hrow (hclosed d List.mem_cons_self) hsettle
    obtain ⟨hmoves', hoperations', hchats', hmembers', hall⟩ :=
      ih (hoperations ▸ hrow) (fun e he => hclosed e (List.mem_cons_of_mem d he)) h
    refine ⟨hmoves.trans hmoves', hoperations'.trans hoperations, hchats'.trans hchats,
      hmembers'.trans hmembers, ?_⟩
    intro e he
    rcases List.mem_cons.mp he with rfl | he
    · exact ⟨hmember, hmoves'.closed hone⟩
    · obtain ⟨hin, hclosed⟩ := hall e he
      exact ⟨hmembers ▸ hin, hclosed⟩

theorem dispositionAllowed_iff {request : CommitTerminalRequest δ}
    (h : dispositionAllowed request operation = true) :
    request.disposition = .cancelled ↔ operation.cancellation.isSome := by
  unfold dispositionAllowed at h
  cases hdisposition : request.disposition with
  | cancelled =>
    rw [hdisposition] at h
    simp only [Bool.and_eq_true] at h
    simp [h.1.1]
  | _ =>
    rw [hdisposition] at h
    simp only [Bool.and_eq_true, Option.isNone_iff_eq_none] at h
    simp [h]

theorem terminalise_spec {request : CommitTerminalRequest δ} {messageRowId : Option PositiveInteger}
    (hrow : s.operations.find? operation.operationId = some operation)
    (h : terminalise request operation messageRowId s = .ok s') :
    ∃ operations, s' = { s with operations := operations } ∧
      s.operations.Rewrites operations operation.operationId operation
        (operation.terminalised ⟨request.disposition, messageRowId, request.errorCode,
          request.committedAt⟩) := by
  unfold terminalise at h
  obtain ⟨⟨operations, terminalised⟩, hupdate, h⟩ := settleConstrained_bind_eq_ok.mp h
  obtain ⟨hone, h⟩ := demand_bind_eq_ok.mp h
  cases h
  have hone : terminalised = 1 := of_decide_eq_true hone
  subst hone
  obtain ⟨r, -, hrewrites⟩ := Table.rewrites_of_update? (k := operation.operationId) (by
    intro r hr
    simp only [Bool.and_eq_true, decide_eq_true_eq] at hr
    exact hr.1.1.1.1) (by intro r _; rfl) hupdate
  have heq := hrewrites.before
  rw [hrow] at heq
  cases heq
  exact ⟨operations, rfl, hrewrites⟩

theorem releaseOwner_spec {frontier : ℕ} (hchat : s.chats.find? operation.chatJid = some chat)
    (h : releaseOwner operation chat frontier s = .ok s') :
    ∃ chats, s' = { s with chats := chats } ∧
      s.chats.Rewrites chats operation.chatJid chat
        { chat with consumedThroughSourceSeq := frontier, activeOperationId := none } := by
  unfold releaseOwner at h
  obtain ⟨⟨chats, released⟩, hupdate, h⟩ := settleConstrained_bind_eq_ok.mp h
  obtain ⟨hone, h⟩ := demand_bind_eq_ok.mp h
  cases h
  have hone : released = 1 := of_decide_eq_true hone
  subst hone
  obtain ⟨r, -, hrewrites⟩ := Table.rewrites_of_update? (k := operation.chatJid) (by
    intro r hr
    simp only [Bool.and_eq_true, decide_eq_true_eq] at hr
    exact hr.1.1) (by intro r _; rfl) hupdate
  have heq := hrewrites.before
  rw [hchat] at heq
  cases heq
  exact ⟨chats, rfl, hrewrites⟩

theorem readOperation_spec {operationId : Text}
    (h : readOperation s operationId = .ok (operation, chat)) :
    operation.operationId = operationId ∧
      s.operations.find? operation.operationId = some operation ∧
      s.chats.find? operation.chatJid = some chat ∧ chat.nextSourceSeq ≤ maxSafeInteger := by
  unfold readOperation at h
  split at h
  · cases h
  rename_i row hrow
  split at h
  · cases h
  rename_i c hc
  split_ifs at h with hbounds
  · cases h
    have hkey : operation.operationId = operationId := Table.key_of_find? hrow
    exact ⟨hkey, hkey ▸ hrow, hc, hbounds.2.2⟩

theorem validateSources_spec {request : CommitTerminalRequest δ}
    (h : validateSources request operation s = .ok ()) {r : OperationSourceRow}
    (hr : r ∈ s.operationSources.rows) (hid : r.operationId = operation.operationId) :
    ∃ d ∈ request.sourceDispositions, d.sourceSeq.1 = r.sourceSeq := by
  unfold validateSources at h
  obtain ⟨hseqs, -⟩ := demand_bind_eq_ok.mp h
  simp only [Bool.and_eq_true, decide_eq_true_eq] at hseqs
  have hmember : r ∈ memberships s operation := by
    unfold memberships
    rw [List.mem_insertionSort, List.mem_filter]
    exact ⟨hr, by simp [hid]⟩
  have hseq : r.sourceSeq ∈ request.sourceDispositions.map fun d => d.sourceSeq.1 := by
    rw [← hseqs.2]
    exact List.mem_map.mpr ⟨r, hmember, rfl⟩
  obtain ⟨d, hd, heq⟩ := List.mem_map.mp hseq
  exact ⟨d, hd, heq⟩

/-- What an applied settlement has read, checked and written. -/
structure SettlementApplied (request : CommitTerminalRequest δ) (t t' : SettlementState δ Ω)
    (operation : OperationRow) (chat : ChatRow) (settled : WorkTables δ) (frontier : ℕ)
    (messageRowId : Option PositiveInteger) : Prop where
  id : operation.operationId = request.effect.operationId
  found : t.operations.find? operation.operationId = some operation
  chatFound : t.chats.find? operation.chatJid = some chat
  numbered : chat.nextSourceSeq ≤ maxSafeInteger
  authorised : authoriseOperation request operation chat = .ok ()
  valid : validateSources request operation t.toWorkTables = .ok ()
  settles : settleSources operation request.sourceDispositions t.toWorkTables = .ok settled
  computed : computeFrontier chat settled = .ok frontier
  terminalised : settled.operations.Rewrites t'.operations operation.operationId operation
    (operation.terminalised ⟨request.disposition, messageRowId, request.errorCode,
      request.committedAt⟩)
  released : settled.chats.Rewrites t'.chats operation.chatJid chat
    { chat with consumedThroughSourceSeq := frontier, activeOperationId := none }
  ledger : t'.toLedger =
    { settled.toLedger with operations := t'.operations, chats := t'.chats }
  decisions : t'.decisions = t.decisions
  commits : ∃ row, t.commits.insert? row = some t'.commits ∧
    row.operationId = operation.operationId

theorem applySettlement_spec {request : CommitTerminalRequest δ} {t t' : SettlementState δ Ω}
    {commit : TerminalCommit} (h : applySettlement H request t = .ok (commit, t')) :
    ∃ operation chat settled frontier messageRowId,
      SettlementApplied request t t' operation chat settled frontier messageRowId := by
  unfold applySettlement at h
  obtain ⟨⟨operation, chat⟩, hread, h⟩ := bind_eq_ok.mp h
  obtain ⟨hid, hrow, hchat, hnumbered⟩ := readOperation_spec hread
  obtain ⟨_, hauthorised, h⟩ := bind_eq_ok.mp h
  obtain ⟨_, -, h⟩ := bind_eq_ok.mp h
  obtain ⟨_, -, h⟩ := bind_eq_ok.mp h
  obtain ⟨_, hvalid, h⟩ := bind_eq_ok.mp h
  obtain ⟨_, -, h⟩ := bind_eq_ok.mp h
  obtain ⟨⟨messageRowId, host⟩, -, h⟩ := bind_eq_ok.mp h
  obtain ⟨settled, hsettled, h⟩ := bind_eq_ok.mp h
  obtain ⟨frontier, hfrontier, h⟩ := bind_eq_ok.mp h
  obtain ⟨terminalised, hterminalised, h⟩ := bind_eq_ok.mp h
  obtain ⟨released, hreleased, h⟩ := bind_eq_ok.mp h
  obtain ⟨host', -, h⟩ := bind_eq_ok.mp h
  obtain ⟨commits, hcommits, h⟩ := settleConstrained_bind_eq_ok.mp h
  obtain ⟨commitOutbox, -, h⟩ := bind_eq_ok.mp h
  cases h
  have hframe := settleSources_frame hsettled
  obtain ⟨operations, rfl, hop⟩ := terminalise_spec (hframe.operations ▸ hrow) hterminalised
  obtain ⟨chats, rfl, hrelease⟩ := releaseOwner_spec (hframe.chats ▸ hchat) hreleased
  exact ⟨operation, chat, settled, frontier, messageRowId, hid, hrow, hchat, hnumbered,
    hauthorised, hvalid, hsettled, hfrontier, hop, hrelease, rfl, hframe.decisions, _, hcommits,
    rfl⟩

/-- A settlement closes the members of its operation and releases it. -/
theorem applySettlement_moves {request : CommitTerminalRequest δ} {t t' : SettlementState δ Ω}
    {commit : TerminalCommit} (hclosed : ∀ d ∈ request.sourceDispositions, d.state.closed = true)
    (h : applySettlement H request t = .ok (commit, t')) :
    LedgerMoves late t.toLedger t'.toLedger := by
  obtain ⟨operation, chat, settled, frontier, messageRowId, happlied⟩ := applySettlement_spec h
  have hauthorised := happlied.authorised
  unfold authoriseOperation at hauthorised
  obtain ⟨-, hauthorised⟩ := demand_bind_eq_ok.mp hauthorised
  obtain ⟨-, hauthorised⟩ := demand_bind_eq_ok.mp hauthorised
  obtain ⟨hopen, hauthorised⟩ := demand_bind_eq_ok.mp hauthorised
  obtain ⟨hactive, hauthorised⟩ := demand_bind_eq_ok.mp hauthorised
  obtain ⟨-, hauthorised⟩ := demand_bind_eq_ok.mp hauthorised
  obtain ⟨-, hauthorised⟩ := demand_bind_eq_ok.mp hauthorised
  have hallowed : dispositionAllowed request operation = true := demand_eq_ok.mp hauthorised
  simp only [Bool.and_eq_true, decide_eq_true_eq] at hopen hactive
  obtain ⟨hmoves, -, -, hmembers, hsources⟩ :=
    @settleSources_spec δ t.toWorkTables settled late operation _ happlied.found hclosed
      happlied.settles
  refine hmoves.trans ?_
  have hchatJid : chat.chatJid = operation.chatJid := Table.key_of_find? happlied.chatFound
  have hcompute : computeClosedSourceFrontier settled.toLedger operation.chatJid
      chat.consumedThroughSourceSeq chat.nextSourceSeq = .ok frontier := by
    have hfrontier := happlied.computed
    unfold computeFrontier at hfrontier
    rw [hchatJid] at hfrontier
    split at hfrontier
    · rename_i computed hcomputed
      cases hfrontier
      exact hcomputed
    · cases hfrontier
  rw [happlied.ledger]
  refine .single (.release happlied.terminalised hopen.1 (dispositionAllowed_iff hallowed) ?_
    hcompute hactive happlied.released)
  intro r hr hid
  rw [hmembers] at hr
  obtain ⟨d, hd, hseq⟩ := validateSources_spec happlied.valid hr hid
  obtain ⟨hmember, hall⟩ := hsources d hd
  have heq : r = ⟨operation.chatJid, operation.operationId, d.sourceSeq.1⟩ := by
    have hfound := Table.find?_of_mem hr
    have hfound' := Table.find?_of_mem hmember
    change t.operationSources.find? (r.operationId, r.sourceSeq) = some r at hfound
    rw [hid, ← hseq] at hfound
    exact Option.some_inj.mp (hfound.symm.trans hfound')
  rw [heq]
  exact hall

theorem closed_of_normalised [DecidableEq δ] {commitHash : CommitTerminalRequest δ → δ}
    {request : CommitTerminalRequest δ} (h : normalisedCommit commitHash request = true) :
    ∀ d ∈ request.sourceDispositions, d.state.closed = true := by
  intro d hd
  unfold normalisedCommit at h
  simp only [Bool.and_eq_true, List.all_eq_true] at h
  have hstate := h.1.1.1.1.1.1.1.1.2 d hd
  simp only [Bool.or_eq_true, decide_eq_true_eq] at hstate
  rcases hstate with hstate | hstate
  · rw [hstate]
    rfl
  · rw [hstate]
    rfl

/-- A commit changes nothing or applies a settlement. -/
theorem commitTerminal_applies [DecidableEq δ] {runtime : SettlementRuntime}
    (request : Option (CommitTerminalRequest δ)) (t : SettlementState δ Ω) :
    (commitTerminal H runtime request t).2 = t ∨
      ∃ request' commit t' host, normalisedCommit H.commitHash request' = true ∧
        applySettlement H request' t = .ok (commit, t') ∧
        (commitTerminal H runtime request t).2 = { t' with host := host } := by
  unfold commitTerminal
  cases request with
  | none => exact .inl rfl
  | some request =>
    dsimp only
    by_cases hnormal : normalisedCommit H.commitHash request = true
    swap
    · rw [if_pos (by simpa using hnormal)]
      exact .inl rfl
    rw [if_neg (by simp [hnormal])]
    split
    · exact .inl rfl
    · exact .inl rfl
    by_cases hbefore : runtime.beforeEffect = true
    · rw [if_pos hbefore]
      exact .inl rfl
    rw [if_neg hbefore]
    split
    · exact .inl rfl
    cases hcommit : commitWithinTransaction H runtime request t with
    | error fault => exact .inl rfl
    | ok committed =>
      obtain ⟨commit, t'⟩ := committed
      have happlied : t' = t ∨ ∃ request' commit t'' host,
          normalisedCommit H.commitHash request' = true ∧
            applySettlement H request' t = .ok (commit, t'') ∧ t' = { t'' with host := host } := by
        unfold commitWithinTransaction at hcommit
        obtain ⟨known, -, hcommit⟩ := bind_eq_ok.mp hcommit
        cases known with
        | some known =>
          cases hcommit
          exact .inl rfl
        | none =>
          obtain ⟨-, hcommit⟩ := demand_bind_eq_ok.mp hcommit
          obtain ⟨⟨applied, w⟩, hsettlement, hcommit⟩ := bind_eq_ok.mp hcommit
          obtain ⟨host, -, hcommit⟩ := bind_eq_ok.mp hcommit
          obtain ⟨-, hcommit⟩ := demand_bind_eq_ok.mp hcommit
          cases hcommit
          exact .inr ⟨_, _, _, _, hnormal, hsettlement, rfl⟩
      dsimp only
      split_ifs with hlost
      · exact happlied
      · exact happlied

theorem commitTerminal_moves [DecidableEq δ] {runtime : SettlementRuntime}
    (request : Option (CommitTerminalRequest δ)) (t : SettlementState δ Ω) :
    LedgerMoves late t.toLedger (commitTerminal H runtime request t).2.toLedger := by
  rcases commitTerminal_applies request t with hsame | ⟨_, _, t', _, hnormal, happlied, hsame⟩
  · rw [hsame]
  · have hmoves : LedgerMoves late t.toLedger t'.toLedger :=
      applySettlement_moves (closed_of_normalised hnormal) happlied
    rw [hsame]
    exact hmoves

end Settlement

section Calls
variable [DecidableEq δ]

/-- The late adoptions among the calls. -/
def CallAdoptsLate (s : SettlementState δ Ω) : WorkCall P → Prop
  | .host _ (some (.acceptAndCancelSource input expectedVersion cause)) =>
    AdoptsLate P input.1 expectedVersion cause s.toWorkTables
  | _ => False

theorem hostTransaction_moves {runtime : WorkAdapterRuntime} (call : Option (HostCall P))
    (hlate : ∀ input expectedVersion cause,
      call = some (.acceptAndCancelSource input expectedVersion cause) →
        AdoptsLate P input.1 expectedVersion cause s → late) :
    LedgerMoves late s.toLedger (hostTransaction P runtime call s).2.toLedger := by
  unfold hostTransaction
  cases call with
  | none => exact .refl
  | some call =>
    dsimp only
    cases hhost : applyHost P runtime call s with
    | error fault => exact .refl
    | ok receipt =>
      obtain ⟨value, t⟩ := receipt
      dsimp only
      cases call with
      | acceptSource request => exact mutateInTransaction_moves hhost
      | bindHarness request => exact mutateInTransaction_moves hhost
      | acceptAndClaimSource accept claim => exact acceptAndClaim_moves hhost
      | acceptAndCancelSource input expectedVersion cause =>
        exact (acceptAndCancel_moves hhost).mono (hlate input expectedVersion cause rfl)
      | withdrawUnclaimedSource request =>
        change withdrawUnclaimedSourceInTransaction runtime request.toWithdrawFields s = _ at hhost
        unfold withdrawUnclaimedSourceInTransaction at hhost
        obtain ⟨_, -, hhost⟩ := bind_eq_ok.mp hhost
        obtain ⟨_, -, hhost⟩ := bind_eq_ok.mp hhost
        split at hhost
        · obtain ⟨answer, hanswer, hhost⟩ := bind_eq_ok.mp hhost
          obtain ⟨_, -, hhost⟩ := bind_eq_ok.mp hhost
          cases hhost
          obtain ⟨duplicate, hsame⟩ := admitted_eq_ok hanswer
          cases hsame
          exact .refl
        · exact withdrawUnclaimed_moves hhost
      | attachQueuedSource request =>
        change attachQueuedSourceInTransaction P runtime request.toAttachFields s = _ at hhost
        unfold attachQueuedSourceInTransaction at hhost
        obtain ⟨_, -, hhost⟩ := bind_eq_ok.mp hhost
        obtain ⟨_, -, hhost⟩ := bind_eq_ok.mp hhost
        split at hhost
        · obtain ⟨answer, hanswer, hhost⟩ := bind_eq_ok.mp hhost
          obtain ⟨_, -, hhost⟩ := bind_eq_ok.mp hhost
          cases hhost
          obtain ⟨duplicate, hsame⟩ := admitted_eq_ok hanswer
          cases hsame
          exact .refl
        · obtain ⟨⟨operation, source⟩, hattachable, hhost⟩ := bind_eq_ok.mp hhost
          exact attachQueuedSource_moves hattachable hhost

/-- A call without a late adoption moves the ledger without one. -/
theorem workStep_moves (s : SettlementState δ Ω) (call : WorkCall P)
    (hprompt : ¬ CallAdoptsLate s call) :
    LedgerMoves False s.toLedger (workStep P H s call).toLedger := by
  cases call with
  | mutate runtime request => exact mutateWork_moves request
  | host runtime hostCall =>
    refine hostTransaction_moves hostCall ?_
    rintro input expectedVersion cause rfl hlate
    exact hprompt hlate
  | settle runtime request => exact commitTerminal_moves request s

end Calls

end Piclaw
