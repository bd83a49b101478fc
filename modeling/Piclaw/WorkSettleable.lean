import Piclaw.WorkCompletion

/-!
# Which operations can be settled

The work store carries a queued input to its end together with its source. An operation with such a
source stays open, and its settlement takes it for corrupt. In every run of the two stores this is
the only way, apart from the ranges of the numbers, in which an operation that is settling cannot be
completed.
-/

namespace Piclaw
open Relational
variable {δ Ω : Type} {P : Platform δ} {H : SettlementHost δ Ω}

section Filing
variable {l l' l'' : Ledger δ} {s s' : WorkTables δ} {outcome : WorkOutcome}

/-- A step closes no member that has no queued input. -/
def LeavesUnfiled (l l' : Ledger δ) : Prop :=
  ∀ r ∈ l'.operationSources.rows, l'.queuedInputs.find? (r.operationId, r.sourceSeq) = none →
    sourceClosed l' r.chatJid r.sourceSeq = some true →
      r ∈ l.operationSources.rows ∧ l.queuedInputs.find? (r.operationId, r.sourceSeq) = none ∧
        sourceClosed l r.chatJid r.sourceSeq = some true

theorem LeavesUnfiled.refl (l : Ledger δ) : LeavesUnfiled l l :=
  fun _ hr hnone hclosed => ⟨hr, hnone, hclosed⟩

theorem LeavesUnfiled.trans (h : LeavesUnfiled l l') (h' : LeavesUnfiled l' l'') :
    LeavesUnfiled l l'' := by
  intro r hr hnone hclosed
  obtain ⟨hr, hnone, hclosed⟩ := h' r hr hnone hclosed
  exact h r hr hnone hclosed

/-- A source that becomes claimed, with the members it may add. -/
theorem LeavesUnfiled.claimed {row row' : SourceRow δ}
    (hsource : l.sources.Rewrites l'.sources (row.chatJid, row.sourceSeq) row row')
    (hstate : row'.state = .claimed)
    (hnew : ∀ r ∈ l'.operationSources.rows,
      (r.chatJid = row.chatJid ∧ r.sourceSeq = row.sourceSeq) ∨ r ∈ l.operationSources.rows)
    (hqueued : ∀ k, l'.queuedInputs.find? k = none → l.queuedInputs.find? k = none) :
    LeavesUnfiled l l' := by
  intro r hr hnone hclosed
  rw [sourceClosed_eq, stateOf_rewrites hsource] at hclosed
  split_ifs at hclosed with hk
  · rw [Option.map_some, hstate] at hclosed
    cases hclosed
  · refine ⟨(hnew r hr).resolve_left hk, hqueued _ hnone, ?_⟩
    rw [sourceClosed_eq]
    exact hclosed

theorem ensureChat_leaves {chatJid : Text} (h : ensureChat s chatJid = .ok s') :
    LeavesUnfiled s.toLedger s'.toLedger := by
  unfold ensureChat at h
  split_ifs at h with hsome
  · cases h
    exact .refl _
  · obtain ⟨chats, hchats, h⟩ := require_bind_eq_ok.mp h
    cases h
    exact fun r hr hnone hclosed => ⟨hr, hnone, hclosed⟩

theorem AcceptStep.leaves {request : AcceptSourceRequest δ}
    (h : AcceptStep P request s outcome s') : LeavesUnfiled s.toLedger s'.toLedger := by
  cases h with
  | refused error => exact .refl _
  | known hrow => exact .refl _
  | allocated hbound htarget hchat hsource =>
    intro r hr hnone hclosed
    refine ⟨hr, hnone, ?_⟩
    rw [sourceClosed_eq] at hclosed ⊢
    dsimp only at hclosed
    rw [stateOf_insert? hsource] at hclosed
    split_ifs at hclosed with hk
    · cases hclosed
    · exact hclosed

theorem ClaimStep.leaves {order : Option (List Text)} {request : ClaimNextSourceRequest δ}
    (h : ClaimStep order request s outcome s') : LeavesUnfiled s.toLedger s'.toLedger := by
  cases h with
  | refused error => exact .refl _
  | nothing => exact .refl _
  | claimed hnext hsourceChat hpending hidle hchat hsource hop hmember hoperation =>
    rw [← hsourceChat] at hsource hmember
    refine .claimed hsource rfl (fun r hr => ?_) (fun k hk => hk)
    rcases (mem_of_adopted (Or.inl hmember)).mp hr with rfl | hr
    · exact .inl ⟨rfl, rfl⟩
    · exact .inr hr

theorem OperationStep.leaves (h : OperationStep s outcome s') :
    LeavesUnfiled s.toLedger s'.toLedger := by
  cases h with
  | refused error => exact .refl _
  | known duplicate hrow hopen => exact .refl _
  | moved hrewrites hopen hmove => exact fun r hr hnone hclosed => ⟨hr, hnone, hclosed⟩

theorem QueueStep.leaves {operation : OperationRow} {refusal : Option ServiceWorkError}
    (hs : s.toLedger.Sound) (hrow : s.operations.find? operation.operationId = some operation)
    (h : QueueStep operation s refusal s') : LeavesUnfiled s.toLedger s'.toLedger := by
  cases h with
  | refused error => exact .refl _
  | accepted hchat hpending hmembers hsource hqueued hq hstate =>
    refine .claimed hsource rfl (fun r hr => ?_) (fun k hk => ?_)
    · rcases (mem_of_adopted hmembers).mp hr with rfl | hr
      · exact .inl ⟨rfl, rfl⟩
      · exact .inr hr
    · dsimp only at hk
      rw [Table.find?_insert? hqueued] at hk
      split_ifs at hk with hkey
      exact hk
  | advanced next entry hchat hheld hsource hqueued =>
    rename_i source known sources queuedInputs
    intro r hr hnone hclosed
    dsimp only at hr hnone
    have hbefore : s.queuedInputs.find? (r.operationId, r.sourceSeq) = none := by
      rw [← Option.not_isSome_iff_eq_none] at hnone ⊢
      rwa [hqueued.isSome_iff] at hnone
    refine ⟨hr, hbefore, ?_⟩
    rw [sourceClosed_eq] at hclosed ⊢
    dsimp only at hclosed
    rw [stateOf_rewrites hsource] at hclosed
    split_ifs at hclosed with hk
    · -- The source belongs to the operation whose queued input is there.
      obtain ⟨hmember, -⟩ := hs.queued.1 _ _ _ hqueued.before
      have hjid : known.chatJid = source.chatJid := by
        rw [← member_chat hs.members hrow hmember, hchat]
      have hr' : (⟨source.chatJid, r.operationId, source.sourceSeq⟩ : OperationSourceRow) ∈
          s.operationSources.rows := by
        rw [← hk.1, ← hk.2]
        exact hr
      rw [member_unique hr' (hjid ▸ hmember), hk.2, hqueued.before] at hbefore
      cases hbefore
    · exact hclosed

theorem QueuedInputStep.leaves (hs : s.toLedger.Sound) (h : QueuedInputStep s outcome s') :
    LeavesUnfiled s.toLedger s'.toLedger := by
  cases h with
  | refused error => exact .refl _
  | queued hrow hopen hqueue hbump => exact (hqueue.leaves hs hrow).trans hbump.leaves

theorem applyWork_leaves [DecidableEq δ] {runtime : WorkAdapterRuntime} {m : WorkMutation δ}
    (hs : s.toLedger.Sound) (h : applyWork P runtime m s = .ok (outcome, s')) :
    LeavesUnfiled s.toLedger s'.toLedger := by
  cases m with
  | acceptSource request =>
    obtain ⟨u, hensure, hstep⟩ := applyAcceptSource_step h
    exact (ensureChat_leaves hensure).trans hstep.leaves
  | claimNext request =>
    obtain ⟨u, hensure, hstep⟩ := applyClaimNext_step h
    exact (ensureChat_leaves hensure).trans hstep.leaves
  | appendIntent request => exact (applyAppendIntent_step h).leaves
  | acceptCancellation request => exact (applyCancellation_step h).leaves
  | bindHarness request => exact (applyHarnessBinding_step h).leaves
  | finishHarness request => exact (applyHarnessFinish_step h).leaves
  | recordQueuedInput request => exact (applyQueuedInput_step h).leaves hs

theorem mutateWork_leaves [DecidableEq δ] {runtime : WorkAdapterRuntime}
    (hs : s.toLedger.Sound) (request : Option (SealedMutation P)) :
    LeavesUnfiled s.toLedger (mutateWork P runtime request s).2.toLedger := by
  rcases mutateWork_ledger request with hsame | ⟨m, answer, u, happly, hsame⟩
  · rw [hsame]
    exact .refl _
  · rw [hsame]
    exact applyWork_leaves hs happly

end Filing

section Calls
variable [DecidableEq δ] {s : SettlementState δ Ω}

/-- The calls of the two stores, without those of their host. -/
def OfStores : WorkCall P → Prop
  | .host .. => False
  | _ => True

omit [DecidableEq δ] in
theorem SettlementState.Settled.initial (host : Ω) :
    (SettlementState.initial host : SettlementState δ Ω).Settled where
  sound := Ledger.empty_sound
  filed r hr := by cases hr
  committed r hr := by cases hr

omit [DecidableEq δ] in
/-- A terminal operation stays terminal. -/
theorem terminal_kept {l l' : Ledger δ} (hs : l.Sound) (h : LedgerMoves False l l') {o : Text}
    (ho : (l.operations.find? o).any fun row => decide (row.phase = .terminal)) :
    (l'.operations.find? o).any fun row => decide (row.phase = .terminal) := by
  obtain ⟨row, hrow, hterminal⟩ := (Option.any_eq_true _ _).mp ho
  rw [(h.final hs hrow (of_decide_eq_true hterminal)).row]
  exact ho

omit [DecidableEq δ] in
theorem Ledger.Filed.leaves {l l' : Ledger δ} (hf : l.Filed) (hs : l.Sound)
    (hmoves : LedgerMoves False l l') (hleaves : LeavesUnfiled l l') : l'.Filed := by
  intro r hr hnone hopen hclosed
  obtain ⟨hmember, hnone, hclosed⟩ := hleaves r hr hnone hclosed
  refine hf r hmember hnone ?_ hclosed
  obtain ⟨row, hrow, hchat⟩ := (Option.any_eq_true _ _).mp (hs.members r hmember).1
  rw [hrow]
  simp only [targetOpen, Option.any_some, hchat, Bool.true_and, decide_eq_true_eq]
  intro hterminal
  have hsame := (hmoves.final hs hrow hterminal).row
  rw [hsame, hrow] at hopen
  simp [targetOpen, hterminal] at hopen

theorem SettlementState.Settled.mutate (hs : s.Settled) (runtime : WorkAdapterRuntime)
    (request : Option (SealedMutation P)) :
    (workStep P H s (.mutate runtime request)).Settled := by
  have hmoves : LedgerMoves False s.toLedger
      (mutateWork P runtime request s.toWorkTables).2.toLedger := mutateWork_moves request
  refine ⟨hmoves.sound hs.sound, ?_, ?_⟩
  · exact hs.filed.leaves hs.sound hmoves (mutateWork_leaves hs.sound request)
  · exact fun r hr => terminal_kept hs.sound hmoves (hs.committed r hr)

omit [DecidableEq δ] in
/-- A settlement leaves the operations of the other chats alone. -/
theorem SettlementState.Settled.applied (hs : s.Settled) {request : CommitTerminalRequest δ}
    (hclosed : ∀ d ∈ request.sourceDispositions, d.state.closed = true)
    {t : SettlementState δ Ω} {commit : TerminalCommit}
    (h : applySettlement H request s = .ok (commit, t)) : t.Settled := by
  have hmoves : LedgerMoves False s.toLedger t.toLedger := applySettlement_moves hclosed h
  have hsound := hmoves.sound hs.sound
  obtain ⟨operation, chat, settled, frontier, messageRowId, happlied⟩ := applySettlement_spec h
  have hframe := settleSources_frame happlied.settles
  have hledger := happlied.ledger
  have hdone : (t.operations.find? operation.operationId).any
      fun row => decide (row.phase = .terminal) := by
    rw [happlied.terminalised.after]
    rfl
  refine ⟨hsound, ?_, ?_⟩
  · intro r hr hnone hopen hclosed
    have hmembers : t.operationSources = s.operationSources :=
      (congrArg Ledger.operationSources hledger).trans hframe.members
    have hid : r.operationId ≠ operation.operationId := by
      intro hid
      rw [hid, happlied.terminalised.after] at hopen
      simp [targetOpen, OperationRow.terminalised] at hopen
    have hchat : r.chatJid ≠ operation.chatJid := by
      intro hchat
      have hactive := (hsound.owned r.chatJid r.operationId).mpr hopen
      rw [hchat, chatOf_of_find? happlied.released.after] at hactive
      cases hactive
    have hqueued : t.queuedInputs.find? (r.operationId, r.sourceSeq) =
        s.queuedInputs.find? (r.operationId, r.sourceSeq) := by
      rw [congrArg Ledger.queuedInputs hledger]
      exact hframe.queuedInputs _ _ hid
    have hsource : t.sources.find? (r.chatJid, r.sourceSeq) =
        s.sources.find? (r.chatJid, r.sourceSeq) := by
      rw [congrArg Ledger.sources hledger]
      exact hframe.sources _ _ hchat
    have hrow : t.operations.find? r.operationId = s.operations.find? r.operationId := by
      rw [happlied.terminalised.others _ hid, hframe.operations]
    refine hs.filed r (hmembers ▸ hr) (hqueued ▸ hnone) (hrow ▸ hopen) ?_
    unfold sourceClosed at hclosed ⊢
    rw [← hsource]
    exact hclosed
  · intro r hr
    obtain ⟨row, hinsert, hrow⟩ := happlied.commits
    rw [Table.insert?_rows hinsert, List.mem_cons] at hr
    rcases hr with rfl | hr
    · rw [hrow]
      exact hdone
    · exact terminal_kept hs.sound hmoves (hs.committed r hr)

theorem SettlementState.Settled.settle (hs : s.Settled) (runtime : SettlementRuntime)
    (request : Option (CommitTerminalRequest δ)) :
    (commitTerminal H runtime request s).2.Settled := by
  rcases commitTerminal_applies request s with hsame | ⟨_, _, t, _, hnormal, happlied, hsame⟩
  · rw [hsame]
    exact hs
  · have ht : t.Settled := hs.applied (closed_of_normalised hnormal) happlied
    rw [hsame]
    exact ⟨ht.sound, ht.filed, ht.committed⟩

theorem SettlementState.Settled.step (hs : s.Settled) {call : WorkCall P} (hcall : OfStores call) :
    (workStep P H s call).Settled := by
  cases call with
  | mutate runtime request => exact hs.mutate runtime request
  | host runtime request => exact hcall.elim
  | settle runtime request => exact hs.settle runtime request

theorem run_settled {calls : List (WorkCall P)} (hcalls : ∀ call ∈ calls, OfStores call)
    (hs : s.Settled) : (run (workStep P H) s calls).Settled := by
  induction calls generalizing s with
  | nil => exact hs
  | cons call calls ih =>
    rw [List.forall_mem_cons] at hcalls
    exact ih hcalls.2 (hs.step hcalls.1)

section Samples

def sampleSteer : Text := ⟨"steer-1", by decide⟩
def sampleQueueKey : Text := ⟨"queue-1", by decide⟩
def sampleDropKey : Text := ⟨"queue-2", by decide⟩
def sampleBindKey : Text := ⟨"bind-1", by decide⟩
def sampleFinishKey : Text := ⟨"finish-1", by decide⟩

def sampleOwned (key : Text) (requestHash : OpenDigest) : OperationEffect OpenDigest :=
  ⟨key, requestHash, sampleOwner, none, sampleProvenance, .privateClass⟩

/-- The queued input of the second source, as its version and state say. -/
def sampleQueued (key : Text) (version : PositiveInteger) (state : QueuedInputState)
    (requestHash : OpenDigest) : RecordQueuedInputRequest OpenDigest :=
  ⟨sampleOwned key requestHash, version, sampleSecond, .steer, none, state⟩

def sampleQueuedCall (key : Text) (version : PositiveInteger) (state : QueuedInputState) :
    WorkCall openPlatform :=
  .mutate .faultFree (some ⟨.recordQueuedInput (sampleQueued key version state
    (hashCanonicalRequest openPlatform (sampleQueued key version state (.text "")).json)), rfl⟩)

def sampleBinding (requestHash : OpenDigest) : BindHarnessRequest OpenDigest :=
  ⟨sampleOwned sampleBindKey requestHash, ⟨3, by decide⟩, sampleMessage, sampleMessage⟩

def sampleFinishing (requestHash : OpenDigest) : FinishHarnessRequest OpenDigest :=
  ⟨sampleOwned sampleFinishKey requestHash, ⟨4, by decide⟩, ⟨sampleMessage, sampleMessage⟩⟩

/-- A steering input is accepted for the first operation and disposed of by its harness, which then
finishes. -/
def disposedInput : List (WorkCall openPlatform) :=
  [sampleAcceptance sampleMessage .message none, sampleTaken sampleOwner zeroFrontier,
    sampleAcceptance sampleSteer .steer (some sampleOwner),
    sampleQueuedCall sampleQueueKey sampleFirstAttempt .accepted,
    sampleQueuedCall sampleDropKey sampleSecond .disposed,
    .mutate .faultFree (some ⟨.bindHarness (sampleBinding
      (hashCanonicalRequest openPlatform (sampleBinding (.text "")).json)), rfl⟩),
    .mutate .faultFree (some ⟨.finishHarness (sampleFinishing
      (hashCanonicalRequest openPlatform (sampleFinishing (.text "")).json)), rfl⟩)]

def sampleSettling : OperationRow where
  operationId := sampleOwner
  chatJid := sampleChat
  version := 5
  phase := .settling
  primarySourceSeq := 1
  cancellation := none
  harness := some ⟨sampleMessage, some sampleMessage⟩
  terminal := none

theorem disposedInput_settling :
    (run (workStep openPlatform silentHost) (SettlementState.initial ())
      disposedInput).operations.find? sampleOwner = some sampleSettling := by
  decide +kernel

theorem disposedInput_ofStores : ∀ call ∈ disposedInput, OfStores call := by
  simp [disposedInput, OfStores, sampleAcceptance, sampleTaken, sampleQueuedCall]

theorem silentHost_serves : silentHost.Serves :=
  ⟨fun _ _ => rfl, fun _ _ _ _ => rfl, fun _ _ => ⟨(), rfl⟩⟩

end Samples

end Calls

end Piclaw
