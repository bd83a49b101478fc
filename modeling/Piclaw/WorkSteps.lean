import Piclaw.WorkTransitions

/-!
# What a call of the work store can do

One relation for each kind of call lists what its transaction can leave behind: a refusal that has
written nothing, an answer from what is stored, or one change with the facts that its guards
establish. Every later result about the calls is read off these relations.

An update addressed by a key changes its one row once the call has read that row, so the rejections
that follow a failed update are out of reach.
-/

namespace Piclaw
open Relational
variable {δ : Type} {P : Platform δ} {s s' : WorkTables δ} {outcome : WorkOutcome}

section Acceptance

/-- What an acceptance can do once the chat is there. -/
inductive AcceptStep (P : Platform δ) (request : AcceptSourceRequest δ) (s : WorkTables δ) :
    WorkOutcome → WorkTables δ → Prop where
  | refused (error : ServiceWorkError) : AcceptStep P request s (.error error) s
  | known {row : SourceRow δ} (hrow : sourceById s request.chatJid request.sourceId = some row) :
    AcceptStep P request s (.ok (.source (sourceSnapshot row row.state), true)) s
  | allocated {chat : ChatRow} {chats : Table chatSchema} {sources : Table (sourceSchema δ)}
      {wakeIntents : Table wakeIntentSchema} (hbound : chat.nextSourceSeq ≤ maxSafeInteger)
      (htarget : ∀ target, request.targetOperationId = some target →
        targetOpen request.chatJid (s.operations.find? target))
      (hchat : s.chats.Rewrites chats request.chatJid chat
        { chat with nextSourceSeq := chat.nextSourceSeq + 1 })
      (hsource : s.sources.insert? (acceptedRow P request chat.nextSourceSeq) = some sources) :
    AcceptStep P request s
      (.ok (.source (sourceSnapshot (acceptedRow P request chat.nextSourceSeq) .pending), false))
      { s with chats := chats, sources := sources, wakeIntents := wakeIntents }

theorem allocateSource_step {request : AcceptSourceRequest δ}
    (htarget : ∀ target, request.targetOperationId = some target →
      targetOpen request.chatJid (s.operations.find? target))
    (h : allocateSource P request s = .ok (outcome, s')) : AcceptStep P request s outcome s' := by
  unfold allocateSource at h
  obtain ⟨chat, hchat, h⟩ := bind_eq_ok.mp h
  obtain ⟨hfound, hbound⟩ := chatRow_eq_ok hchat
  have hchatJid : chat.chatJid = request.chatJid := Table.key_of_find? hfound
  obtain ⟨⟨v, allocated⟩, hchats, h⟩ := bind_eq_ok.mp h
  obtain ⟨chats, hupdate, rfl⟩ := updateChats_eq_ok hchats
  obtain ⟨hone, hrewrites⟩ := Table.rewrites_of_guarded (k := request.chatJid) (r := chat)
    (by
      intro r hr
      simp only [Bool.and_eq_true, decide_eq_true_eq] at hr
      exact hr.1)
    (by intro r _; rfl) hfound (by simp [hchatJid]) hupdate
  dsimp only at h
  rw [if_neg (not_not_intro hone)] at h
  obtain ⟨w, hsource, h⟩ := bind_eq_ok.mp h
  obtain ⟨sources, hinsert, rfl⟩ := insertSource_eq_ok hsource
  have hread : sources.find? (request.chatJid, chat.nextSourceSeq) =
      some (acceptedRow P request chat.nextSourceSeq) := Table.find?_insert?_self hinsert
  have hdone : ∀ wakeIntents : Table wakeIntentSchema,
      (do
        let row ← requireSourceRow
          { s with chats := chats, sources := sources, wakeIntents := wakeIntents } request.chatJid
          chat.nextSourceSeq
        applied (.source (sourceSnapshot row row.state)) false
          { s with chats := chats, sources := sources, wakeIntents := wakeIntents }) =
        .ok (outcome, s') → AcceptStep P request s outcome s' := by
    intro wakeIntents h
    obtain ⟨row, hrow, h⟩ := bind_eq_ok.mp h
    have hrow : sources.find? (request.chatJid, chat.nextSourceSeq) = some row :=
      require_eq_ok.mp hrow
    rw [hread] at hrow
    cases hrow
    cases h
    exact .allocated hbound htarget hrewrites hinsert
  split_ifs at h with hcreate
  · obtain ⟨x, hwake, h⟩ := bind_eq_ok.mp h
    obtain ⟨wakeIntents, -, hx⟩ := require_bind_eq_ok.mp hwake
    cases hx
    exact hdone wakeIntents h
  · obtain ⟨x, hx, h⟩ := bind_eq_ok.mp h
    cases hx
    exact hdone s.wakeIntents h

theorem applyAcceptSource_step [DecidableEq δ] {runtime : WorkAdapterRuntime}
    {request : AcceptSourceRequest δ}
    (h : applyAcceptSource P runtime request s = .ok (outcome, s')) :
    ∃ u, ensureChat s request.chatJid = .ok u ∧ AcceptStep P request u outcome s' := by
  unfold applyAcceptSource at h
  split_ifs at h with hprocess
  obtain ⟨u, hensure, h⟩ := bind_eq_ok.mp h
  refine ⟨u, hensure, ?_⟩
  split at h
  · rename_i row hrow
    split_ifs at h with hhash
    · cases h
      exact .known hrow
    · cases h
      exact .refused _
  · split_ifs at h with hparent
    · cases h
      exact .refused _
    · split at h
      · rename_i hnone
        refine allocateSource_step ?_ h
        intro target htarget
        rw [hnone] at htarget
        cases htarget
      · rename_i target htarget
        obtain ⟨row, hrow, h⟩ := bind_eq_ok.mp h
        split_ifs at h with hopen
        · refine allocateSource_step ?_ h
          intro other hother
          rw [htarget] at hother
          cases hother
          rw [operationRow_eq_ok hrow]
          exact hopen
        · cases h
          exact .refused _

end Acceptance

section Claims

/-- What a claim can do once the chat is there. -/
inductive ClaimStep (order : Option (List Text)) (request : ClaimNextSourceRequest δ)
    (s : WorkTables δ) : WorkOutcome → WorkTables δ → Prop where
  | refused (error : ServiceWorkError) : ClaimStep order request s (.error error) s
  | nothing : ClaimStep order request s (.ok (.nothing, false)) s
  | claimed {chat : ChatRow} {source : SourceRow δ} {chats : Table chatSchema}
      {sources : Table (sourceSchema δ)} {operations : Table operationSchema}
      {members : Table operationSourceSchema} {operation : OperationSnapshot}
      (hnext : nextPendingSource order s request.chatJid = some source)
      (hsourceChat : source.chatJid = request.chatJid) (hpending : source.state = .pending)
      (hidle : chat.activeOperationId = none)
      (hchat : s.chats.Rewrites chats request.chatJid chat
        { chat with activeOperationId := some request.newOperationId })
      (hsource : s.sources.Rewrites sources (request.chatJid, source.sourceSeq) source
        { source with state := .claimed })
      (hop : s.operations.insert? (claimedOperation request source.sourceSeq) = some operations)
      (hmember : s.operationSources.insert?
        ⟨request.chatJid, request.newOperationId, source.sourceSeq⟩ = some members)
      (hoperation : operation.terminal = none) :
    ClaimStep order request s
      (.ok (.claimed (sourceSnapshot { source with state := .claimed } .claimed) operation, false))
      { s with
        chats := chats, sources := sources, operations := operations
        operationSources := members }

theorem applyClaimNext_step {runtime : WorkAdapterRuntime} {request : ClaimNextSourceRequest δ}
    (h : applyClaimNext runtime request s = .ok (outcome, s')) :
    ∃ u, ensureChat s request.chatJid = .ok u ∧
      ClaimStep runtime.pendingQueuedSourceOrder request u outcome s' := by
  unfold applyClaimNext at h
  obtain ⟨u, hensure, h⟩ := bind_eq_ok.mp h
  refine ⟨u, hensure, ?_⟩
  obtain ⟨chat, hchat, h⟩ := bind_eq_ok.mp h
  obtain ⟨hfound, -⟩ := chatRow_eq_ok hchat
  have hchatJid : chat.chatJid = request.chatJid := Table.key_of_find? hfound
  dsimp only at h
  split_ifs at h with hfrontier
  · cases h
    exact .refused _
  split at h
  · cases h
    exact .refused _
  rename_i hidle
  split at h
  · cases h
    exact .nothing
  rename_i source hsource
  obtain ⟨hmem, hsourceChat, hpending⟩ := nextPendingSource_pending hsource
  split_ifs at h with howner
  · cases h
    exact .refused _
  obtain ⟨known, -, h⟩ := bind_eq_ok.mp h
  split at h
  · cases h
    exact .refused _
  have hsourceFound : u.sources.find? (request.chatJid, source.sourceSeq) = some source := by
    rw [← hsourceChat]
    exact Table.find?_of_mem hmem
  -- from here on the call has written, and nothing refuses it any more
  obtain ⟨⟨v, claims⟩, hclaim, h⟩ := bind_eq_ok.mp h
  obtain ⟨sources, hsources, rfl⟩ := updateSources_eq_ok hclaim
  obtain ⟨hclaims, hclaimed⟩ := Table.rewrites_of_guarded
    (@sourceKey _ request.chatJid source.sourceSeq _ (by
      intro r hr
      simp only [Bool.and_eq_true, decide_eq_true_eq] at hr
      exact hr.1))
    (by intro r _; rfl) hsourceFound (by simp [hsourceChat, hpending]) hsources
  dsimp only at h
  rw [if_neg (not_not_intro hclaims)] at h
  obtain ⟨w, hinsert, h⟩ := bind_eq_ok.mp h
  obtain ⟨operations, hnew, rfl⟩ := insertOperation_eq_ok hinsert
  obtain ⟨x, hmember, h⟩ := bind_eq_ok.mp h
  obtain ⟨members, hmembers, rfl⟩ := insertOperationSource_eq_ok hmember
  obtain ⟨⟨y, owners⟩, hchats, h⟩ := bind_eq_ok.mp h
  obtain ⟨chats, hupdate, rfl⟩ := updateChats_eq_ok hchats
  obtain ⟨howners, hrewrites⟩ := Table.rewrites_of_guarded (k := request.chatJid) (r := chat)
    (by
      intro r hr
      simp only [Bool.and_eq_true, decide_eq_true_eq] at hr
      exact hr.1)
    (by intro r _; rfl) hfound (by simp [hchatJid, hidle]) hupdate
  dsimp only at h
  rw [if_neg (not_not_intro howners)] at h
  obtain ⟨row, hrow, h⟩ := bind_eq_ok.mp h
  have hrow : sources.find? (request.chatJid, source.sourceSeq) = some row :=
    require_eq_ok.mp hrow
  rw [hclaimed.after] at hrow
  cases hrow
  obtain ⟨operation, hoperation, h⟩ := bind_eq_ok.mp h
  obtain ⟨created, hcreated, hoperation⟩ := bind_eq_ok.mp hoperation
  cases hoperation
  cases h
  refine .claimed hsource hsourceChat hpending hidle hrewrites hclaimed hnew hmembers ?_
  obtain ⟨found, hfoundRow, hcreated⟩ := bind_eq_ok.mp hcreated
  have hstored : operations.find? request.newOperationId = found := operationRow_eq_ok hfoundRow
  have hself : operations.find? request.newOperationId =
      some (claimedOperation request source.sourceSeq) := Table.find?_insert?_self hnew
  rw [hself] at hstored
  subst hstored
  cases hcreated
  rfl

end Claims

section Operations

/-- What a call that addresses an operation can do: refuse it, answer it from what is stored, or
move it, possibly with an intent that it appends. The answer is the operation, which is open. -/
inductive OperationStep (s : WorkTables δ) : WorkOutcome → WorkTables δ → Prop where
  | refused (error : ServiceWorkError) : OperationStep s (.error error) s
  | known {row : OperationRow} (duplicate : Bool)
      (hrow : s.operations.find? row.operationId = some row) (hopen : row.phase ≠ .terminal) :
    OperationStep s
      (.ok (.operation (snapshotOf row (memberSeqs s.toLedger row.operationId)), duplicate)) s
  | moved {row row' : OperationRow} {operations : Table operationSchema}
      {intents : Table (intentSchema δ)} {seqs : List ℕ}
      (hrewrites : s.operations.Rewrites operations row.operationId row row')
      (hopen : row.phase ≠ .terminal) (hmove : OperationMove row row') :
    OperationStep s (.ok (.operation (snapshotOf row' seqs), false))
      { s with operations := operations, intents := intents }

theorem answerOperation_answers {row : OperationRow} {operationId : Text} {duplicate : Bool}
    (hrow : s.operations.find? operationId = some row)
    (h : answerOperation operationId duplicate s = .ok (outcome, s')) :
    s' = s ∧ outcome =
      .ok (.operation (snapshotOf row (memberSeqs s.toLedger operationId)), duplicate) := by
  obtain ⟨operation, hread, h⟩ := bind_eq_ok.mp h
  obtain ⟨stored, hstored, hread⟩ := bind_eq_ok.mp hread
  obtain ⟨found, hfound, hstored⟩ := bind_eq_ok.mp hstored
  have heq := operationRow_eq_ok hfound
  rw [hrow] at heq
  subst heq
  cases hstored
  cases hread
  cases h
  exact ⟨rfl, rfl⟩

/-- A guarded update of the operation that was read moves it, so its rejection is out of reach. -/
theorem OperationStep.of_update {row : OperationRow} {p : OperationRow → Bool}
    {f : OperationRow → OperationRow} {intents : Table (intentSchema δ)} {u : WorkTables δ} {n : ℕ}
    {refusal : Except WorkFault (WorkAnswered δ)}
    (h : (if n ≠ 1 then refusal else answerOperation row.operationId false u) = .ok (outcome, s'))
    (hupdate : updateOperations { s with intents := intents } p f = .ok (u, n))
    (hrow : s.operations.find? row.operationId = some row)
    (hp : ∀ r, p r = true → r.operationId = row.operationId)
    (hf : ∀ r, (f r).operationId = r.operationId) (hpr : p row = true)
    (hopen : row.phase ≠ .terminal) (hmove : OperationMove row (f row)) :
    OperationStep s outcome s' ∧ ∃ answer, outcome = .ok answer := by
  obtain ⟨operations, hchanged, rfl⟩ := updateOperations_eq_ok hupdate
  obtain ⟨hone, hrewrites⟩ := Table.rewrites_of_guarded (k := row.operationId) hp
    (fun r _ => hf r) hrow hpr hchanged
  rw [if_neg (not_not_intro hone)] at h
  obtain ⟨rfl, rfl⟩ := answerOperation_answers hrewrites.after h
  exact ⟨.moved hrewrites hopen hmove, _, rfl⟩

theorem applyAppendIntent_step [DecidableEq δ] {request : AppendOperationIntentRequest δ}
    (h : applyAppendIntent P request s = .ok (outcome, s')) :
    OperationStep s outcome s' := by
  unfold applyAppendIntent at h
  obtain ⟨found, hfound, h⟩ := bind_eq_ok.mp h
  have hrow := operationRow_eq_ok hfound
  cases found with
  | none =>
    cases h
    exact .refused _
  | some row =>
    have hkey : row.operationId = request.effect.operationId := Table.key_of_find? hrow
    rw [← hkey] at hrow h
    dsimp only at h
    by_cases hterminal : row.phase = .terminal
    · rw [if_pos hterminal] at h
      cases h
      exact .refused _
    rw [if_neg hterminal] at h
    split at h
    · split_ifs at h with hhash
      · obtain ⟨rfl, rfl⟩ := answerOperation_answers hrow h
        exact .known _ hrow hterminal
      · cases h
        exact .refused _
    · split_ifs at h with hversion
      · cases h
        exact .refused _
      obtain ⟨u, hinsert, h⟩ := bind_eq_ok.mp h
      obtain ⟨intents, -, hinserted⟩ := require_bind_eq_ok.mp hinsert
      cases hinserted
      obtain ⟨⟨v, bumped⟩, hbump, h⟩ := bind_eq_ok.mp h
      unfold bumpVersion at hbump
      refine (OperationStep.of_update h hbump hrow ?_ ?_ ?_ hterminal .bump).1
      · intro r hr
        simp only [Bool.and_eq_true, decide_eq_true_eq] at hr
        exact hr.1.1
      · intro r
        rfl
      · simp [not_not.mp hversion, hterminal]

theorem applyCancellation_step {request : AcceptCancellationRequest δ}
    (h : applyCancellation request s = .ok (outcome, s')) : OperationStep s outcome s' := by
  unfold applyCancellation at h
  obtain ⟨found, hfound, h⟩ := bind_eq_ok.mp h
  have hrow := operationRow_eq_ok hfound
  cases found with
  | none =>
    cases h
    exact .refused _
  | some row =>
    have hkey : row.operationId = request.effect.operationId := Table.key_of_find? hrow
    rw [← hkey] at hrow
    dsimp only at h
    by_cases hterminal : row.phase = .terminal
    · rw [if_pos hterminal] at h
      cases h
      exact .refused _
    rw [if_neg hterminal] at h
    split at h
    · split_ifs at h with hknown
      · obtain ⟨rfl, rfl⟩ := answerOperation_answers hrow h
        exact .known _ hrow hterminal
      · cases h
        exact .refused _
    · rename_i hnone
      split_ifs at h with hversion hsource
      · cases h
        exact .refused _
      · cases h
        exact .refused _
      obtain ⟨⟨v, changes⟩, hupdate, h⟩ := bind_eq_ok.mp h
      refine (OperationStep.of_update h hupdate hrow ?_ ?_ ?_ hterminal (.cancel _ hnone)).1
      · intro r hr
        simp only [Bool.and_eq_true, decide_eq_true_eq] at hr
        exact hr.1.1.1
      · intro r
        rfl
      · simp [not_not.mp hversion, hterminal, hnone]

theorem applyHarnessBinding_step {request : BindHarnessRequest δ}
    (h : applyHarnessBinding request s = .ok (outcome, s')) : OperationStep s outcome s' := by
  unfold applyHarnessBinding at h
  obtain ⟨found, hfound, h⟩ := bind_eq_ok.mp h
  have hrow := operationRow_eq_ok hfound
  cases found with
  | none =>
    cases h
    exact .refused _
  | some row =>
    have hkey : row.operationId = request.effect.operationId := Table.key_of_find? hrow
    rw [← hkey] at hrow
    dsimp only at h
    by_cases hterminal : row.phase = .terminal
    · rw [if_pos hterminal] at h
      cases h
      exact .refused _
    rw [if_neg hterminal] at h
    split at h
    · split_ifs at h with hknown
      · obtain ⟨rfl, rfl⟩ := answerOperation_answers hrow h
        exact .known _ hrow hterminal
      · cases h
        exact .refused _
    · rename_i hnone
      split_ifs at h with hversion
      · cases h
        exact .refused _
      obtain ⟨⟨v, changes⟩, hupdate, h⟩ := bind_eq_ok.mp h
      refine (OperationStep.of_update h hupdate hrow ?_ ?_ ?_ hterminal (.bind _ hnone)).1
      · intro r hr
        simp only [Bool.and_eq_true, decide_eq_true_eq] at hr
        exact hr.1.1.1
      · intro r
        rfl
      · simp [not_not.mp hversion, hterminal, hnone]

theorem open_of_finishable {phase : PiclawOperationPhase} (h : finishable phase = true) :
    phase ≠ .terminal := by
  rintro rfl
  cases h

theorem applyHarnessFinish_step {request : FinishHarnessRequest δ}
    (h : applyHarnessFinish request s = .ok (outcome, s')) : OperationStep s outcome s' := by
  unfold applyHarnessFinish at h
  obtain ⟨found, hfound, h⟩ := bind_eq_ok.mp h
  have hrow := operationRow_eq_ok hfound
  cases found with
  | none =>
    cases h
    exact .refused _
  | some row =>
    have hkey : row.operationId = request.effect.operationId := Table.key_of_find? hrow
    rw [← hkey] at hrow
    dsimp only at h
    by_cases hversion : row.version ≠ request.expectedVersion.1
    · rw [if_pos hversion] at h
      cases h
      exact .refused _
    rw [if_neg hversion] at h
    obtain ⟨chat, -, h⟩ := bind_eq_ok.mp h
    split_ifs at h with howner
    · cases h
      exact .refused _
    push Not at howner
    have hfinish : finishable row.phase = true := by simpa using howner.2.1
    obtain ⟨⟨v, changes⟩, hupdate, h⟩ := bind_eq_ok.mp h
    refine (OperationStep.of_update h hupdate hrow ?_ ?_ ?_ (open_of_finishable hfinish)
      (.finish hfinish)).1
    · intro r hr
      simp only [Bool.and_eq_true, decide_eq_true_eq] at hr
      exact hr.1.1
    · intro r
      rfl
    · simp [not_not.mp hversion, hfinish]

end Operations

section Queued

/-- What the queue statements of a call can do: refuse it, adopt the source and file its queued
input, or carry a queued input forward together with its source. -/
inductive QueueStep (operation : OperationRow) (s : WorkTables δ) :
    Option ServiceWorkError → WorkTables δ → Prop where
  | refused (error : ServiceWorkError) : QueueStep operation s (some error) s
  | accepted {source : SourceRow δ} {members : Table operationSourceSchema}
      {sources : Table (sourceSchema δ)} {queuedInputs : Table queuedInputSchema}
      {q : QueuedInputRow} (hchat : source.chatJid = operation.chatJid)
      (hpending : source.state = .pending)
      (hmembers : s.operationSources.insert?
            ⟨source.chatJid, operation.operationId, source.sourceSeq⟩ = some members ∨
          ⟨source.chatJid, operation.operationId, source.sourceSeq⟩ ∈ s.operationSources.rows ∧
            members = s.operationSources)
      (hsource : s.sources.Rewrites sources (source.chatJid, source.sourceSeq) source
        { source with state := .claimed })
      (hqueued : s.queuedInputs.insert? q = some queuedInputs)
      (hq : (q.chatJid, q.operationId, q.sourceSeq) =
        (source.chatJid, operation.operationId, source.sourceSeq)) (hstate : q.state = .accepted) :
    QueueStep operation s none
      { s with operationSources := members, sources := sources, queuedInputs := queuedInputs }
  | advanced {source : SourceRow δ} {known : QueuedInputRow} {sources : Table (sourceSchema δ)}
      {queuedInputs : Table queuedInputSchema} (next : QueuedInputState) (entry : Option Text)
      (hchat : source.chatJid = operation.chatJid) (hheld : source.state.held = true)
      (hsource : s.sources.Rewrites sources (source.chatJid, source.sourceSeq) source
        { source with state := sourceStateForQueue next })
      (hqueued : s.queuedInputs.Rewrites queuedInputs (operation.operationId, source.sourceSeq)
        known { known with state := next, harnessEntryId := entry }) :
    QueueStep operation s none { s with sources := sources, queuedInputs := queuedInputs }

theorem QueueStep.operations {operation : OperationRow} {refusal : Option ServiceWorkError}
    (h : QueueStep operation s refusal s') : s'.operations = s.operations := by
  cases h with
  | refused error => rfl
  | accepted hchat hpending hmembers hsource hqueued hq hstate => rfl
  | advanced next entry hchat hheld hsource hqueued => rfl

/-- An update of the source that was read rewrites it. -/
theorem updateSources_rewrites {chatJid : Text} {sourceSeq n : ℕ} {row : SourceRow δ}
    {p : SourceRow δ → Bool} {f : SourceRow δ → SourceRow δ}
    (h : updateSources s p f = .ok (s', n))
    (hrow : s.sources.find? (chatJid, sourceSeq) = some row)
    (hp : ∀ r, p r = true → r.chatJid = chatJid ∧ r.sourceSeq = sourceSeq)
    (hf : ∀ r, (f r).chatJid = r.chatJid ∧ (f r).sourceSeq = r.sourceSeq) (hpr : p row = true) :
    n = 1 ∧ ∃ sources, s' = { s with sources := sources } ∧
      s.sources.Rewrites sources (row.chatJid, row.sourceSeq) row (f row) := by
  obtain ⟨sources, hupdate, rfl⟩ := updateSources_eq_ok h
  have hkey : ∀ r, p r = true → (sourceSchema δ).key (f r) = (sourceSchema δ).key r := by
    intro r _
    exact Prod.ext (hf r).1 (hf r).2
  obtain ⟨hchatJid, hseq⟩ := source_of_find? hrow
  obtain ⟨hone, hrewrites⟩ := Table.rewrites_of_guarded (sourceKey hp) hkey hrow hpr hupdate
  rw [← hchatJid, ← hseq] at hrewrites
  exact ⟨hone, sources, rfl, hrewrites⟩

/-- A membership of the source that is no other operation's is the operation's own. -/
theorem membership_of_existing {chatJid operationId : Text} {sourceSeq : ℕ}
    (hmember : ∃ x ∈ s.operationSources.rows, x.chatJid = chatJid ∧ x.sourceSeq = sourceSeq)
    (hother : (s.operationSources.rows.find? fun r =>
        decide (r.chatJid = chatJid) && decide (r.sourceSeq = sourceSeq)).filter
      (fun r => decide (r.operationId ≠ operationId)) = none) :
    ⟨chatJid, operationId, sourceSeq⟩ ∈ s.operationSources.rows := by
  obtain ⟨x, hx, hchat, hseq⟩ := hmember
  cases hfound : s.operationSources.rows.find? (fun r => decide (r.chatJid = chatJid) &&
      decide (r.sourceSeq = sourceSeq)) with
  | none =>
    have habsent := List.find?_eq_none.mp hfound x hx
    simp [hchat, hseq] at habsent
  | some r =>
    have hmem := List.mem_of_find?_eq_some hfound
    have hkey := List.find?_some hfound
    simp only [Bool.and_eq_true, decide_eq_true_eq] at hkey
    rw [hfound] at hother
    have hown : r.operationId = operationId := by simpa using hother
    obtain ⟨rchat, rid, rseq⟩ := r
    obtain ⟨rfl, rfl⟩ := hkey
    subst hown
    exact hmem

theorem acceptQueuedInput_step {request : RecordQueuedInputRequest δ} {operation : OperationRow}
    {source : SourceRow δ} {refusal : Option ServiceWorkError}
    (hsource : s.sources.find? (operation.chatJid, request.sourceSeq.1) = some source)
    (h : acceptQueuedInput request operation source s = .ok (refusal, s')) :
    QueueStep operation s refusal s' := by
  unfold acceptQueuedInput at h
  by_cases hshape : request.state ≠ .accepted ∨ request.harnessEntryId.isSome ∨
      source.state ≠ .pending
  · rw [if_pos hshape] at h
    cases h
    exact .refused _
  rw [if_neg hshape] at h
  push Not at hshape
  obtain ⟨hchatJid, hseq⟩ := source_of_find? hsource
  dsimp only at h
  split at h
  · cases h
    exact .refused _
  rename_i hother
  split_ifs at h with hmember
  -- with the membership inserted or with the one that is there
  all_goals
    obtain ⟨u, hu, h⟩ := bind_eq_ok.mp h
    have hmembers : ∃ members, u = { s with operationSources := members } ∧
        (s.operationSources.insert? ⟨source.chatJid, operation.operationId, source.sourceSeq⟩ =
            some members ∨
          ⟨source.chatJid, operation.operationId, source.sourceSeq⟩ ∈ s.operationSources.rows ∧
            members = s.operationSources) := by
      rw [hchatJid, hseq]
      first
      | obtain ⟨members, hinsert, rfl⟩ := insertOperationSource_eq_ok hu
        exact ⟨members, rfl, .inl hinsert⟩
      | cases hu
        exact ⟨_, rfl, .inr ⟨membership_of_existing (by simpa using hmember) hother, rfl⟩⟩
    obtain ⟨members, rfl, hmembers⟩ := hmembers
    obtain ⟨⟨v, changes⟩, hupdate, h⟩ := bind_eq_ok.mp h
    obtain ⟨hone, sources, rfl, hrewrites⟩ := updateSources_rewrites hupdate hsource (by
      intro r hr
      simp only [Bool.and_eq_true, decide_eq_true_eq] at hr
      exact hr.1) (fun _ => ⟨rfl, rfl⟩) (by simp [hchatJid, hseq, hshape.2.2])
    dsimp only at h
    rw [if_neg (not_not_intro hone)] at h
    obtain ⟨w, hinsert, h⟩ := bind_eq_ok.mp h
    obtain ⟨queuedInputs, hqueued, rfl⟩ := insertQueuedInput_eq_ok hinsert
    cases h
    exact .accepted hchatJid hshape.2.2 hmembers hrewrites hqueued (by rw [hchatJid, hseq]) rfl

theorem held_sourceStateForQueue {state next : QueuedInputState}
    (h : queueTransition state next = true) : (sourceStateForQueue state).held = true := by
  cases state <;> cases next <;> first | rfl | cases h

theorem advanceQueuedInput_step {request : RecordQueuedInputRequest δ} {operation : OperationRow}
    {source : SourceRow δ} {known : QueuedInputRow} {refusal : Option ServiceWorkError}
    (hsource : s.sources.find? (operation.chatJid, request.sourceSeq.1) = some source)
    (hknown : s.queuedInputs.find? (operation.operationId, request.sourceSeq.1) = some known)
    (h : advanceQueuedInput request operation source known s = .ok (refusal, s')) :
    QueueStep operation s refusal s' := by
  unfold advanceQueuedInput at h
  by_cases hshape : known.queueKind ≠ request.queueKind ∨
      queueTransition known.state request.state = false ∨
      validQueueEntryTransition known.state known.harnessEntryId request.state
        request.harnessEntryId = false ∨
      source.state ≠ sourceStateForQueue known.state
  · rw [if_pos hshape] at h
    cases h
    exact .refused _
  rw [if_neg hshape] at h
  push Not at hshape
  obtain ⟨-, htransition, -, hstate⟩ := hshape
  obtain ⟨hchatJid, hseq⟩ := source_of_find? hsource
  have hkey : (known.operationId, known.sourceSeq) = (operation.operationId, request.sourceSeq.1) :=
    Table.key_of_find? hknown
  rw [Prod.mk.injEq] at hkey
  obtain ⟨⟨u, queued⟩, hqueue, h⟩ := bind_eq_ok.mp h
  obtain ⟨queuedInputs, hupdate, rfl⟩ := updateQueuedInputs_eq_ok hqueue
  obtain ⟨hqueued, hrewrites⟩ := Table.rewrites_of_guarded
    (k := (operation.operationId, request.sourceSeq.1)) (by
      intro r hr
      simp only [Bool.and_eq_true, decide_eq_true_eq] at hr
      exact Prod.ext hr.1.1 hr.1.2) (by intro r _; rfl) hknown (by simp [hkey.1, hkey.2]) hupdate
  dsimp only at h
  rw [if_neg (not_not_intro hqueued)] at h
  obtain ⟨⟨v, changes⟩, hsources, h⟩ := bind_eq_ok.mp h
  obtain ⟨hone, sources, rfl, hsourceRewrites⟩ := updateSources_rewrites hsources hsource (by
    intro r hr
    simp only [Bool.and_eq_true, decide_eq_true_eq] at hr
    exact hr.1) (fun _ => ⟨rfl, rfl⟩) (by simp [hchatJid, hseq, hstate])
  dsimp only at h
  rw [if_neg (not_not_intro hone)] at h
  cases h
  rw [← hseq] at hrewrites
  refine .advanced _ _ hchatJid ?_ hsourceRewrites hrewrites
  rw [hstate]
  exact held_sourceStateForQueue (by simpa using htransition)

/-- A queued input is refused, or the queue statements are followed by the rise of the version. -/
inductive QueuedInputStep (s : WorkTables δ) : WorkOutcome → WorkTables δ → Prop where
  | refused (error : ServiceWorkError) : QueuedInputStep s (.error error) s
  | queued {operation : OperationRow} {u t : WorkTables δ} {answer : WorkValue × Bool}
      (hrow : s.operations.find? operation.operationId = some operation)
      (hopen : operation.phase ≠ .terminal) (hqueue : QueueStep operation s none u)
      (hbump : OperationStep u (.ok answer) t) : QueuedInputStep s (.ok answer) t

/-- After the queue statements only their own refusal is left. -/
theorem QueuedInputStep.of_queue {operation : OperationRow}
    {queued : Except WorkFault (Option ServiceWorkError × WorkTables δ)}
    (hrow : s.operations.find? operation.operationId = some operation)
    (hopen : operation.phase ≠ .terminal)
    (hqueued : ∀ refusal u, queued = .ok (refusal, u) → QueueStep operation s refusal u)
    (h : (do
      let (refusal, u) ← queued
      match refusal with
      | some error => rejected error u
      | none =>
        let (u, bumped) ← bumpVersion u operation.operationId operation.version
        if bumped ≠ 1 then rejected (serviceError .versionMismatch) u
        else answerOperation operation.operationId false u) = .ok (outcome, s')) :
    QueuedInputStep s outcome s' := by
  obtain ⟨⟨refusal, u⟩, hqueue, h⟩ := bind_eq_ok.mp h
  have hstep := hqueued refusal u hqueue
  cases refusal with
  | some error =>
    cases h
    cases hstep
    exact .refused error
  | none =>
    obtain ⟨⟨v, bumped⟩, hbump, h⟩ := bind_eq_ok.mp h
    have hrow' : u.operations.find? operation.operationId = some operation := by
      rw [hstep.operations]
      exact hrow
    unfold bumpVersion at hbump
    have hmoved : OperationStep u outcome s' ∧ ∃ answer, outcome = .ok answer := by
      refine OperationStep.of_update h hbump hrow' ?_ ?_ ?_ hopen .bump
      · intro r hr
        simp only [Bool.and_eq_true, decide_eq_true_eq] at hr
        exact hr.1.1
      · intro r
        rfl
      · simp [hopen]
    obtain ⟨hmoved, answer, rfl⟩ := hmoved
    exact .queued hrow hopen hstep hmoved

theorem applyQueuedInput_step {request : RecordQueuedInputRequest δ}
    (h : applyQueuedInput request s = .ok (outcome, s')) : QueuedInputStep s outcome s' := by
  unfold applyQueuedInput at h
  obtain ⟨found, hfound, h⟩ := bind_eq_ok.mp h
  have hrow := operationRow_eq_ok hfound
  cases found with
  | none =>
    cases h
    exact .refused _
  | some operation =>
    have hkey : operation.operationId = request.effect.operationId := Table.key_of_find? hrow
    rw [← hkey] at hrow
    dsimp only at h
    by_cases hterminal : operation.phase = .terminal
    · rw [if_pos hterminal] at h
      cases h
      exact .refused _
    rw [if_neg hterminal] at h
    by_cases hversion : operation.version ≠ request.expectedVersion.1
    · rw [if_pos hversion] at h
      cases h
      exact .refused _
    rw [if_neg hversion] at h
    cases hsource : sourceRow s operation.chatJid request.sourceSeq.1 with
    | none =>
      rw [hsource] at h
      cases h
      exact .refused _
    | some source =>
      rw [hsource] at h
      dsimp only at h
      by_cases howner : source.targetOperationId ≠ some operation.operationId ∧
          source.sourceSeq ≠ operation.primarySourceSeq
      · rw [if_pos howner] at h
        cases h
        exact .refused _
      rw [if_neg howner] at h
      rw [← not_not.mp hversion] at h
      split at h
      · exact .of_queue hrow hterminal (fun _ _ => acceptQueuedInput_step hsource) h
      · rename_i known hknown
        exact .of_queue hrow hterminal (fun _ _ => advanceQueuedInput_step hsource hknown) h

end Queued

end Piclaw
