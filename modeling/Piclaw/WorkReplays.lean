import Piclaw.WorkSettleable

/-!
# Replays of the work mutations

A mutation that is submitted again is answered from its decision. A decision keeps an operation as
it was, but of a source only its key and its state, and the rest of the source is read from its
current row. All of that row stays as it was accepted, apart from the reason of its disposition.
-/

namespace Piclaw
open Relational
variable {δ Ω : Type} {P : Platform δ} {H : SettlementHost δ Ω}

section Continuing
variable {s s' s'' : WorkTables δ} {outcome : WorkOutcome}

/-- The row of one source before and after, in whatever state and with whatever reason. -/
def SameSource (row row' : SourceRow δ) : Prop :=
  row' = { row with state := row'.state, dispositionReason := row'.dispositionReason }

/-- Decisions stay, and so do the sources. -/
structure Continues (s s' : WorkTables δ) : Prop where
  decisions : ∀ key decision, s.decisions.find? key = some decision →
    s'.decisions.find? key = some decision
  sources : ∀ k row, s.sources.find? k = some row →
    ∃ row', s'.sources.find? k = some row' ∧ SameSource row row'

theorem Continues.refl (s : WorkTables δ) : Continues s s :=
  ⟨fun _ _ h => h, fun _ row h => ⟨row, h, rfl⟩⟩

theorem SameSource.trans {row row' row'' : SourceRow δ} (h : SameSource row row')
    (h' : SameSource row' row'') : SameSource row row'' := by
  unfold SameSource at *
  rw [h', h]

theorem Continues.trans (h : Continues s s') (h' : Continues s' s'') : Continues s s'' := by
  refine ⟨fun key decision hd => h'.decisions _ _ (h.decisions _ _ hd), fun k row hrow => ?_⟩
  obtain ⟨row', hrow', hsame⟩ := h.sources k row hrow
  obtain ⟨row'', hrow'', hsame'⟩ := h'.sources k row' hrow'
  exact ⟨row'', hrow'', hsame.trans hsame'⟩

/-- Nothing happens to the decisions and the sources. -/
theorem Continues.of_eq (hdecisions : s'.decisions = s.decisions)
    (hsources : s'.sources = s.sources) : Continues s s' := by
  refine ⟨fun key decision h => by rw [hdecisions]; exact h, fun k row h => ⟨row, ?_, rfl⟩⟩
  rw [hsources]
  exact h

theorem Continues.rewrites {k : Text × ℕ} {row row' : SourceRow δ}
    (hdecisions : s'.decisions = s.decisions)
    (h : s.sources.Rewrites s'.sources k row row') (hsame : SameSource row row') :
    Continues s s' := by
  refine ⟨fun key decision h => by rw [hdecisions]; exact h, fun k' x hx => ?_⟩
  rcases h.lost hx with ⟨-, rfl, hafter⟩ | ⟨-, hafter⟩
  · exact ⟨row', hafter, hsame⟩
  · exact ⟨x, hafter, rfl⟩

theorem ensureChat_continues {chatJid : Text} (h : ensureChat s chatJid = .ok s') :
    Continues s s' := by
  unfold ensureChat at h
  split_ifs at h with hsome
  · cases h
    exact .refl _
  · obtain ⟨chats, hchats, h⟩ := require_bind_eq_ok.mp h
    cases h
    exact .of_eq rfl rfl

theorem AcceptStep.continues {request : AcceptSourceRequest δ}
    (h : AcceptStep P request s outcome s') : Continues s s' := by
  cases h with
  | refused error => exact .refl _
  | known hrow => exact .refl _
  | allocated hbound htarget hchat hsource =>
    exact ⟨fun _ _ h => h, fun k row h =>
      ⟨row, Table.find?_insert?_of_some hsource h, rfl⟩⟩

theorem ClaimStep.continues {order : Option (List Text)} {request : ClaimNextSourceRequest δ}
    (h : ClaimStep order request s outcome s') : Continues s s' := by
  cases h with
  | refused error => exact .refl _
  | nothing => exact .refl _
  | claimed hnext hsourceChat hpending hidle hchat hsource hop hmember hoperation =>
    exact .rewrites rfl hsource rfl

theorem OperationStep.continues (h : OperationStep s outcome s') : Continues s s' := by
  cases h with
  | refused error => exact .refl _
  | known duplicate hrow hopen => exact .refl _
  | moved hrewrites hopen hmove => exact .of_eq rfl rfl

theorem QueueStep.continues {operation : OperationRow} {refusal : Option ServiceWorkError}
    (h : QueueStep operation s refusal s') : Continues s s' := by
  cases h with
  | refused error => exact .refl _
  | accepted hchat hpending hmembers hsource hqueued hq hstate => exact .rewrites rfl hsource rfl
  | advanced next entry hchat hheld hsource hqueued => exact .rewrites rfl hsource rfl

theorem QueuedInputStep.continues (h : QueuedInputStep s outcome s') : Continues s s' := by
  cases h with
  | refused error => exact .refl _
  | queued hrow hopen hqueue hbump => exact hqueue.continues.trans hbump.continues

theorem applyWork_continues [DecidableEq δ] {runtime : WorkAdapterRuntime} {m : WorkMutation δ}
    (h : applyWork P runtime m s = .ok (outcome, s')) : Continues s s' := by
  cases m with
  | acceptSource request =>
    obtain ⟨u, hensure, hstep⟩ := applyAcceptSource_step h
    exact (ensureChat_continues hensure).trans hstep.continues
  | claimNext request =>
    obtain ⟨u, hensure, hstep⟩ := applyClaimNext_step h
    exact (ensureChat_continues hensure).trans hstep.continues
  | appendIntent request => exact (applyAppendIntent_step h).continues
  | acceptCancellation request => exact (applyCancellation_step h).continues
  | bindHarness request => exact (applyHarnessBinding_step h).continues
  | finishHarness request => exact (applyHarnessFinish_step h).continues
  | recordQueuedInput request => exact (applyQueuedInput_step h).continues

theorem writeWorkDecision_continues {method : WorkMethod} {key : Text} {requestHash : δ}
    {value : WorkValue} (h : writeWorkDecision s method key requestHash value = .ok s') :
    Continues s s' ∧ s'.sources = s.sources ∧
      s'.decisions.find? key = some ⟨key, method, requestHash, decisionForValue value⟩ := by
  obtain ⟨decisions, hdecisions, h⟩ := require_bind_eq_ok.mp h
  cases h
  exact ⟨⟨fun _ _ h => Table.find?_insert?_of_some hdecisions h, fun _ row h => ⟨row, h, rfl⟩⟩, rfl,
    Table.find?_insert?_self hdecisions⟩

theorem applyMutation_continues [DecidableEq δ] {runtime : WorkAdapterRuntime}
    {m : WorkMutation δ} (h : applyMutationWithinTransaction P runtime m s = .ok (outcome, s')) :
    Continues s s' := by
  unfold applyMutationWithinTransaction at h
  split at h
  · cases h
    exact .refl _
  · obtain ⟨_, -, h⟩ := bind_eq_ok.mp h
    obtain ⟨⟨answer, u⟩, happly, h⟩ := bind_eq_ok.mp h
    cases answer with
    | error refusal =>
      cases h
      exact applyWork_continues happly
    | ok answer =>
      obtain ⟨value, duplicate⟩ := answer
      dsimp only at h
      split_ifs at h with hfault
      obtain ⟨v, hdecision, h⟩ := bind_eq_ok.mp h
      obtain ⟨_, -, h⟩ := bind_eq_ok.mp h
      cases h
      exact (applyWork_continues happly).trans (writeWorkDecision_continues hdecision).1

theorem mutateWork_continues [DecidableEq δ] {runtime : WorkAdapterRuntime}
    (request : Option (SealedMutation P)) :
    Continues s (mutateWork P runtime request s).2 := by
  unfold mutateWork
  cases request with
  | none => exact .refl _
  | some m =>
    dsimp only
    by_cases hfaulted : faultedBefore runtime m.1.method
    · rw [if_pos hfaulted]
      exact .refl _
    · rw [if_neg hfaulted]
      cases happly : applyMutationWithinTransaction P runtime m.1 s with
      | error fault => exact .refl _
      | ok answered =>
        obtain ⟨answer, t⟩ := answered
        have hcontinues : Continues s t := applyMutation_continues happly
        cases answer with
        | error error => exact hcontinues
        | ok answer =>
          dsimp only
          split_ifs with hlost
          · exact hcontinues
          · exact hcontinues

/-- A settled source keeps everything but its state and its reason. -/
theorem settleSource_continues {operation : OperationRow} {d : SourceDisposition}
    (h : settleSource operation d s = .ok s') : Continues s s' := by
  unfold settleSource at h
  obtain ⟨-, h⟩ := demand_bind_eq_ok.mp h
  obtain ⟨⟨sources, settled⟩, hsources, h⟩ := settleConstrained_bind_eq_ok.mp h
  obtain ⟨-, h⟩ := demand_bind_eq_ok.mp h
  obtain ⟨⟨queuedInputs, queued⟩, -, h⟩ := settleConstrained_bind_eq_ok.mp h
  obtain ⟨-, h⟩ := demand_bind_eq_ok.mp h
  cases h
  refine ⟨fun _ _ h => h, fun k row hrow => ?_⟩
  dsimp only
  rw [Table.find?_update? (by intro r _; rfl) hsources, hrow]
  refine ⟨_, rfl, ?_⟩
  unfold Table.changed
  split_ifs
  · rfl
  · rfl

theorem settleSources_continues {operation : OperationRow} {ds : List SourceDisposition}
    (h : settleSources operation ds s = .ok s') : Continues s s' := by
  induction ds generalizing s with
  | nil =>
    cases h
    exact .refl _
  | cons d ds ih =>
    obtain ⟨u, hsettle, h⟩ := bind_eq_ok.mp h
    exact (settleSource_continues hsettle).trans (ih h)

theorem commitTerminal_continues [DecidableEq δ] {runtime : SettlementRuntime}
    (request : Option (CommitTerminalRequest δ)) (t : SettlementState δ Ω) :
    Continues t.toWorkTables (commitTerminal H runtime request t).2.toWorkTables := by
  rcases commitTerminal_applies request t with hsame | ⟨_, _, t', host, -, h, hsame⟩
  · rw [hsame]
    exact .refl _
  · obtain ⟨operation, chat, settled, frontier, messageRowId, happlied⟩ := applySettlement_spec h
    have hsources : t'.sources = settled.sources := by
      rw [happlied.ledger]
    have hcontinues := settleSources_continues happlied.settles
    rw [hsame]
    refine ⟨fun key decision hd => ?_, fun k row hrow => ?_⟩
    · change t'.decisions.find? key = some decision
      rw [happlied.decisions]
      exact hd
    · change ∃ row', t'.sources.find? k = some row' ∧ SameSource row row'
      rw [hsources]
      exact hcontinues.sources k row hrow

theorem run_continues [DecidableEq δ] {calls : List (WorkCall P)} (t : SettlementState δ Ω)
    (hcalls : ∀ call ∈ calls, OfStores call) :
    Continues t.toWorkTables (run (workStep P H) t calls).toWorkTables := by
  induction calls generalizing t with
  | nil => exact .refl _
  | cons call calls ih =>
    rw [List.forall_mem_cons] at hcalls
    refine Continues.trans ?_ (ih (workStep P H t call) hcalls.2)
    cases call with
    | mutate runtime request => exact mutateWork_continues request
    | host runtime request => exact hcalls.1.elim
    | settle runtime request => exact commitTerminal_continues request t

end Continuing

section Rebuilding
variable {s s' t : WorkTables δ} {value : WorkValue} {duplicate : Bool}

theorem materialise_source_found {c : Text} {n : ℕ} {row : SourceRow δ} {method : WorkMethod}
    {state : AcceptedSourceState} (h : s.sources.find? (c, n) = some row) :
    materialiseDecision s method (.source c n state) =
      some (.source (sourceSnapshot row state)) := by
  simp [materialiseDecision, sourceRow, h]

theorem materialise_claim_found {c : Text} {n : ℕ} {row : SourceRow δ} {method : WorkMethod}
    {operation : OperationSnapshot} (h : s.sources.find? (c, n) = some row)
    (hopen : operation.terminal = none) :
    materialiseDecision s method (.claim c n operation) =
      some (.claimed (sourceSnapshot row .claimed) operation) := by
  simp [materialiseDecision, sourceRow, normaliseStoredOperation, h, hopen]

theorem materialise_operation {method : WorkMethod} {operation : OperationSnapshot}
    (hmethod : method ≠ .claimNext) (hopen : operation.terminal = none) :
    materialiseDecision s method (.operation operation) = some (.operation operation) := by
  simp [materialiseDecision, normaliseStoredOperation, hmethod, hopen]

theorem materialise_congr {method : WorkMethod} {decision : StoredDecision}
    (h : s'.sources = s.sources) :
    materialiseDecision s' method decision = materialiseDecision s method decision := by
  cases decision <;> simp only [materialiseDecision, sourceRow, h]

/-- The decision about a value gives that value back. -/
def Rebuilds (s : WorkTables δ) (method : WorkMethod) (value : WorkValue) : Prop :=
  materialiseDecision s method (decisionForValue value) = some value

theorem AcceptStep.rebuilds {request : AcceptSourceRequest δ}
    (h : AcceptStep P request s (.ok (value, duplicate)) s') : Rebuilds s' .acceptSource value := by
  cases h with
  | known hrow =>
    have hfound := Table.find?_of_mem (List.mem_of_find?_eq_some hrow)
    exact materialise_source_found hfound
  | allocated hbound htarget hchat hsource =>
    have hfound := Table.find?_insert?_self hsource
    exact materialise_source_found hfound

theorem ClaimStep.rebuilds {order : Option (List Text)} {request : ClaimNextSourceRequest δ}
    (h : ClaimStep order request s (.ok (value, duplicate)) s') : Rebuilds s' .claimNext value := by
  cases h with
  | nothing => rfl
  | claimed hnext hsourceChat hpending hidle hchat hsource hop hmember hoperation =>
    have hfound := hsource.after
    rw [← hsourceChat] at hfound
    exact materialise_claim_found hfound hoperation

theorem OperationStep.rebuilds {method : WorkMethod} (hmethod : method ≠ .claimNext)
    (hs : s.toLedger.Phases) (h : OperationStep s (.ok (value, duplicate)) s') :
    Rebuilds s' method value := by
  have hnone : ∀ row : OperationRow, s.operations.find? row.operationId = some row →
      row.phase ≠ .terminal → row.terminal = none := by
    intro row hrow hopen
    rw [← Option.not_isSome_iff_eq_none, ← (hs _ _ hrow).settled]
    exact hopen
  cases h with
  | known duplicate hrow hopen => exact materialise_operation hmethod (hnone _ hrow hopen)
  | moved hrewrites hopen hmove =>
    refine materialise_operation hmethod ?_
    exact hmove.kept.2.2.2.1.trans (hnone _ hrewrites.before hopen)

theorem QueuedInputStep.rebuilds (hs : s.toLedger.Phases)
    (h : QueuedInputStep s (.ok (value, duplicate)) s') :
    Rebuilds s' .recordQueuedInput value := by
  cases h with
  | queued hrow hopen hqueue hbump =>
    refine hbump.rebuilds (by simp) ?_
    intro o row hrow'
    rw [hqueue.operations] at hrow'
    exact hs o row hrow'

theorem applyWork_rebuilds [DecidableEq δ] {runtime : WorkAdapterRuntime} {m : WorkMutation δ}
    (hs : s.toLedger.Phases) (h : applyWork P runtime m s = .ok (.ok (value, duplicate), s')) :
    Rebuilds s' m.method value := by
  cases m with
  | acceptSource request =>
    obtain ⟨u, -, hstep⟩ := applyAcceptSource_step h
    exact hstep.rebuilds
  | claimNext request =>
    obtain ⟨u, -, hstep⟩ := applyClaimNext_step h
    exact hstep.rebuilds
  | appendIntent request =>
    exact (applyAppendIntent_step h).rebuilds (by simp [WorkMutation.method]) hs
  | acceptCancellation request =>
    exact (applyCancellation_step h).rebuilds (by simp [WorkMutation.method]) hs
  | bindHarness request =>
    exact (applyHarnessBinding_step h).rebuilds (by simp [WorkMutation.method]) hs
  | finishHarness request =>
    exact (applyHarnessFinish_step h).rebuilds (by simp [WorkMutation.method]) hs
  | recordQueuedInput request => exact (applyQueuedInput_step h).rebuilds hs

/-- What a decision holds about a mutation that has been committed. -/
structure Decided (s : WorkTables δ) (m : WorkMutation δ) (value : WorkValue)
    (decision : WorkDecisionRow δ) : Prop where
  found : s.decisions.find? m.idempotencyKey = some decision
  method : decision.method = m.method
  hash : decision.requestHash = m.requestHash
  rebuilt : materialiseDecision s m.method decision.result = some value

theorem applyMutation_decided [DecidableEq δ] {runtime : WorkAdapterRuntime} {m : WorkMutation δ}
    (hs : s.toLedger.Phases)
    (h : applyMutationWithinTransaction P runtime m s = .ok (.ok (value, duplicate), s')) :
    ∃ decision, Decided s' m value decision := by
  unfold applyMutationWithinTransaction at h
  split at h
  · rename_i outcome hread
    cases h
    unfold readDecision at hread
    split at hread
    · cases hread
    · rename_i decision hfound
      by_cases hconflict : decision.method ≠ m.method ∨ decision.requestHash ≠ m.requestHash
      · rw [if_pos hconflict] at hread
        cases hread
      rw [if_neg hconflict] at hread
      rw [not_or, not_not, not_not] at hconflict
      split at hread
      · rename_i known hknown
        cases hread
        exact ⟨decision, hfound, hconflict.1, hconflict.2, hknown⟩
      · cases hread
  · obtain ⟨_, -, h⟩ := bind_eq_ok.mp h
    obtain ⟨⟨answer, u⟩, happly, h⟩ := bind_eq_ok.mp h
    cases answer with
    | error refusal => cases h
    | ok answer =>
      obtain ⟨v, dup⟩ := answer
      dsimp only at h
      split_ifs at h with hfault
      obtain ⟨w, hdecision, h⟩ := bind_eq_ok.mp h
      obtain ⟨_, -, h⟩ := bind_eq_ok.mp h
      cases h
      obtain ⟨-, hsources, hfound⟩ := writeWorkDecision_continues hdecision
      refine ⟨_, hfound, rfl, rfl, ?_⟩
      have hrebuilt := applyWork_rebuilds hs happly
      unfold Rebuilds at hrebuilt
      rw [← hrebuilt]
      exact materialise_congr hsources

/-- The reason of the source is still the one that the value names. -/
def KeepsReason (s : WorkTables δ) (source : AcceptedSourceSnapshot) : Prop :=
  (s.sources.find? (source.chatJid, source.sourceSeq)).any fun row =>
    decide (row.dispositionReason = source.dispositionReason)

/-- The source that a value holds has been given no other reason. -/
def ReplayKept (s : WorkTables δ) : WorkValue → Prop
  | .source source => KeepsReason s source
  | .claimed source _ => KeepsReason s source
  | .operation _ | .nothing => True

/-- A source is read back as it was exactly if its reason is. -/
theorem sourceSnapshot_eq_iff {k : Text × ℕ} {row row' : SourceRow δ} {state : AcceptedSourceState}
    (hrow : s.sources.find? k = some row) (hrow' : t.sources.find? k = some row')
    (hsame : SameSource row row') :
    sourceSnapshot row' state = sourceSnapshot row state ↔
      KeepsReason t (sourceSnapshot row state) := by
  have hkey : (row.chatJid, row.sourceSeq) = k := Table.key_of_find? hrow
  have hfound : t.sources.find? (row.chatJid, row.sourceSeq) = some row' := by
    rw [hkey]
    exact hrow'
  have hkeeps : KeepsReason t (sourceSnapshot row state) ↔
      row'.dispositionReason = row.dispositionReason := by
    unfold KeepsReason
    change (t.sources.find? (row.chatJid, row.sourceSeq)).any
      (fun r => decide (r.dispositionReason = row.dispositionReason)) = true ↔ _
    rw [hfound, Option.any_some, decide_eq_true_iff]
  rw [hkeeps]
  constructor
  · exact congrArg AcceptedSourceSnapshot.dispositionReason
  · intro hreason
    rw [hsame]
    simp [sourceSnapshot, hreason]

/-- What a decision rebuilds later, and when it is what it rebuilt before. -/
theorem materialise_iff {method : WorkMethod} {decision : StoredDecision}
    (hc : Continues s t) (h : materialiseDecision s method decision = some value) :
    ∃ value', materialiseDecision t method decision = some value' ∧
      (value' = value ↔ ReplayKept t value) := by
  cases decision with
  | empty =>
    cases h
    exact ⟨_, rfl, iff_of_true rfl trivial⟩
  | source c n state =>
    obtain ⟨row, hrow, h⟩ := Option.bind_eq_some_iff.mp h
    cases h
    obtain ⟨row', hrow', hsame⟩ := hc.sources _ _ hrow
    refine ⟨_, materialise_source_found hrow', ?_⟩
    rw [WorkValue.source.injEq]
    exact sourceSnapshot_eq_iff hrow hrow' hsame
  | claim c n operation =>
    obtain ⟨known, hknown, h⟩ := Option.bind_eq_some_iff.mp h
    obtain ⟨row, hrow, h⟩ := Option.bind_eq_some_iff.mp h
    cases h
    unfold normaliseStoredOperation at hknown
    split_ifs at hknown with hopen
    cases hknown
    obtain ⟨row', hrow', hsame⟩ := hc.sources _ _ hrow
    refine ⟨_, materialise_claim_found hrow' (Option.not_isSome_iff_eq_none.mp hopen), ?_⟩
    rw [WorkValue.claimed.injEq, and_iff_left rfl]
    exact sourceSnapshot_eq_iff hrow hrow' hsame
  | operation operation =>
    obtain ⟨known, hknown, h⟩ := Option.bind_eq_some_iff.mp h
    unfold normaliseStoredOperation at hknown
    split_ifs at hknown with hopen
    cases hknown
    have hopen := Option.not_isSome_iff_eq_none.mp hopen
    by_cases hmethod : method = .claimNext
    · rw [if_pos hmethod] at h
      obtain ⟨row, hrow, h⟩ := Option.bind_eq_some_iff.mp h
      cases h
      obtain ⟨row', hrow', hsame⟩ := hc.sources _ _ hrow
      refine ⟨.claimed (sourceSnapshot row' .claimed) operation, ?_, ?_⟩
      · have hsource : sourceRow t operation.chatJid operation.primarySourceSeq = some row' := hrow'
        simp [materialiseDecision, normaliseStoredOperation, hmethod, hopen, hsource]
      · rw [WorkValue.claimed.injEq, and_iff_left rfl]
        exact sourceSnapshot_eq_iff hrow hrow' hsame
    · rw [if_neg hmethod] at h
      cases h
      exact ⟨_, materialise_operation hmethod hopen, iff_of_true rfl trivial⟩

/-- A request whose decision is there is answered from it, and nothing is changed. -/
theorem mutateWork_replayed [DecidableEq δ] {m : SealedMutation P} {decision : WorkDecisionRow δ}
    (h : Decided s m.1 value decision) :
    mutateWork P .faultFree (some m) s = (.ok value, s) := by
  have hread : readDecision s m.1.method m.1.idempotencyKey m.1.requestHash =
      some (.ok (value, true)) := by
    unfold readDecision
    rw [h.found]
    simp [h.method, h.hash, h.rebuilt]
  have happly : applyMutationWithinTransaction P .faultFree m.1 s = .ok (.ok (value, true), s) := by
    unfold applyMutationWithinTransaction
    rw [hread]
  unfold mutateWork
  dsimp only
  rw [if_neg (by simp [faultedBefore, WorkAdapterRuntime.faultFree]), happly]
  rfl

end Rebuilding

section Replays
variable [DecidableEq δ]

/-- The call commits the mutation with a value, whether or not its caller hears of it. -/
def Commits (runtime : WorkAdapterRuntime) (m : SealedMutation P) (value : WorkValue)
    (s : WorkTables δ) : Prop :=
  faultedBefore runtime m.1.method = false ∧ ∃ duplicate s',
    applyMutationWithinTransaction P runtime m.1 s = .ok (.ok (value, duplicate), s')

theorem commits_decided {runtime : WorkAdapterRuntime} {m : SealedMutation P} {value : WorkValue}
    {s : WorkTables δ} (hs : s.toLedger.Phases) (h : Commits runtime m value s) :
    ∃ decision, Decided (mutateWork P runtime (some m) s).2 m.1 value decision := by
  obtain ⟨hfree, duplicate, s', happly⟩ := h
  have htables : (mutateWork P runtime (some m) s).2 = s' := by
    unfold mutateWork
    dsimp only
    rw [if_neg (by simp [hfree]), happly]
    dsimp only
    split_ifs <;> rfl
  rw [htables]
  exact applyMutation_decided hs happly

/-- A mutation that was committed is answered later without changing anything, with the value that
it was committed with exactly if the source in it has kept its reason. -/
theorem replayed_iff {s t : WorkTables δ} {m : SealedMutation P} {value : WorkValue}
    {decision : WorkDecisionRow δ} (hdecided : Decided s m.1 value decision)
    (hc : Continues s t) :
    (∃ value', mutateWork P .faultFree (some m) t = (.ok value', t)) ∧
      (mutateWork P .faultFree (some m) t = (.ok value, t) ↔ ReplayKept t value) := by
  obtain ⟨value', hvalue', hiff⟩ := materialise_iff hc hdecided.rebuilt
  have hreplayed : mutateWork P .faultFree (some m) t = (.ok value', t) :=
    mutateWork_replayed ⟨hc.decisions _ _ hdecided.found, hdecided.method, hdecided.hash, hvalue'⟩
  refine ⟨⟨value', hreplayed⟩, ?_⟩
  rw [hreplayed, ← hiff]
  simp

section Samples

/-- The first source of the chat, as it is accepted. -/
def sampleFirstSource : SealedMutation openPlatform :=
  ⟨.acceptSource (sampleAccept sampleMessage .message none
    (hashCanonicalRequest openPlatform (sampleAccept sampleMessage .message none (.text "")).json)),
    rfl⟩

def sampleFirstSnapshot : AcceptedSourceSnapshot where
  chatJid := sampleChat
  sourceSeq := 1
  sourceId := sampleMessage
  kind := .message
  state := .pending
  payloadRef := sampleProvenance
  targetOperationId := none
  parentSourceSeq := none
  acceptedAt := sampleOpening
  dispositionReason := none
  provenanceRef := sampleProvenance

/-- Its operation is claimed and skipped. -/
def sampleSettlement : List (WorkCall openPlatform) :=
  [sampleTaken sampleOwner zeroFrontier, sampleSkipped]

theorem sampleSettlement_ofStores : ∀ call ∈ sampleSettlement, OfStores call := by
  simp [sampleSettlement, OfStores, sampleTaken, sampleSkipped]

theorem sampleFirstSource_commits :
    Commits .faultFree sampleFirstSource (.source sampleFirstSnapshot)
      (run (workStep openPlatform silentHost) (SettlementState.initial ()) []).toWorkTables := by
  refine ⟨rfl, false, (mutateWork openPlatform .faultFree (some sampleFirstSource)
    (SettlementState.initial () : SettlementState OpenDigest Unit).toWorkTables).2, ?_⟩
  rfl

end Samples

end Replays

end Piclaw
