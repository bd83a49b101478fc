import Piclaw.WorkRuns

/-!
# Completing an operation

A commit that completes an operation closes its sources one after another, terminalises it, moves
the frontier of its chat and frees the chat. Each of these statements has what it needs while the
queued inputs of the operation are open: then a request can be written down that succeeds, and
otherwise every request finds the sources corrupt.
-/

namespace Piclaw
open Relational
variable {δ Ω : Type} {H : SettlementHost δ Ω}

section Members
variable {s : WorkTables δ} {operation : OperationRow}

theorem mem_memberships {m : OperationSourceRow} :
    m ∈ memberships s operation ↔
      m ∈ s.operationSources.rows ∧ m.operationId = operation.operationId := by
  simp [memberships]

/-- The numbers of the members increase. -/
theorem memberships_increasing :
    ((memberships s operation).map OperationSourceRow.sourceSeq).Pairwise (· < ·) := by
  have hsorted : (memberships s operation).Pairwise (fun a b => a.sourceSeq ≤ b.sourceSeq) :=
    List.pairwise_insertionSort _ _
  have hkeys : (memberships s operation).Pairwise
      (fun a b => (a.operationId, a.sourceSeq) ≠ (b.operationId, b.sourceSeq)) := by
    have hnodup : (s.operationSources.rows.map operationSourceSchema.key).Nodup :=
      s.operationSources.admitted.1
    have hperm := List.perm_insertionSort
      (fun a b : OperationSourceRow => a.sourceSeq ≤ b.sourceSeq)
      (s.operationSources.rows.filter fun m => decide (m.operationId = operation.operationId))
    have hsub := hnodup.sublist ((List.filter_sublist (p := fun m : OperationSourceRow =>
      decide (m.operationId = operation.operationId))).map operationSourceSchema.key)
    exact List.pairwise_map.mp ((hperm.map _).nodup_iff.mpr hsub)
  rw [List.pairwise_map]
  refine (hsorted.and hkeys).imp_of_mem ?_
  rintro a b ha hb ⟨hle, hne⟩
  refine lt_of_le_of_ne hle fun heq => hne ?_
  rw [(mem_memberships.mp ha).2, (mem_memberships.mp hb).2, heq]

end Members

section Settling
variable {s s' : WorkTables δ} {operation : OperationRow} {d : SourceDisposition}

theorem settleable_congr {m : OperationSourceRow}
    (hsource : s'.sources.find? (m.chatJid, m.sourceSeq) = s.sources.find? (m.chatJid, m.sourceSeq))
    (hqueued : s'.queuedInputs.find? (m.operationId, m.sourceSeq) =
      s.queuedInputs.find? (m.operationId, m.sourceSeq)) : settleable s' m = settleable s m := by
  unfold settleable
  rw [hsource, hqueued]

/-- A source that is held is closed. -/
theorem exists_closeSource {source : SourceRow δ}
    (hsource : s.sources.find? (operation.chatJid, d.sourceSeq.1) = some source)
    (hheld : source.state = .claimed ∨ source.state = .queued) :
    ∃ sources, s.sources.update?
      (fun r => decide (r.chatJid = operation.chatJid) && decide (r.sourceSeq = d.sourceSeq.1) &&
        (decide (r.state = .claimed) || decide (r.state = .queued)))
      (fun r => { r with state := d.state, dispositionReason := some d.reason }) =
        some (sources, 1) := by
  have hkey : (source.chatJid, source.sourceSeq) = (operation.chatJid, d.sourceSeq.1) :=
    Table.key_of_find? hsource
  have hcheck : 1 ≤ source.sourceSeq := Table.check_of_find? hsource
  rw [Prod.mk.injEq] at hkey
  refine Table.exists_update? (sourceKey ?_) (fun _ _ => rfl) (fun _ _ => rfl) hsource ?_ hcheck
  · intro r hr
    simp only [Bool.and_eq_true, decide_eq_true_eq] at hr
    exact hr.1
  · simpa [hkey] using hheld

/-- A queued input that is not closed is closed with its source, where there is one. -/
theorem exists_closeQueued
    (hfiled : ∀ q, s.queuedInputs.find? (operation.operationId, d.sourceSeq.1) = some q →
      q.state = .accepted ∨ q.state = .queued) :
    ∃ closed, s.queuedInputs.update?
      (fun q => decide (q.operationId = operation.operationId) &&
        decide (q.sourceSeq = d.sourceSeq.1) &&
        (decide (q.state = .accepted) || decide (q.state = .queued)))
      (fun q => { q with state := queueStateFor d.state }) = some closed ∧
      (decide (closed.2 = 1) ||
        (s.queuedInputs.find? (operation.operationId, d.sourceSeq.1)).isNone) = true := by
  set filed := fun q : QueuedInputRow => decide (q.operationId = operation.operationId) &&
    decide (q.sourceSeq = d.sourceSeq.1) &&
    (decide (q.state = .accepted) || decide (q.state = .queued)) with hdef
  have hkey : ∀ q, filed q = true →
      queuedInputSchema.key q = (operation.operationId, d.sourceSeq.1) := by
    intro q hq
    simp only [hdef, Bool.and_eq_true, decide_eq_true_eq] at hq
    exact Prod.ext hq.1.1 hq.1.2
  cases hq : s.queuedInputs.find? (operation.operationId, d.sourceSeq.1) with
  | some q =>
    have hqkey : (q.operationId, q.sourceSeq) = (operation.operationId, d.sourceSeq.1) :=
      Table.key_of_find? hq
    rw [Prod.mk.injEq] at hqkey
    obtain ⟨queuedInputs, hupdate⟩ := Table.exists_update?
      (f := fun q : QueuedInputRow => { q with state := queueStateFor d.state }) hkey
      (fun _ _ => rfl) (fun _ _ => rfl) hq (by simpa [hdef, hqkey] using hfiled q hq) trivial
    exact ⟨(queuedInputs, 1), hupdate, rfl⟩
  | none =>
    cases hupdate : s.queuedInputs.update? filed
        (fun q => { q with state := queueStateFor d.state }) with
    | none =>
      rw [Table.update?_eq_none (by intro r _; rfl) (by intro r _; rfl)] at hupdate
      obtain ⟨r, -, -, hcheck⟩ := hupdate
      exact (hcheck trivial).elim
    | some closed => exact ⟨closed, rfl, by simp⟩

/-- What can be settled is held, and its queued input is not closed. -/
theorem settleable_iff {m : OperationSourceRow} : settleable s m = true ↔
    ∃ source, s.sources.find? (m.chatJid, m.sourceSeq) = some source ∧
      ((source.state = .claimed ∧ ∀ q, s.queuedInputs.find? (m.operationId, m.sourceSeq) = some q →
          q.state = .accepted) ∨
        (source.state = .queued ∧ ∃ q, s.queuedInputs.find? (m.operationId, m.sourceSeq) = some q ∧
          q.state = .queued)) := by
  unfold settleable
  rw [Option.any_eq_true]
  simp only [Bool.or_eq_true, Bool.and_eq_true, decide_eq_true_eq, Option.all_eq_true,
    Option.any_eq_true]

/-- A member that can be settled is settled. -/
theorem exists_settleSource
    (hmember : ⟨operation.chatJid, operation.operationId, d.sourceSeq.1⟩ ∈ s.operationSources.rows)
    (hsettleable : settleable s ⟨operation.chatJid, operation.operationId, d.sourceSeq.1⟩ = true) :
    ∃ s', settleSource operation d s = .ok s' := by
  obtain ⟨source, hsource, hstates⟩ := settleable_iff.mp hsettleable
  obtain ⟨sources, hsources⟩ := exists_closeSource hsource (hstates.imp And.left And.left)
  obtain ⟨closed, hclosed, hcounted⟩ := @exists_closeQueued _ s operation d (by
      intro q hq
      rcases hstates with ⟨-, haccepted⟩ | ⟨-, q', hq', hqueued⟩
      · exact Or.inl (haccepted q hq)
      · rw [hq] at hq'
        cases hq'
        exact Or.inr hqueued)
  refine ⟨{ s with sources := sources, queuedInputs := closed.1 }, ?_⟩
  unfold settleSource
  refine demand_bind_eq_ok.mpr ⟨?_, settleConstrained_bind_eq_ok.mpr ⟨_, hsources, ?_⟩⟩
  · rw [Bool.and_eq_true, List.any_eq_true]
    exact ⟨⟨_, hmember, decide_eq_true rfl⟩, hsettleable⟩
  · exact demand_bind_eq_ok.mpr ⟨decide_eq_true rfl, settleConstrained_bind_eq_ok.mpr
      ⟨_, hclosed, demand_bind_eq_ok.mpr ⟨hcounted, rfl⟩⟩⟩

/-- Members that can be settled are settled one after another. -/
theorem exists_settleSources {ds : List SourceDisposition}
    (hdistinct : (ds.map fun d => d.sourceSeq.1).Nodup)
    (hall : ∀ d ∈ ds,
      ⟨operation.chatJid, operation.operationId, d.sourceSeq.1⟩ ∈ s.operationSources.rows ∧
        settleable s ⟨operation.chatJid, operation.operationId, d.sourceSeq.1⟩ = true) :
    ∃ s', settleSources operation ds s = .ok s' := by
  induction ds generalizing s with
  | nil => exact ⟨s, rfl⟩
  | cons d ds ih =>
    rw [List.map_cons, List.nodup_cons] at hdistinct
    rw [List.forall_mem_cons] at hall
    obtain ⟨⟨hmember, hsettleable⟩, hrest⟩ := hall
    obtain ⟨u, hu⟩ := exists_settleSource hmember hsettleable
    obtain ⟨⟨-, -, hmembers, -⟩, hsources, hqueued⟩ := settleSource_others hu
    obtain ⟨s', hs'⟩ := ih (s := u) hdistinct.2 (by
      intro e he
      obtain ⟨hm, hset⟩ := hrest e he
      have hne : e.sourceSeq.1 ≠ d.sourceSeq.1 :=
        fun heq => hdistinct.1 (heq ▸ List.mem_map_of_mem he)
      refine ⟨hmembers ▸ hm, ?_⟩
      rw [settleable_congr (hsources _ ?_) (hqueued _ ?_)]
      · exact hset
      · exact fun heq => hne (Prod.mk.inj heq).2
      · exact fun heq => hne (Prod.mk.inj heq).2)
    exact ⟨s', bind_eq_ok.mpr ⟨u, hu, hs'⟩⟩

end Settling

section Closing
variable {s s' : WorkTables δ} {operation : OperationRow} {chat : ChatRow}

/-- The consumed prefix of a chat ends before its next number. -/
theorem consumed_lt_next (hs : s.toLedger.Sound)
    (hchat : s.chats.find? operation.chatJid = some chat) :
    chat.consumedThroughSourceSeq < chat.nextSourceSeq := by
  have hof := chatOf_of_find? hchat
  have hpositive : 1 ≤ chat.nextSourceSeq := Table.check_of_find? hchat
  by_contra hle
  have hclosed := (hs.frontier operation.chatJid).1 chat.consumedThroughSourceSeq
  rw [hof] at hclosed
  have hfound := hclosed (by omega) le_rfl
  unfold sourceClosed at hfound
  obtain ⟨row, hrow, -⟩ := Option.map_eq_some_iff.mp hfound
  have hnumber := (hs.numbered operation.chatJid chat.consumedThroughSourceSeq).mp
    (by rw [hrow]; rfl)
  rw [hof] at hnumber
  omega

/-- A sound ledger computes the frontier of every chat. -/
theorem exists_computeFrontier (hs : s.toLedger.Sound)
    (hchat : s.chats.find? operation.chatJid = some chat) :
    ∃ frontier, computeFrontier chat s = .ok frontier ∧ frontier < chat.nextSourceSeq := by
  have hjid : chat.chatJid = operation.chatJid := Table.key_of_find? hchat
  have hof := chatOf_of_find? hchat
  have hconsumed := consumed_lt_next hs hchat
  have hentries : ∀ k, chat.consumedThroughSourceSeq < k →
      k ≤ chat.consumedThroughSourceSeq +
        (chat.nextSourceSeq - 1 - chat.consumedThroughSourceSeq) →
      (sourceClosed s.toLedger chat.chatJid k).isSome := by
    intro k hlow hhigh
    unfold sourceClosed
    rw [Option.isSome_map, hs.numbered, hjid, hof]
    omega
  obtain ⟨frontier, hfrontier⟩ := exists_advance hentries
  have hcompute : computeClosedSourceFrontier s.toLedger chat.chatJid chat.consumedThroughSourceSeq
      chat.nextSourceSeq = .ok frontier := by
    unfold computeClosedSourceFrontier
    rw [if_neg (by omega)]
    exact require_eq_ok.mpr hfrontier
  refine ⟨frontier, by rw [computeFrontier, hcompute], ?_⟩
  have hbounds := advance_bounds hfrontier
  omega

theorem exists_terminalise (request : CommitTerminalRequest δ)
    (hrow : s.operations.find? operation.operationId = some operation)
    (hopen : operation.terminal = none) (messageRowId : Option PositiveInteger) :
    ∃ s', terminalise request operation messageRowId s = .ok s' := by
  obtain ⟨operations, hupdate⟩ := Table.exists_update?_freed (t := s.operations)
    (p := fun r => decide (r.operationId = operation.operationId) &&
      decide (r.chatJid = operation.chatJid) && decide (r.version = operation.version) &&
      decide (r.phase = operation.phase) && r.terminal.isNone)
    (f := fun r => { r with
      version := operation.version + 1
      phase := .terminal
      terminal := some ⟨request.disposition, messageRowId, request.errorCode,
        request.committedAt⟩ }) (k := operation.operationId) (r := operation)
    (by
      intro r hr
      simp only [Bool.and_eq_true, decide_eq_true_eq] at hr
      exact hr.1.1.1.1)
    (by intro r _; rfl) (by intro r _; rfl) hrow (by simp [hopen])
    (by intro r _ _; exact Nat.succ_pos _)
  exact ⟨_, settleConstrained_bind_eq_ok.mpr ⟨_, hupdate,
    demand_bind_eq_ok.mpr ⟨decide_eq_true rfl, rfl⟩⟩⟩

theorem exists_releaseOwner (hchat : s.chats.find? operation.chatJid = some chat)
    (hactive : chat.activeOperationId = some operation.operationId) (frontier : ℕ) :
    ∃ s', releaseOwner operation chat frontier s = .ok s' := by
  have hjid : chat.chatJid = operation.chatJid := Table.key_of_find? hchat
  have hcheck : 1 ≤ chat.nextSourceSeq := Table.check_of_find? hchat
  obtain ⟨chats, hupdate⟩ := Table.exists_update? (t := s.chats)
    (p := fun r : ChatRow => decide (r.chatJid = operation.chatJid) &&
      decide (r.consumedThroughSourceSeq = chat.consumedThroughSourceSeq) &&
      decide (r.activeOperationId = some operation.operationId))
    (f := fun r : ChatRow =>
      { r with consumedThroughSourceSeq := frontier, activeOperationId := none })
    (k := operation.chatJid)
    (by
      intro r hr
      simp only [Bool.and_eq_true, decide_eq_true_eq] at hr
      exact hr.1.1)
    (by intro r _; rfl) (by intro r _; rfl) hchat (by simp [hjid, hactive])
    hcheck
  exact ⟨_, settleConstrained_bind_eq_ok.mpr ⟨_, hupdate,
    demand_bind_eq_ok.mpr ⟨decide_eq_true rfl, rfl⟩⟩⟩

end Closing

section Requests

/-- The commit that completes an operation without a timeline. -/
def closingRequest (operation : OperationRow) (version : PositiveInteger) (key : Text) (digest : δ)
    (dispositions : List SourceDisposition) (committedAt : Instant) : CommitTerminalRequest δ where
  effect := ⟨key, digest, operation.operationId, none, operation.operationId, .privateClass⟩
  expectedChatJid := operation.chatJid
  expectedVersion := version
  expectedHarness := operation.harness
  disposition := .completed
  errorCode := none
  terminalAuthorityRef := none
  timeline := .none operation.chatJid
  sourceDispositions := dispositions
  outboxIntents := []
  committedAt := committedAt

/-- What a commit relies on outside the two stores: the hash of a request leaves out its own field,
a commit without a timeline writes nothing there, and the host accepts the commit. -/
structure SettlementHost.Serves (H : SettlementHost δ Ω) : Prop where
  hashed : ∀ request digest, H.commitHash
    { request with effect := { request.effect with requestHash := digest } } = H.commitHash request
  untold : ∀ host request chatJid, request.timeline = .none chatJid →
    H.writeTimeline host request = .ok (none, host)
  accepted : ∀ host commit, ∃ host', H.terminalEffects host commit = .ok host'

/-- Every member is disposed of. -/
theorem exists_dispositions (reason : Text) {members : List OperationSourceRow}
    (h : ∀ m ∈ members, 1 ≤ m.sourceSeq ∧ m.sourceSeq ≤ maxSafeInteger) :
    ∃ ds : List SourceDisposition,
      ds.map (fun d => d.sourceSeq.1) = members.map OperationSourceRow.sourceSeq ∧
        ∀ d ∈ ds, d.state = .disposed := by
  induction members with
  | nil => exact ⟨[], rfl, by simp⟩
  | cons m members ih =>
    rw [List.forall_mem_cons] at h
    obtain ⟨ds, hseqs, hstates⟩ := ih h.2
    refine ⟨⟨⟨m.sourceSeq, h.1⟩, .disposed, reason⟩ :: ds, ?_, ?_⟩
    · rw [List.map_cons, List.map_cons, hseqs]
    · rw [List.forall_mem_cons]
      exact ⟨rfl, hstates⟩

theorem exists_latest (instants : List Instant) : ∃ at' : Instant, ∀ i ∈ instants, i ≤ at' := by
  have : Nonempty Instant := ⟨sampleOpening⟩
  obtain ⟨at', h⟩ := Finset.exists_le instants.toFinset
  exact ⟨at', fun i hi => h i (List.mem_toFinset.mpr hi)⟩

theorem exists_key [DecidableEq δ] (s : SettlementState δ Ω) :
    ∃ key : Text, s.commits.find? key = none := by
  have : Infinite Text := by
    refine Infinite.of_injective
      (fun n : ℕ => (⟨String.ofList (List.replicate (n + 1) 'a'), ?_⟩ : Text)) ?_
    · simp [text, isTrimmed]
    · intro m n h
      have hlists := String.ofList_injective (Subtype.mk.inj h)
      have hlengths := congrArg List.length hlists
      simpa using hlengths
  obtain ⟨key, hkey⟩ := Infinite.exists_notMem_finset
    (s.commits.rows.map CommitRow.idempotencyKey).toFinset
  refine ⟨key, Table.find?_eq_none.mpr fun r hr heq => hkey ?_⟩
  rw [List.mem_toFinset]
  exact heq ▸ List.mem_map_of_mem hr

end Requests

section Completion
variable [DecidableEq δ] {s : SettlementState δ Ω} {operation : OperationRow}

namespace Ledger

/-- A member of an open operation is closed only together with its queued input. -/
def Filed (l : Ledger δ) : Prop :=
  ∀ r ∈ l.operationSources.rows, l.queuedInputs.find? (r.operationId, r.sourceSeq) = none →
    targetOpen r.chatJid (l.operations.find? r.operationId) →
      sourceClosed l r.chatJid r.sourceSeq ≠ some true

end Ledger

/-- Between two calls of the stores. -/
structure SettlementState.Settled (s : SettlementState δ Ω) : Prop where
  sound : s.toLedger.Sound
  filed : s.toLedger.Filed
  committed : ∀ r ∈ s.commits.rows, (s.operations.find? r.operationId).any
    fun row => decide (row.phase = .terminal)

/-- No queued input of the operation has been consumed or disposed of, and its numbers stay in
their ranges. -/
structure Closable (operation : OperationRow) (s : WorkTables δ) : Prop where
  filed : ∀ n q, s.queuedInputs.find? (operation.operationId, n) = some q →
    q.state = .accepted ∨ q.state = .queued
  few : (memberships s operation).length ≤ 1000
  version : operation.version < maxSafeInteger
  numbered : (chatOf s.chats operation.chatJid).nextSourceSeq ≤ maxSafeInteger

/-- A runtime without faults, to which every operation belongs. -/
def SettlementRuntime.faultFree : SettlementRuntime :=
  ⟨false, none, fun _ => true, fun _ => true, false⟩

/-- A completing commit without a timeline succeeds, and no commit finds the sources corrupt. -/
structure CanSettle (H : SettlementHost δ Ω) (operation : OperationRow)
    (s : SettlementState δ Ω) : Prop where
  completes : ∃ request : CommitTerminalRequest δ,
    request.effect.operationId = operation.operationId ∧ request.disposition = .completed ∧
      (∃ chatJid, request.timeline = .none chatJid) ∧
      ∃ commit, (commitTerminal H .faultFree (some request) s).1 = .ok commit
  intact : ∀ request, validateSources request operation s.toWorkTables ≠ .error .corruptState

omit [DecidableEq δ] in
/-- The members of an open operation can be settled exactly if none of its queued inputs is
closed. -/
theorem settleable_all_iff {s : WorkTables δ} (hs : s.toLedger.Sound) (hf : s.toLedger.Filed)
    (hrow : s.operations.find? operation.operationId = some operation)
    (hopen : operation.phase ≠ .terminal) :
    (memberships s operation).all (settleable s) = true ↔
      ∀ n q, s.queuedInputs.find? (operation.operationId, n) = some q →
        q.state = .accepted ∨ q.state = .queued := by
  rw [List.all_eq_true]
  constructor
  · intro hall n q hq
    obtain ⟨hmember, -⟩ := hs.queued.1 _ _ _ hq
    obtain ⟨source, -, hstates⟩ := settleable_iff.mp
      (hall _ (mem_memberships.mpr ⟨hmember, rfl⟩))
    rcases hstates with ⟨-, haccepted⟩ | ⟨-, q', hq', hqueued⟩
    · exact Or.inl (haccepted q hq)
    · dsimp only at hq'
      rw [hq] at hq'
      cases hq'
      exact Or.inr hqueued
  · intro hqueued m hm
    obtain ⟨hmember, hid⟩ := mem_memberships.mp hm
    obtain ⟨hop, hsome, htaken, -⟩ := hs.members m hmember
    have htarget : targetOpen m.chatJid (s.operations.find? m.operationId) = true := by
      rw [hid, hrow] at hop ⊢
      simp only [Option.any_some, decide_eq_true_eq] at hop
      simp [targetOpen, hop, hopen]
    obtain ⟨source, hsource⟩ :
        ∃ source, s.sources.find? (m.chatJid, m.sourceSeq) = some source := by
      cases hsource : s.sources.find? (m.chatJid, m.sourceSeq) with
      | none =>
        rw [stateOf, hsource] at hsome
        exact absurd rfl hsome
      | some source => exact ⟨source, rfl⟩
    have hstate := stateOf_of_find? hsource
    refine settleable_iff.mpr ⟨source, hsource, ?_⟩
    cases hq : s.queuedInputs.find? (m.operationId, m.sourceSeq) with
    | some q =>
      obtain ⟨hmember', hst⟩ := hs.queued.1 _ _ _ hq
      have heq : q.chatJid = m.chatJid := by
        have hfound := Table.find?_of_mem hmember
        have hfound' := Table.find?_of_mem hmember'
        change s.operationSources.find? (m.operationId, m.sourceSeq) = some m at hfound
        change s.operationSources.find? (m.operationId, m.sourceSeq) = some _ at hfound'
        rw [hfound, Option.some_inj] at hfound'
        rw [hfound']
      rw [heq, hstate, Option.some_inj] at hst
      rcases hqueued m.sourceSeq q (hid ▸ hq) with haccepted | hqueued
      · rw [haccepted] at hst
        refine Or.inl ⟨hst, ?_⟩
        rintro q' ⟨⟩
        exact haccepted
      · rw [hqueued] at hst
        exact Or.inr ⟨hst, q, rfl, hqueued⟩
    | none =>
      have hclosed := hf m hmember hq htarget
      rw [sourceClosed_eq, hstate] at hclosed
      have hnot : source.state ≠ .queued := by
        intro hst
        have hfound := hs.queued.2 m hmember (by rw [hstate, hst])
        rw [hq] at hfound
        cases hfound
      rw [hstate] at htaken
      refine Or.inl ⟨?_, ?_⟩
      · cases hst : source.state <;> simp_all [AcceptedSourceState.closed]
      · rintro q' ⟨⟩

/-- The conditions under which a completing request is in its normal form. -/
theorem closingRequest_normalised {version : PositiveInteger} {key : Text} {digest : δ}
    {ds : List SourceDisposition} {committedAt : Instant} {commitHash : CommitTerminalRequest δ → δ}
    (hversion : version.1 < maxSafeInteger) (hsome : ds ≠ []) (hfew : ds.length ≤ 1000)
    (hincreasing : (ds.map fun d => d.sourceSeq.1).Pairwise (· < ·))
    (hdisposed : ∀ d ∈ ds, d.state = .disposed)
    (hhash : commitHash (closingRequest operation version key digest ds committedAt) = digest) :
    normalisedCommit commitHash (closingRequest operation version key digest ds committedAt) =
      true := by
  have hstates : ds.all (fun d => decide (d.state = .consumed) || decide (d.state = .disposed)) =
      true := by
    rw [List.all_eq_true]
    intro d hd
    rw [hdisposed d hd]
    rfl
  unfold normalisedCommit
  rw [hhash]
  simp only [closingRequest, TerminalTimelineWrite.mediaIds, validDispositionFields, hstates]
  simp [hversion, hsome, hfew, hincreasing]

omit [DecidableEq δ] in
/-- The chat of an open operation. -/
theorem exists_chat (hs : s.toLedger.Sound)
    (hrow : s.operations.find? operation.operationId = some operation)
    (hopen : operation.phase ≠ .terminal) :
    ∃ chat, s.chats.find? operation.chatJid = some chat ∧
      chat.activeOperationId = some operation.operationId := by
  have hactive : (chatOf s.chats operation.chatJid).activeOperationId =
      some operation.operationId := by
    rw [hs.owned, hrow]
    simp [targetOpen, hopen]
  cases hchat : s.chats.find? operation.chatJid with
  | none =>
    rw [chatOf, hchat] at hactive
    cases hactive
  | some chat =>
    rw [chatOf_of_find? hchat] at hactive
    exact ⟨chat, rfl, hactive⟩

omit [DecidableEq δ] in
/-- The sources of an operation that is settling pass a request that lists them. -/
theorem validateSources_ok {request : CommitTerminalRequest δ} {s : WorkTables δ}
    (hs : s.toLedger.Sound)
    (hrow : s.operations.find? operation.operationId = some operation)
    (hsettleable : (memberships s operation).all (settleable s) = true)
    (hseqs : request.sourceDispositions.map (fun d => d.sourceSeq.1) =
      (memberships s operation).map OperationSourceRow.sourceSeq) :
    validateSources request operation s = .ok () := by
  have hprimary : memberships s operation ≠ [] :=
    List.ne_nil_of_mem (mem_memberships.mpr ⟨hs.primary _ _ hrow, rfl⟩)
  refine demand_bind_eq_ok.mpr ⟨?_, demand_eq_ok.mpr hsettleable⟩
  rw [Bool.and_eq_true, decide_eq_true_eq, decide_eq_true_eq]
  exact ⟨hprimary, hseqs.symm⟩

omit [DecidableEq δ] in
/-- The sources that a request lists are settled. -/
theorem settleSources_ok {ds : List SourceDisposition} {s : WorkTables δ} (hs : s.toLedger.Sound)
    (hrow : s.operations.find? operation.operationId = some operation)
    (hsettleable : (memberships s operation).all (settleable s) = true)
    (hseqs : ds.map (fun d => d.sourceSeq.1) =
      (memberships s operation).map OperationSourceRow.sourceSeq) :
    ∃ settled, settleSources operation ds s = .ok settled := by
  refine exists_settleSources ?_ ?_
  · rw [hseqs]
    exact memberships_increasing.imp ne_of_lt
  · intro d hd
    have hmem : d.sourceSeq.1 ∈ (memberships s operation).map OperationSourceRow.sourceSeq := by
      rw [← hseqs]
      exact List.mem_map_of_mem hd
    obtain ⟨m, hm, hseq⟩ := List.mem_map.mp hmem
    obtain ⟨hmember, hid⟩ := mem_memberships.mp hm
    have heq : m = ⟨operation.chatJid, operation.operationId, d.sourceSeq.1⟩ := by
      obtain ⟨c, o, n⟩ := m
      cases hid
      cases hseq
      rw [member_chat hs.members hrow hmember]
    rw [← heq]
    exact ⟨hmember, List.all_eq_true.mp hsettleable m hm⟩

omit [DecidableEq δ] in
/-- An operation whose sources can be settled is settled by a completing request. -/
theorem exists_applySettlement (hH : H.Serves) (hs : s.Settled)
    (hrow : s.operations.find? operation.operationId = some operation)
    (hphase : operation.phase = .settling) (hcancel : operation.cancellation = none)
    (hclosable : Closable operation s.toWorkTables) {version : PositiveInteger} {key : Text}
    (digest : δ) {ds : List SourceDisposition} {committedAt : Instant}
    (hversion : version.1 = operation.version) (hkey : s.commits.find? key = none)
    (hseqs : ds.map (fun d => d.sourceSeq.1) =
      (memberships s.toWorkTables operation).map OperationSourceRow.sourceSeq)
    (hdisposed : ∀ d ∈ ds, d.state = .disposed)
    (hlate : ∀ r ∈ s.sources.rows, r.acceptedAt ≤ committedAt) :
    ∃ applied, applySettlement H
      (closingRequest operation version key digest ds committedAt) s = .ok applied := by
  have hopen : operation.phase ≠ .terminal := by
    rw [hphase]
    simp
  have hterminal : operation.terminal = none := by
    rw [← Option.not_isSome_iff_eq_none, ← (hs.sound.phases _ _ hrow).settled]
    exact hopen
  have hpositive : 1 ≤ operation.version := Table.check_of_find? hrow
  obtain ⟨chat, hchat, hactive⟩ := exists_chat hs.sound hrow hopen
  have hnext : chat.nextSourceSeq ≤ maxSafeInteger :=
    chatOf_of_find? hchat ▸ hclosable.numbered
  set request := closingRequest operation version key digest ds committedAt with hrequest
  have hread : readOperation s.toWorkTables request.effect.operationId = .ok (operation, chat) := by
    have hconsumed := consumed_lt_next hs.sound hchat
    have hversion := hclosable.version
    change readOperation s.toWorkTables operation.operationId = _
    unfold readOperation
    simp only [hrow, hchat]
    rw [if_pos (by omega)]
  have hauthorised : authoriseOperation request operation chat = .ok () := by
    unfold authoriseOperation
    simp [hrequest, closingRequest, demand, ok_bind, hversion, hterminal, hactive,
      TerminalTimelineWrite.chatJid, dispositionAllowed, hphase, hcancel]
  have htemporal : validateTemporalAuthority H request operation s = .ok () := by
    have hmembers : (memberSources s.toWorkTables operation).all (fun r =>
        !decide (committedAt < r.acceptedAt)) = true := by
      rw [List.all_eq_true]
      intro r hr
      have hle := hlate r (List.mem_of_mem_filter hr)
      simpa using hle
    refine demand_eq_ok.mpr ?_
    rw [hcancel]
    simp only [hrequest, closingRequest, hmembers, TerminalTimelineWrite.replaces]
    rfl
  have houtbox : validateOutboxAuthority request operation s.toWorkTables = .ok () :=
    demand_eq_ok.mpr rfl
  have hsettleable := (settleable_all_iff hs.sound hs.filed hrow hopen).mpr hclosable.filed
  have hsources : validateSources request operation s.toWorkTables = .ok () :=
    validateSources_ok hs.sound hrow hsettleable hseqs
  have hmedia : validateMedia H request s.host = .ok () := demand_eq_ok.mpr rfl
  have hwrite : H.writeTimeline s.host request = .ok (none, s.host) := hH.untold _ _ _ rfl
  obtain ⟨settled, hsettled⟩ := settleSources_ok hs.sound hrow hsettleable hseqs
  obtain ⟨hmoves, hoperations, hchats, -, -⟩ := @settleSources_spec δ s.toWorkTables settled
    False operation ds hrow (by
      intro d hd
      rw [hdisposed d hd]
      rfl) hsettled
  obtain ⟨frontier, hfrontier, hlt⟩ := exists_computeFrontier (hmoves.sound hs.sound)
    (hchats ▸ hchat)
  obtain ⟨terminalised, hterminalised⟩ := exists_terminalise request
    (hoperations ▸ hrow) hterminal none
  obtain ⟨operations, rfl, -⟩ := terminalise_spec (hoperations ▸ hrow) hterminalised
  obtain ⟨released, hreleased⟩ := exists_releaseOwner
    (s := { settled with operations := operations }) (hchats ▸ hchat) hactive frontier
  have hfresh : s.commits.Fresh (commitRowOf request operation
      (commitOf request operation none frontier)) := by
    refine ⟨hkey, ?_, ?_⟩
    · rintro v ⟨⟩ r hr heq
      have hid : r.operationId = operation.operationId := Option.some_inj.mp heq
      have hdone := hs.committed r hr
      rw [hid, hrow] at hdone
      exact hopen (of_decide_eq_true hdone)
    · refine ⟨?_, ?_, ?_, Nat.zero_le _, Nat.zero_le _⟩
      · change 2 ≤ operation.version + 1
        omega
      · change operation.version + 1 ≤ maxSafeInteger
        have hbound := hclosable.version
        omega
      · change frontier ≤ maxSafeInteger
        omega
  obtain ⟨commits, hcommits, -⟩ := Table.exists_insert? hfresh
  refine ⟨(commitOf request operation none frontier, ⟨released, commits, s.commitOutbox, s.host⟩),
    ?_⟩
  unfold applySettlement
  exact bind_eq_ok.mpr ⟨_, hread, bind_eq_ok.mpr ⟨_, hauthorised, bind_eq_ok.mpr ⟨_, htemporal,
    bind_eq_ok.mpr ⟨_, houtbox, bind_eq_ok.mpr ⟨_, hsources, bind_eq_ok.mpr ⟨_, hmedia,
    bind_eq_ok.mpr ⟨_, hwrite, bind_eq_ok.mpr ⟨_, hsettled, bind_eq_ok.mpr ⟨_, hfrontier,
    bind_eq_ok.mpr ⟨_, hterminalised, bind_eq_ok.mpr ⟨_, hreleased, bind_eq_ok.mpr ⟨_, rfl,
    settleConstrained_bind_eq_ok.mpr ⟨_, hcommits, bind_eq_ok.mpr ⟨_, rfl, rfl⟩⟩⟩⟩⟩⟩⟩⟩⟩⟩⟩⟩⟩⟩

omit [DecidableEq δ] in
/-- No commit names an open operation. -/
theorem not_committed (hs : s.Settled)
    (hrow : s.operations.find? operation.operationId = some operation)
    (hopen : operation.phase ≠ .terminal) {r : CommitRow δ} (hr : r ∈ s.commits.rows) :
    r.operationId ≠ operation.operationId := by
  intro hid
  have hdone := hs.committed r hr
  rw [hid, hrow] at hdone
  exact hopen (of_decide_eq_true hdone)

theorem reconcile_new (hs : s.Settled)
    (hrow : s.operations.find? operation.operationId = some operation)
    (hopen : operation.phase ≠ .terminal) {request : CommitTerminalRequest δ}
    (hid : request.effect.operationId = operation.operationId)
    (hkey : s.commits.find? request.effect.idempotencyKey = none) :
    reconcile H request s = .ok none := by
  have hnone : (s.commits.rows.find? fun r =>
      decide (r.operationId = request.effect.operationId)) = none := by
    rw [List.find?_eq_none]
    intro r hr
    rw [hid]
    simpa using not_committed hs hrow hopen hr
  unfold reconcile
  rw [hkey]
  dsimp only
  rw [hnone]

/-- A request for an open operation is never answered from an earlier commit. -/
theorem reconcile_ne_some (hs : s.Settled)
    (hrow : s.operations.find? operation.operationId = some operation)
    (hopen : operation.phase ≠ .terminal) {request : CommitTerminalRequest δ}
    (hid : request.effect.operationId = operation.operationId) (commit : TerminalCommit) :
    reconcile H request s ≠ .ok (some commit) := by
  intro h
  unfold reconcile at h
  split at h
  · rename_i row hrow'
    obtain ⟨known, hknown, h⟩ := bind_eq_ok.mp h
    obtain ⟨hsame, -⟩ := demand_bind_eq_ok.mp h
    unfold materialiseCommit at hknown
    obtain ⟨-, hknown⟩ := demand_bind_eq_ok.mp hknown
    cases hknown
    simp only [Bool.and_eq_true, decide_eq_true_eq] at hsame
    exact not_committed hs hrow hopen (Table.mem_of_find? hrow') (hsame.2.trans hid)
  · split at h
    · cases h
    · obtain ⟨-, -, h⟩ := bind_eq_ok.mp h
      cases h

/-- A commit that succeeds for an open operation has been applied. -/
theorem commitTerminal_applied (hs : s.Settled)
    (hrow : s.operations.find? operation.operationId = some operation)
    (hopen : operation.phase ≠ .terminal) {runtime : SettlementRuntime}
    {request : CommitTerminalRequest δ} (hid : request.effect.operationId = operation.operationId)
    {commit : TerminalCommit} (h : (commitTerminal H runtime (some request) s).1 = .ok commit) :
    normalisedCommit H.commitHash request = true ∧
      ∃ applied, applySettlement H request s = .ok applied := by
  have hnew := reconcile_ne_some (H := H) hs hrow hopen hid
  unfold commitTerminal at h
  dsimp only at h
  by_cases hnormal : normalisedCommit H.commitHash request = true
  swap
  · rw [if_pos (by simpa using hnormal)] at h
    cases h
  rw [if_neg (by simp [hnormal])] at h
  refine ⟨hnormal, ?_⟩
  cases hreconciled : reconcile H request s with
  | error fault =>
    rw [hreconciled] at h
    cases h
  | ok known =>
    cases known with
    | some known => exact absurd hreconciled (hnew known)
    | none =>
      rw [hreconciled] at h
      dsimp only at h
      by_cases hbefore : runtime.beforeEffect = true
      · rw [if_pos hbefore] at h
        cases h
      rw [if_neg hbefore] at h
      cases hresolved : runtime.resolved with
      | some tag =>
        rw [hresolved] at h
        cases h
      | none =>
        rw [hresolved] at h
        dsimp only at h
        cases hcommit : commitWithinTransaction H runtime request s with
        | error fault =>
          rw [hcommit] at h
          cases h
        | ok committed =>
          unfold commitWithinTransaction at hcommit
          obtain ⟨known, hknown, hcommit⟩ := bind_eq_ok.mp hcommit
          rw [hreconciled] at hknown
          cases hknown
          obtain ⟨-, hcommit⟩ := demand_bind_eq_ok.mp hcommit
          obtain ⟨applied, happlied, -⟩ := bind_eq_ok.mp hcommit
          exact ⟨applied, happlied⟩

/-- What an applied commit has checked. -/
theorem closable_of_applied (hs : s.Settled)
    (hrow : s.operations.find? operation.operationId = some operation)
    (hopen : operation.phase ≠ .terminal) {request : CommitTerminalRequest δ}
    (hid : request.effect.operationId = operation.operationId)
    (hnormal : normalisedCommit H.commitHash request = true)
    {commit : TerminalCommit} {t : SettlementState δ Ω}
    (h : applySettlement H request s = .ok (commit, t)) : Closable operation s.toWorkTables := by
  obtain ⟨row, chat, settled, frontier, messageRowId, happlied⟩ := applySettlement_spec h
  have hfound := happlied.found
  rw [happlied.id, hid, hrow] at hfound
  cases hfound
  have hauthorised := happlied.authorised
  unfold authoriseOperation at hauthorised
  obtain ⟨-, hauthorised⟩ := demand_bind_eq_ok.mp hauthorised
  obtain ⟨hversion, -⟩ := demand_bind_eq_ok.mp hauthorised
  obtain ⟨hseqs, hsettleable⟩ := demand_bind_eq_ok.mp happlied.valid
  simp only [Bool.and_eq_true, decide_eq_true_eq] at hversion hseqs
  simp only [normalisedCommit, Bool.and_eq_true, decide_eq_true_eq] at hnormal
  obtain ⟨⟨⟨⟨⟨⟨⟨⟨⟨⟨⟨⟨hbound, -⟩, hfew⟩, -⟩, -⟩, -⟩, -⟩, -⟩, -⟩, -⟩, -⟩, -⟩, -⟩ := hnormal
  refine ⟨(settleable_all_iff hs.sound hs.filed hrow hopen).mp (demand_eq_ok.mp hsettleable), ?_,
    ?_, ?_⟩
  · have hlengths := congrArg List.length hseqs.2
    rw [List.length_map, List.length_map] at hlengths
    rw [hlengths]
    exact hfew
  · rw [hversion]
    exact hbound
  · rw [chatOf_of_find? happlied.chatFound]
    exact happlied.numbered

/-- A new request in its normal form whose settlement applies is committed. -/
theorem commitTerminal_succeeds (hH : H.Serves) {request : CommitTerminalRequest δ}
    (hnormal : normalisedCommit H.commitHash request = true)
    (hnew : reconcile H request s = .ok none) {applied : TerminalCommit × SettlementState δ Ω}
    (happlied : applySettlement H request s = .ok applied) :
    (commitTerminal H .faultFree (some request) s).1 = .ok applied.1 := by
  obtain ⟨host, hhost⟩ := hH.accepted applied.2.host applied.1
  have hcommit : commitWithinTransaction H .faultFree request s =
      .ok (applied.1, { applied.2 with host := host }) := by
    unfold commitWithinTransaction
    refine bind_eq_ok.mpr ⟨none, hnew, demand_bind_eq_ok.mpr ⟨rfl, bind_eq_ok.mpr
      ⟨applied, happlied, bind_eq_ok.mpr ⟨host, hhost, demand_bind_eq_ok.mpr ⟨rfl, rfl⟩⟩⟩⟩⟩
  unfold SettlementRuntime.faultFree at hcommit ⊢
  simp [commitTerminal, hnormal, hnew, hcommit]

/-- A closable operation has a completing commit. -/
theorem exists_completion (hH : H.Serves) (hs : s.Settled)
    (hrow : s.operations.find? operation.operationId = some operation)
    (hphase : operation.phase = .settling) (hcancel : operation.cancellation = none)
    (hclosable : Closable operation s.toWorkTables) :
    ∃ request : CommitTerminalRequest δ,
      request.effect.operationId = operation.operationId ∧ request.disposition = .completed ∧
        (∃ chatJid, request.timeline = .none chatJid) ∧
        ∃ commit, (commitTerminal H .faultFree (some request) s).1 = .ok commit := by
  have hopen : operation.phase ≠ .terminal := by
    rw [hphase]
    simp
  have hpositive : 1 ≤ operation.version := Table.check_of_find? hrow
  have hseqs : ∀ m ∈ memberships s.toWorkTables operation,
      1 ≤ m.sourceSeq ∧ m.sourceSeq ≤ maxSafeInteger := by
    intro m hm
    obtain ⟨hmember, hid⟩ := mem_memberships.mp hm
    have hchat : operation.chatJid = m.chatJid :=
      member_chat hs.sound.members hrow (n := m.sourceSeq) (hid ▸ hmember)
    have hsome := (hs.sound.members m hmember).2.1
    obtain ⟨state, hstate⟩ := Option.ne_none_iff_exists'.mp hsome
    obtain ⟨source, hsource, -⟩ := Option.map_eq_some_iff.mp hstate
    have hnumber := (hs.sound.numbered m.chatJid m.sourceSeq).mp (by rw [hsource]; rfl)
    have hbound := hclosable.numbered
    rw [hchat] at hbound
    omega
  obtain ⟨ds, hds, hdisposed⟩ := exists_dispositions operation.operationId hseqs
  obtain ⟨committedAt, hlate⟩ := exists_latest (s.sources.rows.map SourceRow.acceptedAt)
  obtain ⟨key, hkey⟩ := exists_key s
  have hprimary := hs.sound.primary _ _ hrow
  obtain ⟨state, hstate⟩ := Option.ne_none_iff_exists'.mp (hs.sound.members _ hprimary).2.1
  obtain ⟨source, hsource, -⟩ := Option.map_eq_some_iff.mp hstate
  have hbound := hclosable.version
  let version : PositiveInteger := ⟨operation.version, hpositive, hbound.le⟩
  let digest := H.commitHash
    (closingRequest operation version key source.sourceHash ds committedAt)
  obtain ⟨applied, happlied⟩ := exists_applySettlement hH hs hrow hphase hcancel
    hclosable digest (show version.1 = _ from rfl) hkey hds hdisposed
    (fun r hr => hlate _ (List.mem_map_of_mem hr))
  refine ⟨closingRequest operation version key digest ds committedAt, rfl, rfl, ⟨_, rfl⟩,
    applied.1, ?_⟩
  refine commitTerminal_succeeds hH (closingRequest_normalised hbound ?_ ?_ ?_ hdisposed ?_)
    (reconcile_new hs hrow hopen rfl hkey) happlied
  · rintro rfl
    have hempty : memberships s.toWorkTables operation = [] := List.map_eq_nil_iff.mp hds.symm
    have hmember := mem_memberships.mpr ⟨hprimary, rfl⟩
    rw [hempty] at hmember
    cases hmember
  · have hlengths := congrArg List.length hds
    rw [List.length_map, List.length_map] at hlengths
    rw [hlengths]
    exact hclosable.few
  · rw [hds]
    exact memberships_increasing
  · exact hH.hashed
      (closingRequest operation version key source.sourceHash ds committedAt) digest

/-- An operation that is settling can be settled exactly if it is closable. -/
theorem canSettle_iff (hH : H.Serves) (hs : s.Settled)
    (hrow : s.operations.find? operation.operationId = some operation)
    (hphase : operation.phase = .settling) (hcancel : operation.cancellation = none) :
    CanSettle H operation s ↔ Closable operation s.toWorkTables := by
  have hopen : operation.phase ≠ .terminal := by
    rw [hphase]
    simp
  constructor
  · rintro ⟨⟨request, hid, -, -, commit, hcommit⟩, -⟩
    obtain ⟨hnormal, applied, happlied⟩ := commitTerminal_applied hs hrow hopen hid hcommit
    exact closable_of_applied hs hrow hopen hid hnormal happlied
  · intro hclosable
    refine ⟨exists_completion hH hs hrow hphase hcancel hclosable, ?_⟩
    intro request hcorrupt
    have hsettleable := (settleable_all_iff hs.sound hs.filed hrow hopen).mpr hclosable.filed
    unfold validateSources demand at hcorrupt
    dsimp only at hcorrupt
    rw [hsettleable, if_pos rfl] at hcorrupt
    split_ifs at hcorrupt with hlisted
    all_goals cases hcorrupt

end Completion

end Piclaw
