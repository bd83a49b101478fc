import Piclaw.WorkInvariant
import Piclaw.WorkSettlement

/-!
# Every call of the work ledger is a sequence of moves

Each apply function of the work store and each host call is read once: a transaction that returns
has made moves of the ledger. Only the cancellation of an operation that is already terminal, when
its decision is replayed, adopts a source late.
-/

namespace Piclaw
open Relational
open Relational.Table (Rewrites)
variable {δ Ω : Type} {P : Platform δ} {H : SettlementHost δ Ω} {s s' u : WorkTables δ}
  {late : Prop}

section Statements

theorem updateSources_eq_ok {p : SourceRow δ → Bool} {f : SourceRow δ → SourceRow δ} {n : ℕ}
    (h : updateSources s p f = .ok (s', n)) :
    ∃ t, s.sources.update? p f = some (t, n) ∧ s' = { s with sources := t } := by
  obtain ⟨⟨t, m⟩, ht, h⟩ := require_bind_eq_ok.mp h
  cases h
  exact ⟨t, ht, rfl⟩

theorem updateChats_eq_ok {p : ChatRow → Bool} {f : ChatRow → ChatRow} {n : ℕ}
    (h : updateChats s p f = .ok (s', n)) :
    ∃ t, s.chats.update? p f = some (t, n) ∧ s' = { s with chats := t } := by
  obtain ⟨⟨t, m⟩, ht, h⟩ := require_bind_eq_ok.mp h
  cases h
  exact ⟨t, ht, rfl⟩

theorem insertOperation_eq_ok {row : OperationRow} (h : insertOperation s row = .ok s') :
    ∃ t, s.operations.insert? row = some t ∧ s' = { s with operations := t } := by
  obtain ⟨t, ht, h⟩ := require_bind_eq_ok.mp h
  cases h
  exact ⟨t, ht, rfl⟩

theorem insertOperationSource_eq_ok {row : OperationSourceRow}
    (h : insertOperationSource s row = .ok s') :
    ∃ t, s.operationSources.insert? row = some t ∧ s' = { s with operationSources := t } := by
  obtain ⟨t, ht, h⟩ := require_bind_eq_ok.mp h
  cases h
  exact ⟨t, ht, rfl⟩

theorem updateOperations_eq_ok {p : OperationRow → Bool} {f : OperationRow → OperationRow} {n : ℕ}
    (h : updateOperations s p f = .ok (s', n)) :
    ∃ t, s.operations.update? p f = some (t, n) ∧ s' = { s with operations := t } := by
  obtain ⟨⟨t, m⟩, ht, h⟩ := require_bind_eq_ok.mp h
  cases h
  exact ⟨t, ht, rfl⟩

theorem updateQueuedInputs_eq_ok {p : QueuedInputRow → Bool} {f : QueuedInputRow → QueuedInputRow}
    {n : ℕ} (h : updateQueuedInputs s p f = .ok (s', n)) :
    ∃ t, s.queuedInputs.update? p f = some (t, n) ∧ s' = { s with queuedInputs := t } := by
  obtain ⟨⟨t, m⟩, ht, h⟩ := require_bind_eq_ok.mp h
  cases h
  exact ⟨t, ht, rfl⟩

theorem insertSource_eq_ok {row : SourceRow δ} (h : insertSource s row = .ok s') :
    ∃ t, s.sources.insert? row = some t ∧ s' = { s with sources := t } := by
  obtain ⟨t, ht, h⟩ := require_bind_eq_ok.mp h
  cases h
  exact ⟨t, ht, rfl⟩

theorem insertQueuedInput_eq_ok {row : QueuedInputRow} (h : insertQueuedInput s row = .ok s') :
    ∃ t, s.queuedInputs.insert? row = some t ∧ s' = { s with queuedInputs := t } := by
  obtain ⟨t, ht, h⟩ := require_bind_eq_ok.mp h
  cases h
  exact ⟨t, ht, rfl⟩

theorem writeWorkDecision_ledger {method : WorkMethod} {key : Text} {requestHash : δ}
    {value : WorkValue} (h : writeWorkDecision s method key requestHash value = .ok s') :
    s'.toLedger = s.toLedger := by
  obtain ⟨t, -, h⟩ := require_bind_eq_ok.mp h
  cases h
  rfl

theorem chatRow_eq_ok {chatJid : Text} {chat : ChatRow} (h : chatRow s chatJid = .ok chat) :
    s.chats.find? chatJid = some chat ∧ chat.nextSourceSeq ≤ maxSafeInteger := by
  unfold chatRow at h
  split at h
  · cases h
  · rename_i row hrow
    unfold requiredInteger at h
    split_ifs at h with hnext hconsumed
    · cases h
      exact ⟨hrow, hnext.2⟩
    all_goals cases h

theorem operationRow_eq_ok {operationId : Text} {row : Option OperationRow}
    (h : operationRow s operationId = .ok row) : s.operations.find? operationId = row := by
  unfold operationRow at h
  split at h
  · cases h
    assumption
  · rename_i found hfound
    obtain ⟨_, -, h⟩ := bind_eq_ok.mp h
    cases h
    exact hfound

theorem ensureChat_eq_ok {chatJid : Text} (h : ensureChat s chatJid = .ok s') :
    s'.sources = s.sources ∧ s'.operations = s.operations := by
  unfold ensureChat at h
  split_ifs at h with hsome
  · cases h
    exact ⟨rfl, rfl⟩
  · obtain ⟨chats, -, h⟩ := bind_eq_ok.mp h
    cases h
    exact ⟨rfl, rfl⟩

theorem nextPendingSource_pending {order : Option (List Text)} {chatJid : Text}
    {source : SourceRow δ} (h : nextPendingSource order s chatJid = some source) :
    source ∈ s.sources.rows ∧ source.chatJid = chatJid ∧ source.state = .pending := by
  have hmem : source ∈ pendingSources s chatJid := by
    unfold nextPendingSource at h
    dsimp only at h
    cases hrows : pendingSources s chatJid with
    | nil =>
      rw [hrows] at h
      cases h
    | cons first rest =>
      rw [hrows] at h
      cases order with
      | none =>
        cases h
        exact List.mem_cons_self
      | some order =>
        simp only [List.head?_cons, Option.some.injEq] at h
        cases hfound : order.findSome? fun id =>
            ((first :: rest).takeWhile queuedSource).find? fun r => decide (r.sourceId = id) with
        | none =>
          rw [hfound] at h
          rw [← h]
          exact List.mem_cons_self
        | some found =>
          rw [hfound] at h
          change found = source at h
          subst h
          obtain ⟨id, -, hfind⟩ := List.exists_of_findSome?_eq_some hfound
          exact (List.takeWhile_prefix _).subset (List.mem_of_find?_eq_some hfind)
  unfold pendingSources at hmem
  rw [List.mem_insertionSort, List.mem_filter] at hmem
  simp only [Bool.and_eq_true, decide_eq_true_eq] at hmem
  exact ⟨hmem.1, hmem.2.1, hmem.2.2⟩

end Statements

section Moves

/-- A source row under its own key. -/
theorem sourceKey {chatJid : Text} {sourceSeq : ℕ} {p : SourceRow δ → Bool}
    (hp : ∀ r, p r = true → r.chatJid = chatJid ∧ r.sourceSeq = sourceSeq) :
    ∀ r, p r = true → (sourceSchema δ).key r = (chatJid, sourceSeq) := by
  intro r hr
  change (r.chatJid, r.sourceSeq) = _
  rw [(hp r hr).1, (hp r hr).2]

theorem source_of_find? {chatJid : Text} {sourceSeq : ℕ} {row : SourceRow δ}
    (h : s.sources.find? (chatJid, sourceSeq) = some row) :
    row.chatJid = chatJid ∧ row.sourceSeq = sourceSeq := by
  have hkey : (row.chatJid, row.sourceSeq) = (chatJid, sourceSeq) := Table.key_of_find? h
  exact ⟨congrArg Prod.fst hkey, congrArg Prod.snd hkey⟩

theorem ensureChat_moves {chatJid : Text} (h : ensureChat s chatJid = .ok s') :
    LedgerMoves late s.toLedger s'.toLedger := by
  unfold ensureChat at h
  split_ifs at h with hsome
  · cases h
    exact .refl
  · obtain ⟨chats, hchats, h⟩ := require_bind_eq_ok.mp h
    cases h
    exact .single (.openChat hchats)

end Moves

end Piclaw
