import Piclaw.WorkLedger

/-!
# Invariants of the work ledger

A ledger that moves without late adoption keeps its invariants: the sources of a chat are numbered
without gaps, a chat names its one open operation, a source that is held belongs to an operation
that is open, a queued input names the state of its source, the consumed prefix of a chat is closed
and, while the chat is idle, as long as it can be, and the phase of an operation agrees with its
cancellation and its settlement. One lemma for each invariant takes it through every move, and
`LedgerMoves.sound` takes all of them through a sequence of moves.

A terminal operation is final: its row, its members and their sources stay as they are.
-/

namespace Piclaw
open Relational
variable {δ : Type} {late : Prop} {l l' : Ledger δ}

/-- Only a settled operation is terminal, a cancelled one is being cancelled or settled, and it is
settled as cancelled, which no other operation is. -/
structure OperationRow.Agrees (row : OperationRow) : Prop where
  settled : row.phase = .terminal ↔ row.terminal.isSome
  cancelling : row.cancellation.isSome →
    row.phase = .cancelling ∨ row.phase = .settling ∨ row.phase = .terminal
  disposed : ∀ t, row.terminal = some t → (t.disposition = .cancelled ↔ row.cancellation.isSome)

namespace Ledger

/-- The sources of a chat are `1, …, next_source_seq - 1`. -/
def Numbered (l : Ledger δ) : Prop :=
  ∀ c n, (l.sources.find? (c, n)).isSome ↔ 1 ≤ n ∧ n < (chatOf l.chats c).nextSourceSeq

def Bounded (l : Ledger δ) : Prop :=
  ∀ c, (chatOf l.chats c).nextSourceSeq ≤ maxSafeInteger + 1

/-- The active operation of a chat is its one open operation. -/
def Owned (l : Ledger δ) : Prop :=
  ∀ c o, (chatOf l.chats c).activeOperationId = some o ↔ targetOpen c (l.operations.find? o)

/-- A member has been taken up, and it is held only by an open operation of its chat. -/
def Members (l : Ledger δ) : Prop :=
  ∀ r ∈ l.operationSources.rows,
    ((l.operations.find? r.operationId).any fun row => decide (row.chatJid = r.chatJid)) ∧
      stateOf l.sources r.chatJid r.sourceSeq ≠ none ∧
      stateOf l.sources r.chatJid r.sourceSeq ≠ some .pending ∧
      (heldAt l.sources r.chatJid r.sourceSeq →
        targetOpen r.chatJid (l.operations.find? r.operationId))

def Held (l : Ledger δ) : Prop :=
  ∀ c n, heldAt l.sources c n → ∃ o, ⟨c, o, n⟩ ∈ l.operationSources.rows

/-- A queued input is a member and names the state of its source. -/
def Queued (l : Ledger δ) : Prop :=
  (∀ o n q, l.queuedInputs.find? (o, n) = some q →
    ⟨q.chatJid, o, n⟩ ∈ l.operationSources.rows ∧
      stateOf l.sources q.chatJid n = some (sourceStateForQueue q.state)) ∧
  ∀ r ∈ l.operationSources.rows, stateOf l.sources r.chatJid r.sourceSeq = some .queued →
    (l.queuedInputs.find? (r.operationId, r.sourceSeq)).isSome

/-- The consumed prefix is closed, and in an idle chat the source after it is not. -/
def Frontier (l : Ledger δ) : Prop :=
  ∀ c, (chatOf l.chats c).consumedThroughSourceSeq ∈
      closedPrefixes (fun n => sourceClosed l c n = some true) ∧
    ((chatOf l.chats c).activeOperationId = none →
      sourceClosed l c ((chatOf l.chats c).consumedThroughSourceSeq + 1) ≠ some true)

/-- Phase, cancellation and settlement of an operation agree. -/
def Phases (l : Ledger δ) : Prop := ∀ o row, l.operations.find? o = some row → row.Agrees

/-- The source that an operation was claimed for is a member of it. -/
def Primary (l : Ledger δ) : Prop :=
  ∀ o row, l.operations.find? o = some row →
    ⟨row.chatJid, o, row.primarySourceSeq⟩ ∈ l.operationSources.rows

end Ledger

theorem LedgerMove.numbered (h : LedgerMove late l l') (hn : l.Numbered) : l'.Numbered := by
  intro c n
  have hcn := hn c n
  cases h with
  | openChat hchat =>
    rw [chatOf_insert? hchat]
    exact hcn
  | accept hbound hchat hsource hseq hpending =>
    rename_i chats sources chat row
    have hcheck : 1 ≤ chat.nextSourceSeq := Table.check_of_find? hchat.before
    have hbefore := chatOf_of_find? hchat.before
    rw [find?_insertSource hsource, chatOf_rewrites hchat]
    grind
  | withdraw hsource hpending hchat hactive =>
    rw [hsource.isSome_iff]
    exact hcn
  | withdrawIdle hsource hpending hidle hfrontier hchat =>
    have hbefore := chatOf_of_find? hchat.before
    rw [hsource.isSome_iff, chatOf_rewrites hchat]
    grind
  | adopt hsource hpending hop hchat hopen hmember =>
    rw [hsource.isSome_iff]
    exact hcn
  | claim hidle hchat hsource hpending hop hmember =>
    have hbefore := chatOf_of_find? hchat.before
    rw [hsource.isSome_iff, chatOf_rewrites hchat]
    grind
  | operate hrewrites hopen hmove => exact hcn
  | enqueue hinsert hmember hsource hclaimed haccepted => exact hcn
  | progress hsource hheld hop hchat hstate hqueue =>
    rw [hsource.isSome_iff]
    exact hcn
  | release hop hopen hdisposition hclosed hfrontier hactive hchat =>
    have hbefore := chatOf_of_find? hchat.before
    rw [chatOf_rewrites hchat]
    grind

theorem LedgerMove.bounded (h : LedgerMove late l l') (hb : l.Bounded) : l'.Bounded := by
  intro c
  have hc := hb c
  cases h with
  | openChat hchat =>
    rw [chatOf_insert? hchat]
    exact hc
  | accept hbound hchat hsource hseq hpending =>
    rw [chatOf_rewrites hchat]
    grind
  | withdrawIdle hsource hpending hidle hfrontier hchat =>
    have hbefore := chatOf_of_find? hchat.before
    rw [chatOf_rewrites hchat]
    grind
  | claim hidle hchat hsource hpending hop hmember =>
    have hbefore := chatOf_of_find? hchat.before
    rw [chatOf_rewrites hchat]
    grind
  | release hop hopen hdisposition hclosed hfrontier hactive hchat =>
    have hbefore := chatOf_of_find? hchat.before
    rw [chatOf_rewrites hchat]
    grind
  | _ => exact hc

theorem OperationMove.kept {row row' : OperationRow} (h : OperationMove row row') :
    row'.operationId = row.operationId ∧ row'.chatJid = row.chatJid ∧
      row'.primarySourceSeq = row.primarySourceSeq ∧ row'.terminal = row.terminal ∧
      (row.phase ≠ .terminal → row'.phase ≠ .terminal) := by
  cases h with
  | bump => exact ⟨rfl, rfl, rfl, rfl, id⟩
  | cancel c hnone => exact ⟨rfl, rfl, rfl, rfl, fun _ h => by cases h⟩
  | bind h hnone =>
    refine ⟨rfl, rfl, rfl, rfl, fun _ => ?_⟩
    dsimp only
    split_ifs <;> simp
  | finish hfinish => exact ⟨rfl, rfl, rfl, rfl, fun _ h => by cases h⟩

theorem LedgerMove.owned (h : LedgerMove late l l') (hw : l.Owned) : l'.Owned := by
  intro c o
  have hco := hw c o
  cases h with
  | openChat hchat =>
    rw [chatOf_insert? hchat]
    exact hco
  | accept hbound hchat hsource hseq hpending =>
    have hbefore := chatOf_of_find? hchat.before
    rw [chatOf_rewrites hchat]
    grind
  | withdrawIdle hsource hpending hidle hfrontier hchat =>
    have hbefore := chatOf_of_find? hchat.before
    rw [chatOf_rewrites hchat]
    grind
  | claim hidle hchat hsource hpending hop hmember =>
    rename_i chats sources operations operationSources chat row id
    have hbefore := chatOf_of_find? hchat.before
    have hfree : l.operations.find? id = none := (Table.insert?_fresh hop).1
    rw [chatOf_rewrites hchat, find?_insertOperation hop]
    unfold targetOpen at hco ⊢
    grind
  | operate hrewrites hopen hmove =>
    obtain ⟨-, hjid, -, -, hphase⟩ := hmove.kept
    have hbefore := hrewrites.before
    rw [hrewrites.find?_eq]
    unfold targetOpen at hco ⊢
    grind
  | release hop hopen hdisposition hclosed hfrontier hactive hchat =>
    have hbefore := chatOf_of_find? hchat.before
    have hrow := hop.before
    rw [chatOf_rewrites hchat, hop.find?_eq]
    unfold targetOpen OperationRow.terminalised at *
    grind
  | _ => exact hco

theorem not_heldAt_of_closed {c : Text} {n : ℕ} (h : sourceClosed l c n = some true) :
    heldAt l.sources c n = false := by
  rw [sourceClosed_eq, Option.map_eq_some_iff] at h
  obtain ⟨st, hst, hclosed⟩ := h
  rw [heldAt, hst]
  cases st <;> first | rfl | cases hclosed

/-- The members after an adoption are the old ones and the adopted source. -/
theorem mem_of_adopted {members members' : Table operationSourceSchema} {r x : OperationSourceRow}
    (h : members.insert? x = some members' ∨ x ∈ members.rows ∧ members' = members) :
    r ∈ members'.rows ↔ r = x ∨ r ∈ members.rows := by
  rcases h with h | ⟨hx, rfl⟩
  · rw [Table.insert?_rows h, List.mem_cons]
  · constructor
    · exact Or.inr
    · rintro (rfl | hr)
      · exact hx
      · exact hr

theorem LedgerMove.members (h : LedgerMove False l l') (hm : l.Members) : l'.Members := by
  intro r hr
  cases h with
  | openChat hchat => exact hm r hr
  | accept hbound hchat hsource hseq hpending =>
    obtain ⟨h₁, h₂, h₃, h₄⟩ := hm r hr
    have hnone := stateOf_of_inserted hsource
    refine ⟨h₁, ?_⟩
    unfold heldAt at h₄ ⊢
    rw [stateOf_insert? hsource]
    grind
  | withdraw hsource hpending hchat hactive =>
    obtain ⟨h₁, h₂, h₃, h₄⟩ := hm r hr
    have hbefore := stateOf_of_find? hsource.before
    refine ⟨h₁, ?_⟩
    unfold heldAt at h₄ ⊢
    rw [stateOf_rewrites hsource]
    grind
  | withdrawIdle hsource hpending hidle hfrontier hchat =>
    obtain ⟨h₁, h₂, h₃, h₄⟩ := hm r hr
    have hbefore := stateOf_of_find? hsource.before
    refine ⟨h₁, ?_⟩
    unfold heldAt at h₄ ⊢
    rw [stateOf_rewrites hsource]
    grind
  | adopt hsource hpending hop hchat hopen hmember =>
    have hbefore := stateOf_of_find? hsource.before
    have hphase := hopen.resolve_right id
    unfold heldAt
    rw [stateOf_rewrites hsource]
    rcases (mem_of_adopted hmember).mp hr with rfl | hr
    · dsimp only
      rw [hop]
      simp [targetOpen, hchat, hphase]
    · obtain ⟨h₁, h₂, h₃, h₄⟩ := hm r hr
      unfold heldAt at h₄
      refine ⟨h₁, ?_⟩
      grind
  | claim hidle hchat hsource hpending hop hmember =>
    rename_i chats sources operations operationSources chat row o
    have hbefore := stateOf_of_find? hsource.before
    have hfree : l.operations.find? o = none := (Table.insert?_fresh hop).1
    unfold heldAt
    rw [stateOf_rewrites hsource, find?_insertOperation hop]
    rcases (mem_of_adopted (Or.inl hmember)).mp hr with rfl | hr
    · simp [targetOpen]
    · obtain ⟨h₁, h₂, h₃, h₄⟩ := hm r hr
      have hne : o ≠ r.operationId := by
        rintro rfl
        rw [hfree] at h₁
        cases h₁
      unfold heldAt at h₄
      rw [if_neg hne]
      refine ⟨h₁, ?_⟩
      grind
  | operate hrewrites hopen hmove =>
    obtain ⟨h₁, h₂, h₃, h₄⟩ := hm r hr
    obtain ⟨-, hjid, -, -, hphase⟩ := hmove.kept
    have hbefore := hrewrites.before
    rw [hrewrites.find?_eq]
    unfold targetOpen at h₄ ⊢
    grind
  | enqueue hinsert hmember hsource hclaimed haccepted => exact hm r hr
  | progress hsource hheld hop hchat hstate hqueue =>
    obtain ⟨h₁, h₂, h₃, h₄⟩ := hm r hr
    have hbefore := stateOf_of_find? hsource.before
    refine ⟨h₁, ?_⟩
    unfold heldAt at h₄ ⊢
    rw [stateOf_rewrites hsource]
    grind
  | release hop hopen hdisposition hclosed hfrontier hactive hchat =>
    rename_i chats operations chat op terminal frontier
    obtain ⟨h₁, h₂, h₃, h₄⟩ := hm r hr
    by_cases hid : r.operationId = op.operationId
    · have hheld := not_heldAt_of_closed (hclosed r hr hid)
      rw [hid, hop.before] at h₁
      refine ⟨?_, h₂, h₃, fun h => ?_⟩
      · rw [hid, hop.after]
        exact h₁
      · rw [hheld] at h
        cases h
    · rw [hop.others _ hid]
      exact ⟨h₁, h₂, h₃, h₄⟩

theorem LedgerMove.held (h : LedgerMove late l l') (hh : l.Held) : l'.Held := by
  intro c n hcn
  unfold heldAt at hcn
  have hbefore := hh c n
  unfold heldAt at hbefore
  cases h with
  | accept hbound hchat hsource hseq hpending =>
    rw [stateOf_insert? hsource] at hcn
    split_ifs at hcn with hk
    · rw [hpending] at hcn
      cases hcn
    · exact hbefore hcn
  | withdraw hsource hpending hchat hactive =>
    rw [stateOf_rewrites hsource] at hcn
    split_ifs at hcn with hk
    · cases hcn
    · exact hbefore hcn
  | withdrawIdle hsource hpending hidle hfrontier hchat =>
    rw [stateOf_rewrites hsource] at hcn
    split_ifs at hcn with hk
    · cases hcn
    · exact hbefore hcn
  | adopt hsource hpending hop hchat hopen hmember =>
    rename_i sources operationSources row op target
    rw [stateOf_rewrites hsource] at hcn
    split_ifs at hcn with hk
    · obtain ⟨rfl, rfl⟩ := hk
      exact ⟨op.operationId, (mem_of_adopted hmember).mpr (Or.inl rfl)⟩
    · obtain ⟨o, ho⟩ := hbefore hcn
      exact ⟨o, (mem_of_adopted hmember).mpr (Or.inr ho)⟩
  | claim hidle hchat hsource hpending hop hmember =>
    rename_i chats sources operations operationSources chat row o
    rw [stateOf_rewrites hsource] at hcn
    split_ifs at hcn with hk
    · obtain ⟨rfl, rfl⟩ := hk
      exact ⟨o, (mem_of_adopted (Or.inl hmember)).mpr (Or.inl rfl)⟩
    · obtain ⟨o', ho⟩ := hbefore hcn
      exact ⟨o', (mem_of_adopted (Or.inl hmember)).mpr (Or.inr ho)⟩
  | progress hsource hheld hop hchat hstate hqueue =>
    rw [stateOf_rewrites hsource] at hcn
    split_ifs at hcn with hk
    · obtain ⟨rfl, rfl⟩ := hk
      refine hbefore ?_
      rw [stateOf_of_find? hsource.before]
      exact hheld
    · exact hbefore hcn
  | _ => exact hbefore hcn


/-- A source has at most one membership. -/
theorem member_unique {c o o' : Text} {n : ℕ} (h : ⟨c, o, n⟩ ∈ l.operationSources.rows)
    (h' : ⟨c, o', n⟩ ∈ l.operationSources.rows) : o = o' := by
  have heq := Table.eq_of_unique h h' (u := (c, n)) rfl rfl
  cases heq
  rfl

theorem member_chat (hm : l.Members) {c : Text} {n : ℕ} {op : OperationRow}
    (hop : l.operations.find? op.operationId = some op)
    (h : ⟨c, op.operationId, n⟩ ∈ l.operationSources.rows) : op.chatJid = c := by
  have h₁ := (hm _ h).1
  rw [hop] at h₁
  exact of_decide_eq_true h₁

/-- A pending source leaves its state without a queued input. -/
theorem Ledger.Queued.taken {row row' : SourceRow δ} (hq : l.Queued) (hm : l.Members)
    (hqueue : l'.queuedInputs = l.queuedInputs)
    (hkept : ∀ r ∈ l.operationSources.rows, r ∈ l'.operationSources.rows)
    (hnew : ∀ r ∈ l'.operationSources.rows, r ∈ l.operationSources.rows ∨
      r.chatJid = row.chatJid ∧ r.sourceSeq = row.sourceSeq)
    (hsource : l.sources.Rewrites l'.sources (row.chatJid, row.sourceSeq) row row')
    (hpending : row.state = .pending) (hstate : row'.state ≠ .queued) : l'.Queued := by
  have hbefore := stateOf_of_find? hsource.before
  refine ⟨fun o n q hfind => ?_, fun r hr hqueued => ?_⟩
  · rw [hqueue] at hfind
    obtain ⟨hmember, hst⟩ := hq.1 o n q hfind
    have htaken := (hm _ hmember).2.2.1
    refine ⟨hkept _ hmember, ?_⟩
    rw [stateOf_rewrites hsource]
    grind
  · rw [hqueue]
    rw [stateOf_rewrites hsource] at hqueued
    split_ifs at hqueued with hk
    · exact absurd (Option.some_inj.mp hqueued) hstate
    · exact hq.2 r ((hnew r hr).resolve_right hk) hqueued

theorem LedgerMove.queued (h : LedgerMove late l l') (hm : l.Members) (hq : l.Queued) :
    l'.Queued := by
  cases h with
  | openChat hchat => exact hq
  | accept hbound hchat hsource hseq hpending =>
    have hnone := stateOf_of_inserted hsource
    refine ⟨fun o n q hfind => ?_, fun r hr => ?_⟩
    · obtain ⟨hmember, hstate⟩ := hq.1 o n q hfind
      refine ⟨hmember, ?_⟩
      rw [stateOf_insert? hsource]
      grind
    · have hqueued := hq.2 r hr
      rw [stateOf_insert? hsource]
      grind
  | withdraw hsource hpending hchat hactive =>
    exact hq.taken hm rfl (fun _ => id) (fun _ => Or.inl) hsource hpending (by simp)
  | withdrawIdle hsource hpending hidle hfrontier hchat =>
    exact hq.taken hm rfl (fun _ => id) (fun _ => Or.inl) hsource hpending (by simp)
  | adopt hsource hpending hop hchat hopen hmember =>
    refine hq.taken hm rfl (fun r hr => (mem_of_adopted hmember).mpr (Or.inr hr)) ?_ hsource
      hpending (by simp)
    intro r hr
    rcases (mem_of_adopted hmember).mp hr with rfl | hr
    · exact Or.inr ⟨rfl, rfl⟩
    · exact Or.inl hr
  | claim hidle hchat hsource hpending hop hmember =>
    refine hq.taken hm rfl (fun r hr => (mem_of_adopted (Or.inl hmember)).mpr (Or.inr hr)) ?_
      hsource hpending (by simp)
    intro r hr
    rcases (mem_of_adopted (Or.inl hmember)).mp hr with rfl | hr
    · exact Or.inr ⟨rfl, rfl⟩
    · exact Or.inl hr
  | operate hrewrites hopen hmove => exact hq
  | enqueue hinsert hmember hsource hclaimed haccepted =>
    rename_i queuedInputs q row
    have hfind := Table.find?_insert? hinsert
    have hstate := stateOf_of_find? hsource
    refine ⟨fun o n q' hq' => ?_, fun r hr hqueued => ?_⟩
    · rw [hfind] at hq'
      change (if (q.operationId, q.sourceSeq) = (o, n) then _ else _) = _ at hq'
      split_ifs at hq' with hk
      · cases hq'
        cases hk
        refine ⟨hmember, ?_⟩
        rw [hstate, hclaimed, haccepted]
        rfl
      · exact hq.1 o n q' hq'
    · rw [hfind]
      split_ifs with hk
      · rfl
      · exact hq.2 r hr hqueued
  | progress hsource hheld hop hchat hstate hqueue =>
    rename_i sources queuedInputs row op state reason
    have hbefore := stateOf_of_find? hsource.before
    cases hqueue with
    | unqueued hmember hnone hclosed =>
      refine ⟨fun o n q hfind => ?_, fun r hr => ?_⟩
      · obtain ⟨hmem, hst⟩ := hq.1 o n q hfind
        refine ⟨hmem, ?_⟩
        rw [stateOf_rewrites hsource, if_neg, hst]
        rintro ⟨hc, rfl⟩
        have ho := member_unique (hc ▸ hmem) hmember
        dsimp only at hfind
        rw [ho, hnone] at hfind
        cases hfind
      · rw [stateOf_rewrites hsource]
        split_ifs with hk
        · intro h
          have hst : state = .queued := Option.some_inj.mp h
          rw [hst] at hclosed
          cases hclosed
        · exact hq.2 r hr
    | queued next entry hnext hrewrites =>
      rename_i q₀
      obtain ⟨hmem₀, -⟩ := hq.1 _ _ _ hrewrites.before
      have hjid : q₀.chatJid = row.chatJid := by
        rw [← member_chat hm hop hmem₀, hchat]
      rw [hjid] at hmem₀
      refine ⟨fun o n q hfind => ?_, fun r hr hst => ?_⟩
      · rw [stateOf_rewrites hsource]
        rcases hrewrites.found hfind with ⟨hk, rfl⟩ | ⟨hk, hfind'⟩
        · cases hk
          refine ⟨hjid ▸ hmem₀, ?_⟩
          rw [if_pos ⟨hjid, rfl⟩, hnext]
        · obtain ⟨hmem, hst⟩ := hq.1 o n q hfind'
          refine ⟨hmem, ?_⟩
          rw [if_neg, hst]
          rintro ⟨hc, rfl⟩
          have ho := member_unique (hc ▸ hmem) hmem₀
          exact hk (by rw [ho])
      · rw [hrewrites.isSome_iff]
        rw [stateOf_rewrites hsource] at hst
        split_ifs at hst with hk
        · obtain ⟨hc, hn⟩ := hk
          have hr' : (⟨row.chatJid, r.operationId, row.sourceSeq⟩ : OperationSourceRow) ∈
              l.operationSources.rows := by
            rw [← hc, ← hn]
            exact hr
          rw [member_unique hr' hmem₀, hn, hrewrites.before]
          rfl
        · exact hq.2 r hr hst
  | release hop hopen hdisposition hclosed hfrontier hactive hchat => exact hq


/-- A closed source stays closed. -/
theorem LedgerMove.closed (h : LedgerMove late l l') {c : Text} {n : ℕ}
    (hcn : sourceClosed l c n = some true) : sourceClosed l' c n = some true := by
  have hheld := not_heldAt_of_closed hcn
  unfold heldAt at hheld
  rw [sourceClosed_eq] at hcn ⊢
  have hopen : ∀ {row : SourceRow δ} {k : Text × ℕ}, l.sources.find? k = some row →
      row.state = .pending ∨ row.state.held → ¬ (c = k.1 ∧ n = k.2) := by
    rintro row ⟨c', n'⟩ hfind hst ⟨rfl, rfl⟩
    rw [stateOf_of_find? hfind, Option.map_some, Option.some_inj] at hcn
    rcases hst with hst | hst
    · rw [hst] at hcn
      cases hcn
    · rw [stateOf_of_find? hfind, Option.any_some, hst] at hheld
      cases hheld
  cases h with
  | accept hbound hchat hsource hseq hpending =>
    rw [stateOf_insert? hsource, if_neg]
    · exact hcn
    · rintro ⟨rfl, rfl⟩
      rw [stateOf_of_inserted hsource] at hcn
      cases hcn
  | withdraw hsource hpending hchat hactive =>
    rw [stateOf_rewrites hsource, if_neg (hopen hsource.before (Or.inl hpending))]
    exact hcn
  | withdrawIdle hsource hpending hidle hfrontier hchat =>
    rw [stateOf_rewrites hsource, if_neg (hopen hsource.before (Or.inl hpending))]
    exact hcn
  | adopt hsource hpending hop hchat hopen' hmember =>
    rw [stateOf_rewrites hsource, if_neg (hopen hsource.before (Or.inl hpending))]
    exact hcn
  | claim hidle hchat hsource hpending hop hmember =>
    rw [stateOf_rewrites hsource, if_neg (hopen hsource.before (Or.inl hpending))]
    exact hcn
  | progress hsource hheld' hop hchat hstate hqueue =>
    rw [stateOf_rewrites hsource, if_neg (hopen hsource.before (Or.inr hheld'))]
    exact hcn
  | _ => exact hcn

/-- A chat that is given the frontier which the walk computes has a closed prefix that cannot be
extended. -/
theorem frontier_spec (hn : l.Numbered) {c : Text} {chat : ChatRow} {consumed : ℕ}
    (hchat : chatOf l.chats c = chat)
    (hconsumed : consumed ∈ closedPrefixes (fun n => sourceClosed l c n = some true))
    (h : computeClosedSourceFrontier l c consumed chat.nextSourceSeq =
      .ok chat.consumedThroughSourceSeq) :
    (chatOf l.chats c).consumedThroughSourceSeq ∈
        closedPrefixes (fun n => sourceClosed l c n = some true) ∧
      ((chatOf l.chats c).activeOperationId = none →
        sourceClosed l c ((chatOf l.chats c).consumedThroughSourceSeq + 1) ≠ some true) := by
  unfold computeClosedSourceFrontier at h
  split_ifs at h with hlt
  obtain ⟨hmem, hend⟩ := advance_spec (require_eq_ok.mp h) hconsumed
  rw [hchat]
  refine ⟨hmem, fun _ => ?_⟩
  rcases hend with hlast | hopen
  · have hnone : ¬ (l.sources.find? (c, chat.consumedThroughSourceSeq + 1)).isSome := by
      rw [hn, hchat]
      omega
    unfold sourceClosed
    rw [Option.not_isSome_iff_eq_none.mp hnone]
    simp
  · rw [hopen]
    simp

/-- Where a source is held, its chat is not idle. -/
theorem active_of_held (hw : l.Owned) (hm : l.Members) (hh : l.Held) {c : Text} {n : ℕ}
    (h : heldAt l.sources c n) : (chatOf l.chats c).activeOperationId ≠ none := by
  obtain ⟨o, hmember⟩ := hh c n h
  have hopen := (hm _ hmember).2.2.2 h
  rw [(hw c o).mpr hopen]
  simp

theorem sourceClosed_rewrites {row row' : SourceRow δ} {c : Text} {n : ℕ}
    (h : l.sources.Rewrites l'.sources (row.chatJid, row.sourceSeq) row row')
    (hk : ¬ (c = row.chatJid ∧ n = row.sourceSeq) ∨ row'.state.closed = false)
    (hcn : sourceClosed l c n ≠ some true) : sourceClosed l' c n ≠ some true := by
  rw [sourceClosed_eq] at hcn ⊢
  rw [stateOf_rewrites h]
  split_ifs with hkey
  · rcases hk with hk | hk
    · exact absurd hkey hk
    · rw [Option.map_some, hk]
      simp
  · exact hcn

theorem LedgerMove.frontier (h : LedgerMove late l l') (hn : l.Numbered) (hw : l.Owned)
    (hm : l.Members) (hh : l.Held) (hf : l.Frontier) : l'.Frontier := by
  have hn' := h.numbered hn
  have hmono : ∀ c k, k ∈ closedPrefixes (fun n => sourceClosed l c n = some true) →
      k ∈ closedPrefixes (fun n => sourceClosed l' c n = some true) :=
    fun c k hk => closedPrefixes_mono (fun n => h.closed) hk
  intro c
  obtain ⟨hinit, hlongest⟩ := hf c
  cases h with
  | openChat hchat =>
    rw [chatOf_insert? hchat]
    exact ⟨hinit, hlongest⟩
  | accept hbound hchat hsource hseq hpending =>
    rename_i chats sources chat row
    have hconsumed : (chatOf chats c).consumedThroughSourceSeq =
        (chatOf l.chats c).consumedThroughSourceSeq := by
      have hbefore := chatOf_of_find? hchat.before
      rw [chatOf_rewrites hchat]
      grind
    have hactive : (chatOf chats c).activeOperationId = (chatOf l.chats c).activeOperationId := by
      have hbefore := chatOf_of_find? hchat.before
      rw [chatOf_rewrites hchat]
      grind
    refine ⟨?_, fun hidle => ?_⟩
    · dsimp only
      rw [hconsumed]
      exact hmono c _ hinit
    · dsimp only at hidle ⊢
      rw [hactive] at hidle
      have hopen := hlongest hidle
      rw [hconsumed]
      rw [sourceClosed_eq] at hopen ⊢
      rw [stateOf_insert? hsource]
      split_ifs with hk
      · rw [hpending]
        simp [AcceptedSourceState.closed]
      · exact hopen
  | withdraw hsource hpending hchat hactive =>
    refine ⟨hmono c _ hinit, fun hidle => ?_⟩
    refine sourceClosed_rewrites hsource (Or.inl ?_) (hlongest hidle)
    rintro ⟨rfl, -⟩
    dsimp only at hidle
    rw [chatOf_of_find? hchat] at hidle
    rw [hidle] at hactive
    cases hactive
  | withdrawIdle hsource hpending hidle hfrontier hchat =>
    rename_i chats sources chat row reason frontier
    by_cases hc : c = row.chatJid
    · subst hc
      rw [chatOf_of_find? hchat.before] at hinit
      exact frontier_spec hn' (chatOf_of_find? hchat.after) (hmono _ _ hinit) hfrontier
    · have hsame : chatOf chats c = chatOf l.chats c := by
        rw [chatOf_rewrites hchat, if_neg hc]
      dsimp only
      rw [hsame]
      exact ⟨hmono c _ hinit, fun h => sourceClosed_rewrites hsource
        (Or.inl fun hk => hc hk.1) (hlongest h)⟩
  | adopt hsource hpending hop hchat hopen hmember =>
    exact ⟨hmono c _ hinit, fun hidle =>
      sourceClosed_rewrites hsource (Or.inr rfl) (hlongest hidle)⟩
  | claim hidle hchat hsource hpending hop hmember =>
    have hbefore := chatOf_of_find? hchat.before
    rename_i chats sources operations operationSources chat row o
    have hconsumed : (chatOf chats c).consumedThroughSourceSeq =
        (chatOf l.chats c).consumedThroughSourceSeq := by
      rw [chatOf_rewrites hchat]
      grind
    refine ⟨?_, fun hnone => ?_⟩
    · dsimp only
      rw [hconsumed]
      exact hmono c _ hinit
    · dsimp only at hnone ⊢
      rw [hconsumed]
      refine sourceClosed_rewrites hsource (Or.inr rfl) (hlongest ?_)
      rw [chatOf_rewrites hchat] at hnone
      grind
  | operate hrewrites hopen hmove => exact ⟨hinit, hlongest⟩
  | enqueue hinsert hmember hsource hclaimed haccepted => exact ⟨hinit, hlongest⟩
  | progress hsource hheld hop hchat hstate hqueue =>
    refine ⟨hmono c _ hinit, fun hidle => ?_⟩
    refine sourceClosed_rewrites hsource (Or.inl ?_) (hlongest hidle)
    rintro ⟨rfl, -⟩
    have hat := stateOf_of_find? hsource.before
    exact active_of_held hw hm hh (by rw [heldAt, hat]; exact hheld) hidle
  | release hop hopen hdisposition hclosed hfrontier hactive hchat =>
    rename_i chats operations chat op terminal frontier
    by_cases hc : c = op.chatJid
    · subst hc
      rw [chatOf_of_find? hchat.before] at hinit
      exact frontier_spec hn' (chatOf_of_find? hchat.after) (hmono _ _ hinit) hfrontier
    · have hsame : chatOf chats c = chatOf l.chats c := by
        rw [chatOf_rewrites hchat, if_neg hc]
      dsimp only
      rw [hsame]
      exact ⟨hinit, hlongest⟩


theorem OperationMove.agrees {row row' : OperationRow} (h : OperationMove row row')
    (hopen : row.phase ≠ .terminal) (ha : row.Agrees) : row'.Agrees := by
  have hnone : row.terminal = none := by
    rw [← Option.not_isSome_iff_eq_none, ← ha.settled]
    exact hopen
  have hterminal : row'.terminal = none := h.kept.2.2.2.1.trans hnone
  have hphase := h.kept.2.2.2.2 hopen
  refine ⟨?_, ?_, ?_⟩
  · rw [hterminal]
    simp [hphase]
  · intro hcancelled
    cases h with
    | bump => exact ha.cancelling hcancelled
    | cancel c hnone => exact Or.inl rfl
    | bind h hnone =>
      dsimp only at hcancelled ⊢
      rw [if_neg (by simpa [Option.isNone_iff_eq_none, Option.isSome_iff_ne_none] using hcancelled)]
      exact Or.inl rfl
    | finish hfinish => exact Or.inr (Or.inl rfl)
  · intro t ht
    rw [hterminal] at ht
    cases ht

theorem LedgerMove.phases (h : LedgerMove late l l') (hp : l.Phases) : l'.Phases := by
  intro o row hrow
  cases h with
  | claim hidle hchat hsource hpending hop hmember =>
    rw [find?_insertOperation hop] at hrow
    split_ifs at hrow with ho
    · cases hrow
      exact ⟨by simp, by simp, by simp⟩
    · exact hp o row hrow
  | operate hrewrites hopen hmove =>
    rcases hrewrites.found hrow with ⟨-, rfl⟩ | ⟨-, hrow⟩
    · exact hmove.agrees hopen (hp _ _ hrewrites.before)
    · exact hp o row hrow
  | release hop hopen hdisposition hclosed hfrontier hactive hchat =>
    rcases hop.found hrow with ⟨-, rfl⟩ | ⟨-, hrow⟩
    · refine ⟨by simp [OperationRow.terminalised], fun _ => Or.inr (Or.inr rfl), ?_⟩
      rintro t ht
      cases ht
      exact hdisposition
    · exact hp o row hrow
  | _ => exact hp o row hrow

theorem LedgerMove.primary (h : LedgerMove late l l') (hp : l.Primary) : l'.Primary := by
  intro o row hrow
  cases h with
  | adopt hsource hpending hop hchat hopen hmember =>
    exact (mem_of_adopted hmember).mpr (Or.inr (hp o row hrow))
  | claim hidle hchat hsource hpending hop hmember =>
    rw [find?_insertOperation hop] at hrow
    split_ifs at hrow with ho
    · cases hrow
      exact (mem_of_adopted (Or.inl hmember)).mpr (Or.inl (by rw [← ho]))
    · exact (mem_of_adopted (Or.inl hmember)).mpr (Or.inr (hp o row hrow))
  | operate hrewrites hopen hmove =>
    obtain ⟨-, hjid, hprimary, -, -⟩ := hmove.kept
    rcases hrewrites.found hrow with ⟨rfl, rfl⟩ | ⟨-, hrow⟩
    · rw [hjid, hprimary]
      exact hp _ _ hrewrites.before
    · exact hp o row hrow
  | release hop hopen hdisposition hclosed hfrontier hactive hchat =>
    have hbefore := hp _ _ hop.before
    rcases hop.found hrow with ⟨rfl, rfl⟩ | ⟨-, hrow⟩
    · exact hbefore
    · exact hp o row hrow
  | _ => exact hp o row hrow

/-- All invariants of the ledger. -/
structure Ledger.Sound (l : Ledger δ) : Prop where
  numbered : l.Numbered
  bounded : l.Bounded
  owned : l.Owned
  members : l.Members
  held : l.Held
  queued : l.Queued
  frontier : l.Frontier
  phases : l.Phases
  primary : l.Primary

theorem Ledger.empty_sound : (Ledger.empty δ).Sound where
  numbered c n := by
    change false = true ↔ 1 ≤ n ∧ n < 1
    simp
    omega
  bounded c := by
    change 1 ≤ maxSafeInteger + 1
    omega
  owned c o := by
    change none = some o ↔ false = true
    simp
  members r hr := by cases hr
  held c n h := by cases h
  queued := ⟨fun o n q h => (by cases h), fun r hr => (by cases hr)⟩
  frontier c := ⟨zero_mem_closedPrefixes, fun _ h => (by cases h)⟩
  phases o row h := by cases h
  primary o row h := by cases h

theorem LedgerMove.sound (h : LedgerMove False l l') (hs : l.Sound) : l'.Sound where
  numbered := h.numbered hs.numbered
  bounded := h.bounded hs.bounded
  owned := h.owned hs.owned
  members := h.members hs.members
  held := h.held hs.held
  queued := h.queued hs.members hs.queued
  frontier := h.frontier hs.numbered hs.owned hs.members hs.held hs.frontier
  phases := h.phases hs.phases
  primary := h.primary hs.primary

theorem LedgerMoves.sound (h : LedgerMoves False l l') (hs : l.Sound) : l'.Sound := by
  induction h with
  | refl => exact hs
  | tail _ hmove ih => exact hmove.sound ih

section Finality

def memberRows (l : Ledger δ) (o : Text) : List OperationSourceRow :=
  l.operationSources.rows.filter fun r => decide (r.operationId = o)

theorem mem_memberRows {o : Text} {r : OperationSourceRow} :
    r ∈ memberRows l o ↔ r ∈ l.operationSources.rows ∧ r.operationId = o := by
  simp [memberRows]

/-- The row of an operation, its members and their sources stay as they are. -/
structure Unchanged (o : Text) (l l' : Ledger δ) : Prop where
  row : l'.operations.find? o = l.operations.find? o
  members : memberRows l' o = memberRows l o
  sources : ∀ r ∈ memberRows l o,
    l'.sources.find? (r.chatJid, r.sourceSeq) = l.sources.find? (r.chatJid, r.sourceSeq)

theorem Unchanged.refl (o : Text) (l : Ledger δ) : Unchanged o l l := ⟨rfl, rfl, fun _ _ => rfl⟩

theorem Unchanged.trans {o : Text} {l l' l'' : Ledger δ} (h : Unchanged o l l')
    (h' : Unchanged o l' l'') : Unchanged o l l'' := by
  refine ⟨h'.row.trans h.row, h'.members.trans h.members, fun r hr => ?_⟩
  rw [h'.sources r (h.members ▸ hr), h.sources r hr]

theorem memberRows_of_adopted {members' : Table operationSourceSchema} {x : OperationSourceRow}
    {o : Text} (h : l.operationSources.insert? x = some members' ∨
      x ∈ l.operationSources.rows ∧ members' = l.operationSources) (hne : x.operationId ≠ o) :
    memberRows { l with operationSources := members' } o = memberRows l o := by
  rcases h with h | ⟨-, rfl⟩
  · unfold memberRows
    rw [Table.insert?_rows h, List.filter_cons_of_neg (by simpa using hne)]
  · rfl

theorem closed_of_terminal (hs : l.Sound) {o : Text} {row : OperationRow}
    (hrow : l.operations.find? o = some row) (hterminal : row.phase = .terminal) :
    ∀ r ∈ memberRows l o, sourceClosed l r.chatJid r.sourceSeq = some true := by
  intro r hr
  obtain ⟨hr, ho⟩ := mem_memberRows.mp hr
  obtain ⟨-, hsome, htaken, hopen⟩ := hs.members r hr
  rw [ho, hrow] at hopen
  rw [sourceClosed_eq]
  unfold heldAt at hopen
  cases hst : stateOf l.sources r.chatJid r.sourceSeq with
  | none => exact absurd hst hsome
  | some st =>
    rw [hst] at htaken hopen
    simp only [targetOpen, hterminal, Option.any_some, ne_eq, not_true, decide_false, Bool.and_false,
      Bool.false_eq_true, imp_false] at hopen
    cases st <;> simp_all [AcceptedSourceState.held, AcceptedSourceState.closed]

/-- Rewriting a source that is not closed leaves the closed ones alone. -/
theorem find?_of_closed {sources : Table (sourceSchema δ)} {row row' : SourceRow δ} {c : Text}
    {n : ℕ} (hclosed : sourceClosed l c n = some true)
    (h : l.sources.Rewrites sources (row.chatJid, row.sourceSeq) row row')
    (hopen : row.state.closed = false) : sources.find? (c, n) = l.sources.find? (c, n) := by
  refine h.others _ ?_
  rintro hk
  cases hk
  rw [sourceClosed, h.before, Option.map_some, hopen] at hclosed
  cases hclosed

theorem closed_of_held {st : AcceptedSourceState} (h : st.held) : st.closed = false := by
  cases st <;> first | rfl | cases h

/-- A move leaves a terminal operation, its members and their sources alone. -/
theorem LedgerMove.final (h : LedgerMove False l l') (hs : l.Sound) {o : Text} {row : OperationRow}
    (hrow : l.operations.find? o = some row) (hterminal : row.phase = .terminal) :
    Unchanged o l l' := by
  have hclosed := closed_of_terminal hs hrow hterminal
  have hother : ∀ op : OperationRow, l.operations.find? op.operationId = some op →
      op.phase ≠ .terminal → o ≠ op.operationId := by
    rintro op hop hopen rfl
    rw [hop] at hrow
    cases hrow
    exact hopen hterminal
  cases h with
  | openChat hchat => exact ⟨rfl, rfl, fun _ _ => rfl⟩
  | accept hbound hchat hsource hseq hpending =>
    refine ⟨rfl, rfl, fun r hr => ?_⟩
    rw [find?_insertSource hsource, if_neg]
    rintro ⟨hc, hn⟩
    have hfind := hclosed r hr
    rw [← hc, ← hn, sourceClosed_eq, stateOf_of_inserted hsource] at hfind
    cases hfind
  | withdraw hsource hpending hchat hactive =>
    exact ⟨rfl, rfl, fun r hr => find?_of_closed (hclosed r hr) hsource (by rw [hpending]; rfl)⟩
  | withdrawIdle hsource hpending hidle hfrontier hchat =>
    exact ⟨rfl, rfl, fun r hr => find?_of_closed (hclosed r hr) hsource (by rw [hpending]; rfl)⟩
  | adopt hsource hpending hop hchat hopen hmember =>
    exact ⟨rfl, memberRows_of_adopted hmember (hother _ hop (hopen.resolve_right id)).symm,
      fun r hr => find?_of_closed (hclosed r hr) hsource (by rw [hpending]; rfl)⟩
  | claim hidle hchat hsource hpending hop hmember =>
    rename_i chats sources operations operationSources chat src o'
    have hne : o' ≠ o := by
      rintro rfl
      have hfree : l.operations.find? o' = none := (Table.insert?_fresh hop).1
      rw [hrow] at hfree
      cases hfree
    refine ⟨?_, memberRows_of_adopted (Or.inl hmember) hne, fun r hr =>
      find?_of_closed (hclosed r hr) hsource (by rw [hpending]; rfl)⟩
    rw [find?_insertOperation hop, if_neg hne]
  | operate hrewrites hopen hmove =>
    have hkey := Table.key_of_find? hrewrites.before
    exact ⟨hrewrites.others o (hother _ hrewrites.before hopen), rfl, fun _ _ => rfl⟩
  | enqueue hinsert hmember hsource hclaimed haccepted => exact ⟨rfl, rfl, fun _ _ => rfl⟩
  | progress hsource hheld hop hchat hstate hqueue =>
    exact ⟨rfl, rfl, fun r hr =>
      find?_of_closed (hclosed r hr) hsource (closed_of_held hheld)⟩
  | release hop hopen hdisposition hclosed' hfrontier hactive hchat =>
    exact ⟨hop.others o (hother _ hop.before hopen), rfl, fun _ _ => rfl⟩

theorem LedgerMoves.final (h : LedgerMoves False l l') (hs : l.Sound) {o : Text}
    {row : OperationRow} (hrow : l.operations.find? o = some row) (hterminal : row.phase = .terminal) :
    Unchanged o l l' := by
  induction h with
  | refl => exact Unchanged.refl o l
  | tail hmoves hmove ih =>
    exact ih.trans (hmove.final (LedgerMoves.sound hmoves hs) (ih.row.trans hrow) hterminal)

end Finality

end Piclaw
