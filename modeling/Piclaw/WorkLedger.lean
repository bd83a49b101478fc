import Piclaw.WorkHost

/-!
# Moves of the work ledger

Every statement sequence of the work store and of the settlement moves the ledger in one of ten
ways: a chat is opened, a source is accepted, withdrawn, adopted by an operation or claimed for a
new one, an operation moves, a queued input is filed or carried forward together with its source,
and an operation is released. A call is a finite sequence of such moves, so what every move
preserves is preserved by every call.

An operation adopts sources only while it is not terminal. The parameter `late` admits the
adoption by a terminal operation, which one call makes possible.
-/

namespace Piclaw
open Relational
variable {δ : Type}

section Views

/-- The row of a chat, or the row that opening the chat would store. -/
def chatOf (chats : Table chatSchema) (c : Text) : ChatRow :=
  (chats.find? c).getD ⟨c, 1, 0, none⟩

theorem chatOf_of_find? {chats : Table chatSchema} {c : Text} {chat : ChatRow}
    (h : chats.find? c = some chat) : chatOf chats c = chat := by
  rw [chatOf, h, Option.getD_some]

theorem chatOf_insert? {chats chats' : Table chatSchema} {c : Text}
    (h : chats.insert? ⟨c, 1, 0, none⟩ = some chats') : chatOf chats' = chatOf chats := by
  have hfree : chats.find? c = none := (Table.insert?_fresh h).1
  funext c'
  unfold chatOf
  rw [Table.find?_insert? h]
  change (if c = c' then _ else _ : Option ChatRow).getD _ = _
  split_ifs with hc
  · rw [← hc, hfree]
    rfl
  · rfl

theorem chatOf_rewrites {chats chats' : Table chatSchema} {c : Text} {chat chat' : ChatRow}
    (h : chats.Rewrites chats' c chat chat') (c' : Text) :
    chatOf chats' c' = if c' = c then chat' else chatOf chats c' := by
  unfold chatOf
  rw [h.find?_eq]
  split_ifs with hc
  · rfl
  · rfl

theorem find?_insertSource {sources sources' : Table (sourceSchema δ)} {row : SourceRow δ}
    (h : sources.insert? row = some sources') (c : Text) (n : ℕ) :
    sources'.find? (c, n) =
      if row.chatJid = c ∧ row.sourceSeq = n then some row else sources.find? (c, n) := by
  rw [Table.find?_insert? h]
  change (if (row.chatJid, row.sourceSeq) = (c, n) then _ else _) = _
  simp only [Prod.mk.injEq]

theorem find?_insertOperation {operations operations' : Table operationSchema} {row : OperationRow}
    (h : operations.insert? row = some operations') (o : Text) :
    operations'.find? o = if row.operationId = o then some row else operations.find? o :=
  Table.find?_insert? h o

/-- The state of a source that has been accepted. -/
def stateOf (sources : Table (sourceSchema δ)) (c : Text) (n : ℕ) : Option AcceptedSourceState :=
  (sources.find? (c, n)).map fun r => r.state

theorem stateOf_of_find? {sources : Table (sourceSchema δ)} {c : Text} {n : ℕ} {row : SourceRow δ}
    (h : sources.find? (c, n) = some row) : stateOf sources c n = some row.state := by
  rw [stateOf, h, Option.map_some]

theorem stateOf_insert? {sources sources' : Table (sourceSchema δ)} {row : SourceRow δ}
    (h : sources.insert? row = some sources') (c : Text) (n : ℕ) :
    stateOf sources' c n =
      if row.chatJid = c ∧ row.sourceSeq = n then some row.state else stateOf sources c n := by
  unfold stateOf
  rw [find?_insertSource h]
  split_ifs with hk
  · rfl
  · rfl

theorem stateOf_of_inserted {sources sources' : Table (sourceSchema δ)} {row : SourceRow δ}
    (h : sources.insert? row = some sources') :
    stateOf sources row.chatJid row.sourceSeq = none := by
  have hfree : sources.find? (row.chatJid, row.sourceSeq) = none := (Table.insert?_fresh h).1
  rw [stateOf, hfree, Option.map_none]

theorem stateOf_rewrites {sources sources' : Table (sourceSchema δ)} {c : Text} {n : ℕ}
    {row row' : SourceRow δ} (h : sources.Rewrites sources' (c, n) row row') (c' : Text) (n' : ℕ) :
    stateOf sources' c' n' = if c' = c ∧ n' = n then some row'.state else stateOf sources c' n' := by
  unfold stateOf
  rw [h.find?_eq]
  simp only [Prod.mk.injEq]
  split_ifs with hk
  · rfl
  · rfl

def heldAt (sources : Table (sourceSchema δ)) (c : Text) (n : ℕ) : Bool :=
  (stateOf sources c n).any fun s => s.held

theorem sourceClosed_eq (l : Ledger δ) (c : Text) (n : ℕ) :
    sourceClosed l c n = (stateOf l.sources c n).map fun s => s.closed := by
  unfold sourceClosed stateOf
  rw [Option.map_map]
  rfl

end Views

inductive OperationMove : OperationRow → OperationRow → Prop where
  | bump {row : OperationRow} : OperationMove row { row with version := row.version + 1 }
  | cancel {row : OperationRow} (c : CancellationColumns) (hnone : row.cancellation = none) :
    OperationMove row
      { row with cancellation := some c, phase := .cancelling, version := row.version + 1 }
  | bind {row : OperationRow} (h : HarnessCorrelation) (hnone : row.harness = none) :
    OperationMove row
      { row with
        harness := some h
        phase := if row.cancellation.isNone then .executing else .cancelling
        version := row.version + 1 }
  | finish {row : OperationRow} (hfinish : finishable row.phase) :
    OperationMove row { row with phase := .settling, version := row.version + 1 }

/-- The row of an operation that has been settled. -/
def OperationRow.terminalised (row : OperationRow) (terminal : TerminalSnapshot) : OperationRow :=
  { row with version := row.version + 1, phase := .terminal, terminal := some terminal }

/-- How a member's source and its queued input leave their states together: a queued input keeps
naming the state of its source, and a source without one is only ever closed. -/
inductive QueueMove (l : Ledger δ) (chatJid operationId : Text) (sourceSeq : ℕ)
    (state : AcceptedSourceState) : Table queuedInputSchema → Prop where
  | unqueued (hmember : ⟨chatJid, operationId, sourceSeq⟩ ∈ l.operationSources.rows)
      (hnone : l.queuedInputs.find? (operationId, sourceSeq) = none) (hclosed : state.closed) :
    QueueMove l chatJid operationId sourceSeq state l.queuedInputs
  | queued {queuedInputs : Table queuedInputSchema} {q : QueuedInputRow} (next : QueuedInputState)
      (entry : Option Text) (hstate : state = sourceStateForQueue next)
      (hrewrites : l.queuedInputs.Rewrites queuedInputs (operationId, sourceSeq) q
        { q with state := next, harnessEntryId := entry }) :
    QueueMove l chatJid operationId sourceSeq state queuedInputs

inductive LedgerMove (late : Prop) : Ledger δ → Ledger δ → Prop where
  | openChat {l : Ledger δ} {chatJid : Text} {chats : Table chatSchema}
      (hchat : l.chats.insert? ⟨chatJid, 1, 0, none⟩ = some chats) :
    LedgerMove late l { l with chats := chats }
  | accept {l : Ledger δ} {chats : Table chatSchema} {sources : Table (sourceSchema δ)}
      {chat : ChatRow} {row : SourceRow δ} (hbound : chat.nextSourceSeq ≤ maxSafeInteger)
      (hchat : l.chats.Rewrites chats row.chatJid chat
        { chat with nextSourceSeq := chat.nextSourceSeq + 1 })
      (hsource : l.sources.insert? row = some sources) (hseq : row.sourceSeq = chat.nextSourceSeq)
      (hpending : row.state = .pending) :
    LedgerMove late l { l with chats := chats, sources := sources }
  | withdraw {l : Ledger δ} {sources : Table (sourceSchema δ)} {chat : ChatRow} {row : SourceRow δ}
      {reason : Option Text}
      (hsource : l.sources.Rewrites sources (row.chatJid, row.sourceSeq) row
        { row with state := .disposed, dispositionReason := reason })
      (hpending : row.state = .pending) (hchat : l.chats.find? row.chatJid = some chat)
      (hactive : chat.activeOperationId.isSome) :
    LedgerMove late l { l with sources := sources }
  | withdrawIdle {l : Ledger δ} {chats : Table chatSchema} {sources : Table (sourceSchema δ)}
      {chat : ChatRow} {row : SourceRow δ} {reason : Option Text} {frontier : ℕ}
      (hsource : l.sources.Rewrites sources (row.chatJid, row.sourceSeq) row
        { row with state := .disposed, dispositionReason := reason })
      (hpending : row.state = .pending) (hidle : chat.activeOperationId = none)
      (hfrontier : computeClosedSourceFrontier { l with sources := sources } row.chatJid
        chat.consumedThroughSourceSeq chat.nextSourceSeq = .ok frontier)
      (hchat : l.chats.Rewrites chats row.chatJid chat
        { chat with consumedThroughSourceSeq := frontier }) :
    LedgerMove late l { l with chats := chats, sources := sources }
  | adopt {l : Ledger δ} {sources : Table (sourceSchema δ)}
      {operationSources : Table operationSourceSchema} {row : SourceRow δ} {op : OperationRow}
      {target : Option Text}
      (hsource : l.sources.Rewrites sources (row.chatJid, row.sourceSeq) row
        { row with state := .claimed, targetOperationId := target })
      (hpending : row.state = .pending) (hop : l.operations.find? op.operationId = some op)
      (hchat : op.chatJid = row.chatJid) (hopen : op.phase ≠ .terminal ∨ late)
      (hmember : l.operationSources.insert? ⟨row.chatJid, op.operationId, row.sourceSeq⟩ =
          some operationSources ∨
        ⟨row.chatJid, op.operationId, row.sourceSeq⟩ ∈ l.operationSources.rows ∧
          operationSources = l.operationSources) :
    LedgerMove late l { l with sources := sources, operationSources := operationSources }
  | claim {l : Ledger δ} {chats : Table chatSchema} {sources : Table (sourceSchema δ)}
      {operations : Table operationSchema} {operationSources : Table operationSourceSchema}
      {chat : ChatRow} {row : SourceRow δ} {operationId : Text}
      (hidle : chat.activeOperationId = none)
      (hchat : l.chats.Rewrites chats row.chatJid chat
        { chat with activeOperationId := some operationId })
      (hsource : l.sources.Rewrites sources (row.chatJid, row.sourceSeq) row
        { row with state := .claimed })
      (hpending : row.state = .pending)
      (hop : l.operations.insert?
        ⟨operationId, row.chatJid, 1, .claimed, row.sourceSeq, none, none, none⟩ = some operations)
      (hmember : l.operationSources.insert? ⟨row.chatJid, operationId, row.sourceSeq⟩ =
        some operationSources) :
    LedgerMove late l
      { l with
        chats := chats, sources := sources, operations := operations
        operationSources := operationSources }
  | operate {l : Ledger δ} {operations : Table operationSchema} {row row' : OperationRow}
      (hrewrites : l.operations.Rewrites operations row.operationId row row')
      (hopen : row.phase ≠ .terminal) (hmove : OperationMove row row') :
    LedgerMove late l { l with operations := operations }
  | enqueue {l : Ledger δ} {queuedInputs : Table queuedInputSchema} {q : QueuedInputRow}
      {row : SourceRow δ} (hinsert : l.queuedInputs.insert? q = some queuedInputs)
      (hmember : ⟨q.chatJid, q.operationId, q.sourceSeq⟩ ∈ l.operationSources.rows)
      (hsource : l.sources.find? (q.chatJid, q.sourceSeq) = some row)
      (hclaimed : row.state = .claimed) (haccepted : q.state = .accepted) :
    LedgerMove late l { l with queuedInputs := queuedInputs }
  | progress {l : Ledger δ} {sources : Table (sourceSchema δ)}
      {queuedInputs : Table queuedInputSchema} {row : SourceRow δ} {op : OperationRow}
      {state : AcceptedSourceState} {reason : Option Text}
      (hsource : l.sources.Rewrites sources (row.chatJid, row.sourceSeq) row
        { row with state := state, dispositionReason := reason })
      (hheld : row.state.held) (hop : l.operations.find? op.operationId = some op)
      (hchat : op.chatJid = row.chatJid) (hstate : state ≠ .pending)
      (hqueue : QueueMove l row.chatJid op.operationId row.sourceSeq state queuedInputs) :
    LedgerMove late l { l with sources := sources, queuedInputs := queuedInputs }
  | release {l : Ledger δ} {chats : Table chatSchema} {operations : Table operationSchema}
      {chat : ChatRow} {op : OperationRow} {terminal : TerminalSnapshot} {frontier : ℕ}
      (hop : l.operations.Rewrites operations op.operationId op (op.terminalised terminal))
      (hopen : op.phase ≠ .terminal)
      (hdisposition : terminal.disposition = .cancelled ↔ op.cancellation.isSome)
      (hclosed : ∀ r ∈ l.operationSources.rows, r.operationId = op.operationId →
        sourceClosed l r.chatJid r.sourceSeq = some true)
      (hfrontier : computeClosedSourceFrontier l op.chatJid chat.consumedThroughSourceSeq
        chat.nextSourceSeq = .ok frontier)
      (hactive : chat.activeOperationId = some op.operationId)
      (hchat : l.chats.Rewrites chats op.chatJid chat
        { chat with consumedThroughSourceSeq := frontier, activeOperationId := none }) :
    LedgerMove late l { l with chats := chats, operations := operations }

theorem LedgerMove.mono {late late' : Prop} {l l' : Ledger δ} (h : late → late')
    (hmove : LedgerMove late l l') : LedgerMove late' l l' := by
  cases hmove with
  | openChat hchat => exact .openChat hchat
  | accept hbound hchat hsource hseq hpending => exact .accept hbound hchat hsource hseq hpending
  | withdraw hsource hpending hchat hactive => exact .withdraw hsource hpending hchat hactive
  | withdrawIdle hsource hpending hidle hfrontier hchat =>
    exact .withdrawIdle hsource hpending hidle hfrontier hchat
  | adopt hsource hpending hop hchat hopen hmember =>
    exact .adopt hsource hpending hop hchat (hopen.imp_right h) hmember
  | claim hidle hchat hsource hpending hop hmember =>
    exact .claim hidle hchat hsource hpending hop hmember
  | operate hrewrites hopen hmove => exact .operate hrewrites hopen hmove
  | enqueue hinsert hmember hsource hclaimed haccepted =>
    exact .enqueue hinsert hmember hsource hclaimed haccepted
  | progress hsource hheld hop hchat hstate hqueue =>
    exact .progress hsource hheld hop hchat hstate hqueue
  | release hop hopen hdisposition hclosed hfrontier hactive hchat =>
    exact .release hop hopen hdisposition hclosed hfrontier hactive hchat

abbrev LedgerMoves (late : Prop) : Ledger δ → Ledger δ → Prop :=
  Relation.ReflTransGen (LedgerMove late)

theorem LedgerMoves.mono {late late' : Prop} {l l' : Ledger δ} (h : late → late')
    (hmoves : LedgerMoves late l l') : LedgerMoves late' l l' :=
  Relation.ReflTransGen.mono (fun _ _ hmove => LedgerMove.mono h hmove) l l' hmoves

end Piclaw
