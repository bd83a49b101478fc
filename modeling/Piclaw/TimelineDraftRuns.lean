import Piclaw.TimelineDrafts

/-!
# Runs of draft and notice writes

What a write does to the messages, and what holds of the writes and their message rows after any
interleaving of calls.
-/

namespace Piclaw
namespace MessageDb
variable {τ : Type} {platform : MessagePlatform τ} {db db' : MessageDb τ}

/-- One row is written, new or again, with just these media; the rest stays. -/
structure Wrote (db db' : MessageDb τ) (rowId : ℕ) (id chatJid content : String)
    (blocks : Option String) (mediaIds : List ℕ) : Prop where
  keyed : db'.Keyed
  others : ∀ row : StoredMessage τ, row.rowid ≠ rowId →
    (row ∈ db'.messages ↔ row ∈ db.messages)
  written : ∃ row ∈ db'.messages, row.rowid = rowId ∧ row.id = id ∧ row.chatJid = chatJid ∧
    row.content = content ∧ row.contentBlocks = blocks
  otherLinks : ∀ link : ℕ × ℕ, link.1 ≠ rowId →
    (link ∈ db'.messageMedia ↔ link ∈ db.messageMedia)
  links : ∀ mediaId, (rowId, mediaId) ∈ db'.messageMedia ↔ mediaId ∈ mediaIds

theorem wrote_replace (hkeyed : db.Keyed) {chatJid content : String} {rowid : ℕ}
    {options : ReplaceOptions} {mediaIds : List ℕ} (hgiven : options.mediaIds = some mediaIds)
    (hreplaced : db.replaceMessageContentInDatabase platform chatJid rowid content options =
      some db') :
    ∃ row ∈ db.messages, row.rowid = rowid ∧ row.chatJid = chatJid ∧
      Wrote db db' rowid row.id chatJid content options.contentBlocks mediaIds := by
  rw [replaceMessageContentInDatabase] at hreplaced
  cases hfind : db.findInChat chatJid rowid with
  | none =>
    rw [hfind] at hreplaced
    cases hreplaced
  | some row =>
    obtain ⟨hrow, hchat, rfl⟩ := mem_of_findInChat hfind
    simp only [hfind, Option.some.injEq, hgiven, Option.getD_some] at hreplaced
    subst hreplaced
    set changed : StoredMessage τ → StoredMessage τ := fun old => { old with
      content := content
      contentBlocks := options.contentBlocks
      linkPreviews := options.linkPreviews
      isTerminalAgentReply := options.isTerminalAgentReply.getD old.isTerminalAgentReply }
    set detached : MessageDb τ := { db.updateRow platform row changed with
      messageMedia := (db.updateRow platform row changed).messageMedia.filter
        (fun link => decide (link.1 ≠ row.rowid)) }
    obtain ⟨hmessages, hlinks⟩ :=
      @attachMediaToMessage_tables τ platform detached row.rowid mediaIds true
    have hmem {new : StoredMessage τ} : new ∈ detached.messages ↔
        new = { changed row with rowid := row.rowid } ∨ new ∈ db.messages ∧ new ≠ row :=
      @mem_updateRow τ platform db hkeyed row hrow changed new
    have hdetached (link : ℕ × ℕ) : link ∈ detached.messageMedia ↔
        link ∈ db.messageMedia ∧ link.1 ≠ row.rowid := by
      simp only [detached, List.mem_filter, decide_eq_true_eq]
      rfl
    refine ⟨row, hrow, rfl, hchat, ⟨?_, ?_, ?_, ?_, ?_⟩⟩
    · have hupdated : (db.updateRow platform row changed).Keyed :=
        hkeyed.updateRow row (fun _ => rfl) (fun _ => rfl)
      exact ⟨by rw [hmessages]; exact hupdated.rowids, by rw [hmessages]; exact hupdated.pairs⟩
    · intro other hne
      rw [hmessages, hmem]
      constructor
      · rintro (rfl | ⟨hother, -⟩)
        · exact absurd rfl hne
        · exact hother
      · exact fun hother => Or.inr ⟨hother, fun heq => hne (heq ▸ rfl)⟩
    · refine ⟨{ changed row with rowid := row.rowid }, ?_, rfl, rfl, hchat, rfl, rfl⟩
      rw [hmessages, hmem]
      exact Or.inl rfl
    · intro link hne
      rw [hlinks, mem_linksAfter, hdetached]
      simp [hne]
    · intro mediaId
      rw [hlinks, mem_linksAfter, hdetached]
      simp

theorem wrote_new (hkeyed : db.Keyed)
    (hlinks : ∀ link ∈ db.messageMedia, ∃ row ∈ db.messages, row.rowid = link.1)
    {message : MessageInput τ} {timestamp : τ}
    (hnew : ∀ row ∈ db.messages, ¬ (row.id = message.id ∧ row.chatJid = message.chatJid)) :
    (db.persistMessage platform message timestamp).2 = db.nextRowid ∧
      Wrote db (db.persistMessage platform message timestamp).1 db.nextRowid message.id
        message.chatJid message.content message.contentBlocks [] := by
  have hfind : db.findMessage message.id message.chatJid = none := by
    refine List.find?_eq_none.2 fun row hrow => ?_
    simpa using hnew row hrow
  rw [persistMessage, hfind]
  refine ⟨rfl, ⟨?_, ?_, ?_, ?_, ?_⟩⟩
  · exact hkeyed.insertRow (fun old hold => (lt_nextRowid hold).ne) hnew
  · intro row hne
    simp only [messages_insertRow, List.mem_append, List.mem_singleton]
    constructor
    · rintro (hrow | rfl)
      · exact hrow
      · exact absurd rfl hne
    · exact Or.inl
  · exact ⟨message.row db.nextRowid timestamp, by simp, rfl, rfl, rfl, rfl, rfl⟩
  · intro link _
    exact Iff.rfl
  · intro mediaId
    refine ⟨fun hmem => ?_, fun hmem => absurd hmem (List.not_mem_nil)⟩
    obtain ⟨row, hrow, heq⟩ := hlinks _ hmem
    exact absurd heq (lt_nextRowid hrow).ne

theorem Wrote.again {rowId : ℕ} {id chatJid content content' : String}
    {blocks blocks' : Option String} {mediaIds mediaIds' : List ℕ} {db'' : MessageDb τ}
    (hfirst : Wrote db db' rowId id chatJid content blocks mediaIds)
    (hsecond : Wrote db' db'' rowId id chatJid content' blocks' mediaIds') :
    Wrote db db'' rowId id chatJid content' blocks' mediaIds' where
  keyed := hsecond.keyed
  others row hne := (hsecond.others row hne).trans (hfirst.others row hne)
  written := hsecond.written
  otherLinks link hne := (hsecond.otherLinks link hne).trans (hfirst.otherLinks link hne)
  links := hsecond.links

end MessageDb

namespace TimelineRequest
variable {τ : Type}

def messageId (request : TimelineRequest τ) : String := (request.message "" none).id

theorem message_id (request : TimelineRequest τ) (content : String) (blocks : Option String) :
    (request.message content blocks).id = request.messageId := by
  cases request <;> rfl

theorem message_chatJid (request : TimelineRequest τ) (content : String)
    (blocks : Option String) : (request.message content blocks).chatJid = request.chatJid := by
  cases request <;> rfl

theorem message_content (request : TimelineRequest τ) (content : String)
    (blocks : Option String) : (request.message content blocks).content = content ∧
      (request.message content blocks).contentBlocks = blocks := by
  cases request <;> exact ⟨rfl, rfl⟩

/-- The kinds of notices have no colon, so that an id is read in one way. -/
theorem noticeId_injective {kind kind' : ServiceNoticeKind} {source source' : String}
    (heq : "service-notice:" ++ kind.text ++ ":" ++ source =
      "service-notice:" ++ kind'.text ++ ":" ++ source') : kind = kind' ∧ source = source' := by
  have hlist := congrArg String.toList heq
  cases kind <;> cases kind' <;>
    simp [ServiceNoticeKind.text] at hlist ⊢ <;>
    exact String.toList_injective hlist

/-- Two requests with one message id have one key, or are notices of one source. -/
theorem messageId_eq {request request' : TimelineRequest τ}
    (heq : request.messageId = request'.messageId) :
    request.idempotencyKey = request'.idempotencyKey ∨ request.subject = request'.subject := by
  cases request with
  | draft draft =>
    cases request' with
    | draft draft' =>
      left
      have hlist := congrArg String.toList heq
      simp [messageId, message] at hlist
      exact String.toList_injective hlist
    | notice notice' =>
      have hlist := congrArg String.toList heq
      simp [messageId, message] at hlist
  | notice notice =>
    cases request' with
    | draft draft' =>
      have hlist := congrArg String.toList heq
      simp [messageId, message] at hlist
    | notice notice' =>
      right
      obtain ⟨hkind, hsource⟩ := noticeId_injective heq
      simp [subject, hkind, hsource]

end TimelineRequest
namespace TimelineStore
variable {τ : Type} {s s' : TimelineStore τ}

theorem latestDraft_some {operationId : String} {draftKind : TimelineDraftKind}
    {row : TimelineWriteRow τ} (hlatest : s.latestDraft operationId draftKind = some row) :
    row ∈ s.rows ∧ row.subject.target = .draft operationId draftKind ∧
      ∀ other ∈ s.rows, other.subject.target = .draft operationId draftKind →
        other.subject.revision.getD (-1) ≤ row.subject.revision.getD (-1) := by
  have hholds := List.find?_some hlatest
  simp only [Bool.and_eq_true, decide_eq_true_eq, List.all_eq_true, Bool.or_eq_true,
    Bool.not_eq_true', decide_eq_false_iff_not] at hholds
  exact ⟨List.mem_of_find?_eq_some hlatest, hholds.1, fun other hother htarget =>
    (hholds.2 other hother).resolve_left (fun hne => hne htarget)⟩

theorem latestDraft_none {operationId : String} {draftKind : TimelineDraftKind}
    (hnone : s.latestDraft operationId draftKind = none) :
    ∀ row ∈ s.rows, row.subject.target ≠ .draft operationId draftKind := by
  intro row hrow htarget
  -- The greatest revision of the rows for the target would have been found.
  set ofTarget := s.rows.filter fun other =>
    decide (other.subject.target = .draft operationId draftKind) with hofTarget
  have hmem : row ∈ ofTarget := List.mem_filter.2 ⟨hrow, by simpa using htarget⟩
  obtain ⟨top, htop, hgreatest⟩ := Multiset.exists_max_image
    (fun other : TimelineWriteRow τ => other.subject.revision.getD (-1)) (s := ofTarget)
    (by simpa using List.ne_nil_of_mem hmem)
  obtain ⟨htopMem, htopTarget⟩ := List.mem_filter.1 htop
  have hmissing := List.find?_eq_none.1 hnone top htopMem
  apply hmissing
  simp only [Bool.and_eq_true, List.all_eq_true, Bool.or_eq_true, Bool.not_eq_true',
    decide_eq_false_iff_not, decide_eq_true_eq]
  refine ⟨by simpa using htopTarget, fun other hother => ?_⟩
  by_cases hother' : other.subject.target = .draft operationId draftKind
  · exact Or.inr (hgreatest other (List.mem_filter.2 ⟨hother, by simpa using hother'⟩))
  · exact Or.inl hother'

theorem not_mem_of_findByKey {key : String} (hnone : s.findByKey key = none) :
    ∀ row ∈ s.rows, row.idempotencyKey ≠ key := by
  intro row hrow
  simpa using List.find?_eq_none.1 hnone row hrow

theorem not_mem_of_findSubject {subject : WriteSubject} (hnone : s.findSubject subject = none) :
    ∀ row ∈ s.rows, row.subject ≠ subject := by
  intro row hrow
  simpa using List.find?_eq_none.1 hnone row hrow

/-- What a transaction that writes has done: one record behind the others, for a key and a subject
that had none and a revision above all of its target, and one message row, which is new or that of
the target. -/
structure Committed (s s' : TimelineStore τ) (request : TimelineRequest τ) (content : String)
    (blocks : Option String) (rowId : ℕ) (id : String) : Prop where
  committed : s'.committed =
    s.committed ++ [⟨request.writeRow rowId, request, content, blocks⟩]
  pending : s'.pending = s.pending
  key : ∀ row ∈ s.rows, row.idempotencyKey ≠ request.idempotencyKey
  subject : ∀ row ∈ s.rows, row.subject ≠ request.subject
  revision : ∀ row ∈ s.rows, row.subject.target = request.subject.target →
    row.subject.revision.getD (-1) < request.subject.revision.getD (-1)
  wrote : s.db.Wrote s'.db rowId id request.chatJid content blocks request.mediaIds
  place : (rowId = s.db.nextRowid ∧ id = request.messageId ∧
      ∀ row ∈ s.rows, row.subject.target ≠ request.subject.target) ∨
    ((∃ row ∈ s.rows, row.subject.target = request.subject.target ∧ row.messageRowid = rowId) ∧
      ∃ row ∈ s.db.messages, row.rowid = rowId ∧ row.id = id)

section Transactions
variable [LinearOrder τ] {platform : MessagePlatform τ}

theorem committed_insert {request : TimelineRequest τ} {content : String}
    {blocks : Option String} {write : TimelineWrite τ} (hkeyed : s.db.Keyed)
    (hlinks : ∀ link ∈ s.db.messageMedia, ∃ row ∈ s.db.messages, row.rowid = link.1)
    (hnew : ∀ row ∈ s.db.messages, row.id ≠ request.messageId)
    (hkey : ∀ row ∈ s.rows, row.idempotencyKey ≠ request.idempotencyKey)
    (htarget : ∀ row ∈ s.rows, row.subject.target ≠ request.subject.target)
    (hwrote : s.insertMessage platform request content blocks = some (.wrote s' write)) :
    write = writeFromRow (request.writeRow s.db.nextRowid) ∧
      Committed s s' request content blocks s.db.nextRowid request.messageId := by
  have hsubject : ∀ row ∈ s.rows, row.subject ≠ request.subject :=
    fun row hrow heq => htarget row hrow (by rw [heq])
  have hplace : (s.db.nextRowid = s.db.nextRowid ∧ request.messageId = request.messageId ∧
      ∀ row ∈ s.rows, row.subject.target ≠ request.subject.target) := ⟨rfl, rfl, htarget⟩
  rw [insertMessage] at hwrote
  simp only [ensureChat, MessageDb.storeMessageInDatabase] at hwrote
  cases hgiven : s.db.ensureMonotonicTimestamp platform
      (request.message content blocks).chatJid (request.message content blocks).timestamp with
  | none =>
    rw [hgiven] at hwrote
    cases hwrote
  | some timestamp =>
    obtain ⟨hrowid, hfirst⟩ := @MessageDb.wrote_new τ platform s.db hkeyed hlinks
      (request.message content blocks) timestamp
      (fun row hrow hboth => hnew row hrow (hboth.1.trans (request.message_id content blocks)))
    rw [request.message_id, request.message_chatJid, (request.message_content content blocks).1,
      (request.message_content content blocks).2] at hfirst
    simp only [hgiven, Option.map_some] at hwrote
    split_ifs at hwrote with hmedia
    · simp only [record, Option.some.injEq, TimelineMutation.wrote.injEq] at hwrote
      obtain ⟨rfl, rfl⟩ := hwrote
      rw [hrowid]
      refine ⟨rfl, ⟨rfl, rfl, hkey, hsubject, fun row hrow heq => absurd heq (htarget row hrow), ?_,
        Or.inl hplace⟩⟩
      rw [hmedia]
      exact hfirst
    · cases hreplaced : (s.db.persistMessage platform (request.message content blocks)
          timestamp).1.replaceMessageContentInDatabase platform request.chatJid
          (s.db.persistMessage platform (request.message content blocks) timestamp).2 content
          (replaceOptions blocks request.mediaIds) with
      | none =>
        rw [hreplaced] at hwrote
        cases hwrote
      | some db =>
        rw [hreplaced] at hwrote
        simp only [record, Option.map_some, Option.some.injEq,
          TimelineMutation.wrote.injEq] at hwrote
        obtain ⟨rfl, rfl⟩ := hwrote
        obtain ⟨row, hrow, hrowRowid, -, hsecond⟩ :=
          MessageDb.wrote_replace hfirst.keyed rfl hreplaced
        rw [hrowid] at hrowRowid hsecond ⊢
        obtain ⟨written, hwritten, hwrittenRowid, hwrittenId, -⟩ := hfirst.written
        obtain rfl := hfirst.keyed.eq_of_rowid hrow hwritten (hrowRowid.trans hwrittenRowid.symm)
        rw [hwrittenId] at hsecond
        exact ⟨rfl, ⟨rfl, rfl, hkey, hsubject,
          fun row hrow heq => absurd heq (htarget row hrow), hfirst.again hsecond, Or.inl hplace⟩⟩

omit [LinearOrder τ] in
theorem committed_replace {request : CommitDraftRequest τ} {content : String}
    {blocks : Option String} {write : TimelineWrite τ} (hkeyed : s.db.Keyed)
    (hkey : ∀ row ∈ s.rows, row.idempotencyKey ≠ request.effect.idempotencyKey)
    (hsubject : ∀ row ∈ s.rows, row.subject ≠ (TimelineRequest.draft request).subject)
    (hrevision : ∀ row ∈ s.rows,
      row.subject.target = (TimelineRequest.draft request).subject.target →
        row.subject.revision.getD (-1) < request.revision)
    (hwrote : s.replaceDraft platform request content blocks
      (s.latestDraft request.effect.operationId request.draftKind) = .wrote s' write) :
    ∃ rowId id, write = writeFromRow ((TimelineRequest.draft request).writeRow rowId) ∧
      Committed s s' (.draft request) content blocks rowId id := by
  rw [replaceDraft.eq_def] at hwrote
  cases hexisting : request.existingRowId with
  | none => simp [hexisting] at hwrote
  | some rowId =>
    cases hlatest : s.latestDraft request.effect.operationId request.draftKind with
    | none => simp [hexisting, hlatest] at hwrote
    | some latest =>
      simp only [hexisting, hlatest] at hwrote
      split_ifs at hwrote with howner
      cases hcurrent : s.db.findRow rowId with
      | none => simp [hcurrent] at hwrote
      | some current =>
        simp only [hcurrent] at hwrote
        split_ifs at hwrote
        cases hreplaced : s.db.replaceMessageContentInDatabase platform request.chatJid rowId
            content (replaceOptions blocks request.mediaIds) with
        | none => simp [hreplaced] at hwrote
        | some db =>
          simp only [hreplaced, record, TimelineMutation.wrote.injEq] at hwrote
          obtain ⟨rfl, rfl⟩ := hwrote
          obtain ⟨row, hrow, hrowRowid, -, hdone⟩ :=
            MessageDb.wrote_replace hkeyed rfl hreplaced
          obtain ⟨hlatestMem, hlatestTarget, -⟩ := latestDraft_some hlatest
          rw [not_or, not_not] at howner
          exact ⟨rowId, row.id, rfl, ⟨rfl, rfl, hkey, hsubject, hrevision, hdone,
            Or.inr ⟨⟨latest, hlatestMem, hlatestTarget, howner.2⟩, row, hrow, hrowRowid, rfl⟩⟩⟩

theorem committed_transact {request : TimelineRequest τ} {content : String}
    {blocks : Option String} {write : TimelineWrite τ} (hkeyed : s.db.Keyed)
    (hlinks : ∀ link ∈ s.db.messageMedia, ∃ row ∈ s.db.messages, row.rowid = link.1)
    (hnew : (∀ row ∈ s.rows, row.idempotencyKey ≠ request.idempotencyKey) →
      (∀ row ∈ s.rows, row.subject ≠ request.subject) →
        ∀ row ∈ s.db.messages, row.id ≠ request.messageId)
    (hwrote : s.transact platform request content blocks = some (.wrote s' write)) :
    ∃ rowId id, write = writeFromRow (request.writeRow rowId) ∧
      Committed s s' request content blocks rowId id := by
  rw [transact.eq_def] at hwrote
  cases hbyKey : s.findByKey request.idempotencyKey with
  | some row => simp [hbyKey] at hwrote
  | none =>
    have hkey := not_mem_of_findByKey hbyKey
    cases hbySubject : s.findSubject request.subject with
    | some row => simp [hbyKey, hbySubject] at hwrote
    | none =>
      have hsubject := not_mem_of_findSubject hbySubject
      simp only [hbyKey, hbySubject] at hwrote
      cases request with
      | notice notice =>
        have htarget : ∀ row ∈ s.rows,
            row.subject.target ≠ (TimelineRequest.notice notice).subject.target := by
          intro row hrow heq
          apply hsubject row hrow
          cases hrowSubject : row.subject with
          | draft operationId draftKind revision =>
            rw [hrowSubject] at heq
            cases heq
          | notice kind source =>
            rw [hrowSubject] at heq
            simpa [WriteSubject.target, TimelineRequest.subject] using heq
        obtain ⟨hwrite, hcommitted⟩ :=
          committed_insert hkeyed hlinks (hnew hkey hsubject) hkey htarget hwrote
        exact ⟨_, _, hwrite, hcommitted⟩
      | draft draft =>
        simp only [writeDraft] at hwrote
        by_cases hstale : (s.latestDraft draft.effect.operationId draft.draftKind).any
            fun row => decide (draft.revision ≤ row.subject.revision.getD (-1))
        · simp [hstale] at hwrote
        by_cases howned : s.mediaAreDraftOwned draft.effect.operationId draft.mediaIds
        swap
        · simp [hstale, howned] at hwrote
        rw [if_neg hstale, if_neg (by simp [howned])] at hwrote
        have hrevision : ∀ row ∈ s.rows,
            row.subject.target = (TimelineRequest.draft draft).subject.target →
              row.subject.revision.getD (-1) < draft.revision := by
          intro row hrow htarget
          cases hlatest : s.latestDraft draft.effect.operationId draft.draftKind with
          | none => exact absurd htarget (latestDraft_none hlatest row hrow)
          | some latest =>
            have hle := (latestDraft_some hlatest).2.2 row hrow htarget
            simp only [hlatest, Option.any_some, decide_eq_true_eq, not_le] at hstale
            exact hle.trans_lt hstale
        cases hmode : draft.mode with
        | replace =>
          simp only [hmode, Option.some.injEq] at hwrote
          exact committed_replace hkeyed hkey hsubject hrevision hwrote
        | insert =>
          simp only [hmode] at hwrote
          by_cases hexists : (draft.existingRowId.isSome ||
              (s.latestDraft draft.effect.operationId draft.draftKind).isSome) = true
          · simp [hexists] at hwrote
          rw [if_neg hexists] at hwrote
          have hlatest : s.latestDraft draft.effect.operationId draft.draftKind = none := by
            rw [Bool.or_eq_true, not_or] at hexists
            simpa using hexists.2
          obtain ⟨hwrite, hcommitted⟩ := committed_insert hkeyed hlinks (hnew hkey hsubject) hkey
            (fun row hrow => latestDraft_none hlatest row hrow) hwrote
          exact ⟨_, _, hwrite, hcommitted⟩

end Transactions

/-- The messages of others: none has an id that the store gives, and media hang on messages. -/
structure Ready (base : MessageDb τ) : Prop where
  keyed : base.Keyed
  links : ∀ link ∈ base.messageMedia, ∃ row ∈ base.messages, row.rowid = link.1
  ids : ∀ row ∈ base.messages, ∀ request : TimelineRequest τ, row.id ≠ request.messageId

def revisionOf (c : CommittedWrite τ) : ℤ := c.row.subject.revision.getD (-1)

def targetOf (c : CommittedWrite τ) : TimelineTarget := c.row.subject.target

/-- The message row of a write, with what its payloads resolved to. -/
def Holds (db : MessageDb τ) (c : CommittedWrite τ) : Prop :=
  ∃ row ∈ db.messages, row.rowid = c.row.messageRowid ∧ row.chatJid = c.row.chatJid ∧
    row.content = c.content ∧ row.contentBlocks = c.blocks ∧
    ∀ mediaId, (row.rowid, mediaId) ∈ db.messageMedia ↔ mediaId ∈ c.request.mediaIds

/-- What holds after every run from the messages of others. -/
structure Kept (hashCanonicalRequest : TimelineRequest τ → String) (base : MessageDb τ)
    (s : TimelineStore τ) : Prop where
  keyed : s.db.Keyed
  links : ∀ link ∈ s.db.messageMedia, ∃ row ∈ s.db.messages, row.rowid = link.1
  keys : (s.rows.map TimelineWriteRow.idempotencyKey).Nodup
  requests : ∀ c ∈ s.committed, c.row = c.request.writeRow c.row.messageRowid ∧
    c.request.requestHash = hashCanonicalRequest c.request
  increasing : s.committed.Pairwise fun c c' => targetOf c = targetOf c' →
    revisionOf c < revisionOf c'
  places : ∀ c ∈ s.committed, ∀ c' ∈ s.committed,
    c.row.messageRowid = c'.row.messageRowid ↔ targetOf c = targetOf c'
  holds : ∀ c ∈ s.committed, (∀ c' ∈ s.committed, targetOf c' = targetOf c →
    revisionOf c' ≤ revisionOf c) → Holds s.db c
  origins : ∀ row ∈ s.db.messages, row ∈ base.messages ∨ ∃ c ∈ s.committed,
    row.rowid = c.row.messageRowid ∧ ∃ c' ∈ s.committed, row.id = c'.request.messageId
  present : ∀ c ∈ s.committed, ∃ row ∈ s.db.messages, row.rowid = c.row.messageRowid
  others : ∀ row ∈ base.messages, row ∈ s.db.messages ∧
    ∀ c ∈ s.committed, row.rowid ≠ c.row.messageRowid
  valid : ∀ call p, s.pending call = some p →
    p.request.requestHash = hashCanonicalRequest p.request

section Commits
variable {hashCanonicalRequest : TimelineRequest τ → String} {base : MessageDb τ}

theorem mem_rows {row : TimelineWriteRow τ} : row ∈ s.rows ↔ ∃ c ∈ s.committed, c.row = row :=
  List.mem_map

theorem kept_opened (hready : Ready base) : Kept hashCanonicalRequest base (opened base) where
  keyed := hready.keyed
  links := hready.links
  keys := List.nodup_nil
  requests := by simp [opened]
  increasing := List.Pairwise.nil
  places := by simp [opened]
  holds := by simp [opened]
  origins row hrow := Or.inl hrow
  present := by simp [opened]
  others row hrow := ⟨hrow, by simp [opened]⟩
  valid := by simp [opened]

/-- A message with the id of a request is there only where its key or its subject is written. -/
theorem Kept.new (hkept : Kept hashCanonicalRequest base s) (hready : Ready base)
    {request : TimelineRequest τ}
    (hkey : ∀ row ∈ s.rows, row.idempotencyKey ≠ request.idempotencyKey)
    (hsubject : ∀ row ∈ s.rows, row.subject ≠ request.subject) :
    ∀ row ∈ s.db.messages, row.id ≠ request.messageId := by
  intro row hrow hid
  rcases hkept.origins row hrow with hbase | ⟨-, -, -, c, hc, hcId⟩
  · exact hready.ids row hbase request hid
  · have hrowOf := (hkept.requests c hc).1
    rcases TimelineRequest.messageId_eq (hcId.symm.trans hid) with heq | heq
    · exact hkey c.row (mem_rows.2 ⟨c, hc, rfl⟩) (by rw [hrowOf]; exact heq)
    · exact hsubject c.row (mem_rows.2 ⟨c, hc, rfl⟩) (by rw [hrowOf]; exact heq)

/-- A write stands at the row of its target, or at a row that is none of the others'. -/
theorem Kept.place_iff (hkept : Kept hashCanonicalRequest base s) {request : TimelineRequest τ}
    {content : String} {blocks : Option String} {rowId : ℕ} {id : String}
    (hcommitted : Committed s s' request content blocks rowId id) :
    ∀ c ∈ s.committed, c.row.messageRowid = rowId ↔ targetOf c = request.subject.target := by
  intro c hc
  rcases hcommitted.place with ⟨rfl, -, hnone⟩ | ⟨⟨row, hrow, htarget, rfl⟩, -⟩
  · obtain ⟨message, hmessage, hrowid⟩ := hkept.present c hc
    constructor
    · intro heq
      exact absurd (hrowid.trans heq) (MessageDb.lt_nextRowid hmessage).ne
    · intro heq
      exact absurd heq (hnone c.row (mem_rows.2 ⟨c, hc, rfl⟩))
  · obtain ⟨c', hc', rfl⟩ := mem_rows.1 hrow
    rw [← htarget]
    exact hkept.places c hc c' hc'

theorem kept_commit (hkept : Kept hashCanonicalRequest base s)
    {request : TimelineRequest τ} {content : String} {blocks : Option String} {rowId : ℕ}
    {id : String} (hvalid : request.requestHash = hashCanonicalRequest request)
    (hcommitted : Committed s s' request content blocks rowId id) :
    Kept hashCanonicalRequest base s' := by
  have hplace := hkept.place_iff hcommitted
  obtain ⟨written, hwritten, hwrittenRowid, hwrittenId, hwrittenChat, hcontent, hblocks⟩ :=
    hcommitted.wrote.written
  set new : CommittedWrite τ := ⟨request.writeRow rowId, request, content, blocks⟩ with hnew
  have hmem {c : CommittedWrite τ} : c ∈ s'.committed ↔ c ∈ s.committed ∨ c = new := by
    rw [hcommitted.committed, List.mem_append, List.mem_singleton]
  have hbase : ∀ row ∈ base.messages, row.rowid ≠ rowId := by
    intro row hrow
    rcases hcommitted.place with ⟨rfl, -, -⟩ | ⟨⟨other, hother, -, rfl⟩, -⟩
    · exact (MessageDb.lt_nextRowid (hkept.others row hrow).1).ne
    · obtain ⟨c, hc, rfl⟩ := mem_rows.1 hother
      exact (hkept.others row hrow).2 c hc
  have hbelow : ∀ c ∈ s.committed, targetOf c = targetOf new → revisionOf c < revisionOf new :=
    fun c hc htarget => hcommitted.revision c.row (mem_rows.2 ⟨c, hc, rfl⟩) htarget
  constructor
  · exact hcommitted.wrote.keyed
  · intro link hlink
    by_cases heq : link.1 = rowId
    · exact ⟨written, hwritten, hwrittenRowid.trans heq.symm⟩
    · obtain ⟨row, hrow, hrowid⟩ :=
        hkept.links link ((hcommitted.wrote.otherLinks link heq).1 hlink)
      exact ⟨row, (hcommitted.wrote.others row (hrowid ▸ heq)).2 hrow, hrowid⟩
  · have hrows : s'.rows = s.rows ++ [request.writeRow rowId] := by
      rw [rows, hcommitted.committed, List.map_append]
      rfl
    rw [hrows, List.map_append, List.nodup_append]
    refine ⟨hkept.keys, List.nodup_singleton _, ?_⟩
    intro key hkey other hother
    obtain ⟨row, hrow, rfl⟩ := List.mem_map.1 hkey
    obtain rfl := List.mem_singleton.1 hother
    exact hcommitted.key row hrow
  · intro c hc
    rcases hmem.1 hc with hc | rfl
    · exact hkept.requests c hc
    · exact ⟨rfl, hvalid⟩
  · rw [hcommitted.committed, List.pairwise_append]
    refine ⟨hkept.increasing, List.pairwise_singleton _ _, fun c hc c' hc' => ?_⟩
    obtain rfl := List.mem_singleton.1 hc'
    exact hbelow c hc
  · intro c hc c' hc'
    rcases hmem.1 hc with hc | rfl <;> rcases hmem.1 hc' with hc' | rfl
    · exact hkept.places c hc c' hc'
    · exact hplace c hc
    · exact eq_comm.trans ((hplace c' hc').trans eq_comm)
    · exact ⟨fun _ => rfl, fun _ => rfl⟩
  · intro c hc hlatest
    rcases hmem.1 hc with hc | rfl
    · -- A newer write of the target would stand above it.
      have hother : targetOf c ≠ targetOf new := fun htarget =>
        absurd (hlatest new (hmem.2 (Or.inr rfl)) htarget.symm) (hbelow c hc htarget).not_ge
      have hne : c.row.messageRowid ≠ rowId := fun heq => hother ((hplace c hc).1 heq)
      obtain ⟨row, hrow, hrowid, hrest⟩ := hkept.holds c hc
        (fun c' hc' => hlatest c' (hmem.2 (Or.inl hc')))
      obtain ⟨hchat, hcontent, hblocks, hmedia⟩ := hrest
      have hrowNe : row.rowid ≠ rowId := hrowid ▸ hne
      refine ⟨row, (hcommitted.wrote.others row hrowNe).2 hrow, hrowid, hchat, hcontent, hblocks,
        fun mediaId => ?_⟩
      rw [hcommitted.wrote.otherLinks (row.rowid, mediaId) hrowNe]
      exact hmedia mediaId
    · refine ⟨written, hwritten, hwrittenRowid, hwrittenChat, hcontent, hblocks, ?_⟩
      rw [hwrittenRowid]
      exact hcommitted.wrote.links
  · intro row hrow
    by_cases heq : row.rowid = rowId
    · obtain rfl := hcommitted.wrote.keyed.eq_of_rowid hrow hwritten (heq.trans hwrittenRowid.symm)
      right
      refine ⟨new, hmem.2 (Or.inr rfl), heq, ?_⟩
      rcases hcommitted.place with ⟨-, rfl, -⟩ | ⟨-, old, hold, holdRowid, holdId⟩
      · exact ⟨new, hmem.2 (Or.inr rfl), hwrittenId⟩
      · rcases hkept.origins old hold with hold' | ⟨-, -, -, c, hc, hcId⟩
        · exact absurd holdRowid (hbase old hold')
        · exact ⟨c, hmem.2 (Or.inl hc), hwrittenId.trans (holdId.symm.trans hcId)⟩
    · rcases hkept.origins row ((hcommitted.wrote.others row heq).1 hrow) with
        hrow | ⟨c, hc, hrowid, c', hc', hid⟩
      · exact Or.inl hrow
      · exact Or.inr ⟨c, hmem.2 (Or.inl hc), hrowid, c', hmem.2 (Or.inl hc'), hid⟩
  · intro c hc
    rcases hmem.1 hc with hc | rfl
    · obtain ⟨row, hrow, hrowid⟩ := hkept.present c hc
      by_cases heq : row.rowid = rowId
      · exact ⟨written, hwritten, hwrittenRowid.trans (heq.symm.trans hrowid)⟩
      · exact ⟨row, (hcommitted.wrote.others row heq).2 hrow, hrowid⟩
    · exact ⟨written, hwritten, hwrittenRowid⟩
  · intro row hrow
    obtain ⟨hpresent, hne⟩ := hkept.others row hrow
    refine ⟨(hcommitted.wrote.others row (hbase row hrow)).2 hpresent, fun c hc => ?_⟩
    rcases hmem.1 hc with hc | rfl
    · exact hne c hc
    · exact hbase row hrow
  · rw [hcommitted.pending]
    exact hkept.valid

theorem Kept.quiet (hkept : Kept hashCanonicalRequest base s) (hdb : s'.db = s.db)
    (hcommitted : s'.committed = s.committed)
    (hvalid : ∀ call p, s'.pending call = some p →
      p.request.requestHash = hashCanonicalRequest p.request) :
    Kept hashCanonicalRequest base s' where
  keyed := hdb ▸ hkept.keyed
  links := hdb ▸ hkept.links
  keys := by
    rw [rows, hcommitted]
    exact hkept.keys
  requests := hcommitted ▸ hkept.requests
  increasing := hcommitted ▸ hkept.increasing
  places := hcommitted ▸ hkept.places
  holds := by
    rw [hcommitted, hdb]
    exact hkept.holds
  origins := by
    rw [hcommitted, hdb]
    exact hkept.origins
  present := by
    rw [hcommitted, hdb]
    exact hkept.present
  others := by
    rw [hcommitted, hdb]
    exact hkept.others
  valid := hvalid

end Commits

section Steps
variable [LinearOrder τ] {platform : MessagePlatform τ}
  {hashCanonicalRequest : TimelineRequest τ → String} {base : MessageDb τ}

def SameTables (s s' : TimelineStore τ) : Prop :=
  s'.db = s.db ∧ s'.chats = s.chats ∧ s'.committed = s.committed

def requestOf (s : TimelineStore τ) : TimelineEvent τ → Option (TimelineRequest τ)
  | .submit request _ => some request
  | .resolved call _ _ => (s.pending call).map PendingCommit.request
  | .admitted call _ => (s.pending call).map PendingCommit.request
  | .failed call => (s.pending call).map PendingCommit.request
  | .own _ => none

/-- An event leaves the tables and answers with an error or with an earlier write of the same
request hash, or it commits the request of a waiting call. -/
def Outcome (platform : MessagePlatform τ) (hashCanonicalRequest : TimelineRequest τ → String)
    (s : TimelineStore τ) (event : TimelineEvent τ) : Prop :=
  (SameTables s (step platform hashCanonicalRequest s event).1 ∧
    (∀ call p, (step platform hashCanonicalRequest s event).1.pending call = some p →
      p.request.requestHash = hashCanonicalRequest p.request) ∧
    ∀ call write, (step platform hashCanonicalRequest s event).2 = some (call, .ok write) →
      ∃ request, requestOf s event = some request ∧ ∃ row ∈ s.rows,
        write = writeFromRow row ∧ row.requestHash = request.requestHash) ∨
  ∃ call request content blocks rowId id lost,
    event = .admitted call lost ∧ s.pending call = some ⟨request, some (content, blocks)⟩ ∧
    ∃ s', Committed s s' request content blocks rowId id ∧
      step platform hashCanonicalRequest s event = s'.answered call
        (if lost then unknown else .ok (writeFromRow (request.writeRow rowId)))

omit [LinearOrder τ] in
theorem replayOrConflict_ok {requestHash : String} {row : TimelineWriteRow τ}
    {write : TimelineWrite τ} (hok : replayOrConflict requestHash row = .ok write) :
    write = writeFromRow row ∧ row.requestHash = requestHash := by
  rw [replayOrConflict] at hok
  split_ifs at hok with heq
  · simp only [Except.ok.injEq] at hok
    exact ⟨hok.symm, heq⟩
  · cases hok

omit [LinearOrder τ] in
theorem pending_answered {call : ℕ} {answer : TimelineAnswer τ} {other : ℕ}
    {p : PendingCommit τ} (hp : (s.answered call answer).1.pending other = some p) :
    s.pending other = some p := by
  simp only [answered, Function.update_apply] at hp
  split_ifs at hp
  exact hp

theorem insertMessage_ne_replayed {request : TimelineRequest τ} {content : String}
    {blocks : Option String} {answer : TimelineAnswer τ} :
    s.insertMessage platform request content blocks ≠ some (.replayed answer) := by
  rw [insertMessage]
  cases (s.ensureChat request.chatJid request.writtenAt).db.storeMessageInDatabase platform
      (request.message content blocks) with
  | none => simp
  | some stored =>
    simp only
    split_ifs
    · simp [record]
    · cases stored.1.replaceMessageContentInDatabase platform request.chatJid stored.2 content
        (replaceOptions blocks request.mediaIds) <;> simp [record]

omit [LinearOrder τ] in
theorem replaceDraft_ne_replayed {request : CommitDraftRequest τ} {content : String}
    {blocks : Option String} {latest : Option (TimelineWriteRow τ)}
    {answer : TimelineAnswer τ} :
    s.replaceDraft platform request content blocks latest ≠ .replayed answer := by
  rw [replaceDraft.eq_def]
  split
  · split_ifs
    · simp
    · split
      · simp
      · split_ifs
        · simp
        · split <;> simp [record]
  · simp

theorem transact_replayed {request : TimelineRequest τ} {content : String}
    {blocks : Option String} {write : TimelineWrite τ}
    (hreplayed : s.transact platform request content blocks = some (.replayed (.ok write))) :
    ∃ row ∈ s.rows, write = writeFromRow row ∧ row.requestHash = request.requestHash := by
  rw [transact.eq_def] at hreplayed
  cases hbyKey : s.findByKey request.idempotencyKey with
  | some row =>
    simp only [hbyKey, Option.some.injEq, TimelineMutation.replayed.injEq] at hreplayed
    exact ⟨row, List.mem_of_find?_eq_some hbyKey, replayOrConflict_ok hreplayed⟩
  | none =>
    cases hbySubject : s.findSubject request.subject with
    | some row =>
      simp only [hbyKey, hbySubject, Option.some.injEq,
        TimelineMutation.replayed.injEq] at hreplayed
      exact ⟨row, List.mem_of_find?_eq_some hbySubject, replayOrConflict_ok hreplayed⟩
    | none =>
      simp only [hbyKey, hbySubject] at hreplayed
      cases request with
      | notice notice => exact absurd hreplayed insertMessage_ne_replayed
      | draft draft =>
        simp only [writeDraft] at hreplayed
        split_ifs at hreplayed
        · simp at hreplayed
        · simp at hreplayed
        all_goals
          cases hmode : draft.mode with
          | replace =>
            simp only [hmode, Option.some.injEq] at hreplayed
            exact absurd hreplayed replaceDraft_ne_replayed
          | insert =>
            simp only [hmode] at hreplayed
            first
              | exact absurd hreplayed insertMessage_ne_replayed
              | simp at hreplayed

omit [LinearOrder τ] in
theorem precheck_ok {request : TimelineRequest τ} {fault : Option SubmitFault}
    {write : TimelineWrite τ}
    (hok : s.precheck hashCanonicalRequest request fault = some (.ok write)) :
    ∃ row ∈ s.rows, write = writeFromRow row ∧ row.requestHash = request.requestHash := by
  rw [precheck] at hok
  by_cases hhash : request.requestHash ≠ hashCanonicalRequest request
  · simp [hhash, failure] at hok
  by_cases hbefore : fault = some .beforeEffect
  · simp [hhash, hbefore] at hok
  by_cases hread : fault = some .readFailed
  · simp [hhash, hread, unknown] at hok
  rw [if_neg hhash, if_neg hbefore, if_neg hread] at hok
  cases hfound : s.findByKey request.idempotencyKey <|> s.findSubject request.subject with
  | none =>
    rw [hfound] at hok
    by_cases hrevision : request.hasValidRevision = true <;> simp [hrevision, failure] at hok
  | some row =>
    simp only [hfound, Option.some.injEq] at hok
    have hrow : row ∈ s.rows := by
      rcases (Option.orElse_eq_some _ _ _).1 hfound with hfind | ⟨-, hfind⟩
      · exact List.mem_of_find?_eq_some hfind
      · exact List.mem_of_find?_eq_some hfind
    exact ⟨row, hrow, replayOrConflict_ok hok⟩

theorem outcome_step (hkept : Kept hashCanonicalRequest base s) (hready : Ready base)
    (event : TimelineEvent τ) : Outcome platform hashCanonicalRequest s event := by
  have hvalid := hkept.valid
  cases event with
  | own draftMedia =>
    left
    exact ⟨⟨rfl, rfl, rfl⟩, hvalid, by simp [step]⟩
  | failed call =>
    left
    simp only [step]
    cases hpending : s.pending call with
    | none => exact ⟨⟨rfl, rfl, rfl⟩, hvalid, by simp⟩
    | some p =>
      exact ⟨⟨rfl, rfl, rfl⟩, fun other q hq => hvalid other q (pending_answered hq),
        by simp [answered, unknown]⟩
  | resolved call content blocks =>
    left
    simp only [step]
    cases hpending : s.pending call with
    | none => exact ⟨⟨rfl, rfl, rfl⟩, hvalid, by simp⟩
    | some p =>
      obtain ⟨request, resolved⟩ := p
      cases resolved with
      | some resolved => exact ⟨⟨rfl, rfl, rfl⟩, hvalid, by simp⟩
      | none =>
        cases hresolved : resolveTimelinePayloads request.contentBlocksRef content blocks with
        | error tag =>
          simp only [hresolved]
          exact ⟨⟨rfl, rfl, rfl⟩, fun other q hq => hvalid other q (pending_answered hq),
            by simp [answered, failure]⟩
        | ok resolved =>
          simp only [hresolved]
          refine ⟨⟨rfl, rfl, rfl⟩, fun other q hq => ?_, by simp⟩
          rw [Function.update_apply] at hq
          split_ifs at hq
          · obtain rfl := Option.some.inj hq
            have hrequest := hvalid call ⟨request, none⟩ hpending
            exact hrequest
          · exact hvalid other q hq
  | submit request fault =>
    left
    simp only [step]
    cases hprecheck : s.precheck hashCanonicalRequest request fault with
    | some answer =>
      refine ⟨⟨rfl, rfl, rfl⟩, fun other q hq => hvalid other q
        (@pending_answered τ s s.nextCall answer other q hq),
        fun call write hok => ⟨request, rfl, ?_⟩⟩
      simp only [answered, Option.some.injEq, Prod.mk.injEq] at hok
      rw [hok.2] at hprecheck
      exact precheck_ok hprecheck
    | none =>
      have hhash : request.requestHash = hashCanonicalRequest request := by
        by_contra hne
        simp [precheck, hne] at hprecheck
      refine ⟨⟨rfl, rfl, rfl⟩, fun other q hq => ?_, by simp⟩
      simp only [Function.update_apply] at hq
      split_ifs at hq
      · obtain rfl := Option.some.inj hq
        exact hhash
      · exact hvalid other q hq
  | admitted call lost =>
    cases hpending : s.pending call with
    | none =>
      left
      simp only [step, hpending]
      exact ⟨⟨rfl, rfl, rfl⟩, hvalid, by simp⟩
    | some p =>
      obtain ⟨request, resolved⟩ := p
      cases resolved with
      | none =>
        left
        simp only [step, hpending]
        exact ⟨⟨rfl, rfl, rfl⟩, hvalid, by simp⟩
      | some resolved =>
        obtain ⟨content, blocks⟩ := resolved
        cases htransact : s.transact platform request content blocks with
        | none =>
          left
          simp only [step, hpending, htransact]
          exact ⟨⟨rfl, rfl, rfl⟩, fun other q hq => hvalid other q (pending_answered hq),
            by simp [answered, unknown]⟩
        | some mutation =>
          cases mutation with
          | refused tag =>
            left
            simp only [step, hpending, htransact]
            exact ⟨⟨rfl, rfl, rfl⟩, fun other q hq => hvalid other q (pending_answered hq),
              by simp [answered, failure]⟩
          | replayed answer =>
            left
            simp only [step, hpending, htransact]
            refine ⟨⟨rfl, rfl, rfl⟩, fun other q hq => hvalid other q (pending_answered hq),
              fun other write hok => ⟨request, by simp [requestOf, hpending], ?_⟩⟩
            simp only [answered, Option.some.injEq, Prod.mk.injEq] at hok
            rw [hok.2] at htransact
            exact transact_replayed htransact
          | wrote s' write =>
            right
            obtain ⟨rowId, id, hwrite, hcommitted⟩ := committed_transact hkept.keyed hkept.links
              (hkept.new hready) htransact
            refine ⟨call, request, content, blocks, rowId, id, lost, rfl, hpending, s', hcommitted,
              ?_⟩
            simp only [step, hpending, htransact, hwrite]

theorem kept_step (hready : Ready base) (hkept : Kept hashCanonicalRequest base s)
    (event : TimelineEvent τ) :
    Kept hashCanonicalRequest base (step platform hashCanonicalRequest s event).1 := by
  rcases outcome_step hkept hready event with
    ⟨⟨hdb, -, hcommitted⟩, hvalid, -⟩ |
      ⟨call, request, content, blocks, rowId, id, lost, rfl, hpending, s', hcommitted, hstep⟩
  · exact hkept.quiet hdb hcommitted hvalid
  · rw [hstep]
    have hcommit := kept_commit hkept (hkept.valid call _ hpending) hcommitted
    exact hcommit.quiet rfl rfl fun other q hq => hcommit.valid other q (pending_answered hq)

theorem kept_run (hready : Ready base) (events : List (TimelineEvent τ))
    (hkept : Kept hashCanonicalRequest base s) :
    Kept hashCanonicalRequest base (run platform hashCanonicalRequest s events) := by
  induction events generalizing s with
  | nil => exact hkept
  | cons event events ih => exact ih (kept_step hready hkept event)

theorem committed_grows (hready : Ready base) (events : List (TimelineEvent τ))
    (hkept : Kept hashCanonicalRequest base s) :
    s.committed <+: (run platform hashCanonicalRequest s events).committed := by
  induction events generalizing s with
  | nil => exact List.prefix_refl _
  | cons event events ih =>
    have hone : s.committed <+: (step platform hashCanonicalRequest s event).1.committed := by
      rcases outcome_step hkept hready event with
        ⟨⟨-, -, hcommitted⟩, -, -⟩ |
          ⟨call, request, content, blocks, rowId, id, lost, -, -, s', hcommitted, hstep⟩
      · rw [hcommitted]
      · rw [hstep]
        simp only [answered, hcommitted.committed]
        exact List.prefix_append _ _
    exact hone.trans (ih (kept_step hready hkept event))

/-- A committed request finds its own row by its key. -/
theorem Kept.resubmitted (hkept : Kept hashCanonicalRequest base s) {c : CommittedWrite τ}
    (hc : c ∈ s.committed) :
    (step platform hashCanonicalRequest s (.submit c.request none)).2 =
        some (s.nextCall, .ok (writeFromRow c.row)) ∧
      SameTables s (step platform hashCanonicalRequest s (.submit c.request none)).1 := by
  obtain ⟨hrow, hhash⟩ := hkept.requests c hc
  have hmem : c.row ∈ s.rows := mem_rows.2 ⟨c, hc, rfl⟩
  have hkey : c.row.idempotencyKey = c.request.idempotencyKey := by rw [hrow]; rfl
  have hrowHash : c.row.requestHash = c.request.requestHash := by rw [hrow]; rfl
  have hfound : s.findByKey c.request.idempotencyKey = some c.row := by
    cases hfind : s.findByKey c.request.idempotencyKey with
    | none => exact absurd hkey (not_mem_of_findByKey hfind c.row hmem)
    | some row =>
      have hrowKey : row.idempotencyKey = c.request.idempotencyKey := by
        simpa using List.find?_some hfind
      rw [List.inj_on_of_nodup_map hkept.keys (List.mem_of_find?_eq_some hfind) hmem
        (hrowKey.trans hkey.symm)]
  have hprecheck : s.precheck hashCanonicalRequest c.request none =
      some (.ok (writeFromRow c.row)) := by
    simp [precheck, hhash.symm, hfound, replayOrConflict, hrowHash]
  simp only [step, hprecheck]
  exact ⟨rfl, rfl, rfl, rfl⟩

end Steps

/-- A message row that was written for a target. -/
def RowOf (s : TimelineStore τ) (target : TimelineTarget) (row : StoredMessage τ) : Prop :=
  row ∈ s.db.messages ∧ ∃ c ∈ s.committed, targetOf c = target ∧ c.row.messageRowid = row.rowid

/-- A definite error: nothing was applied, and the caller knows. -/
def Definite (answer : TimelineAnswer τ) : Prop :=
  ∃ error, answer = .error error ∧ error.certainty ≠ .unknown

/-- What the store promises in a state. -/
structure Promises [LinearOrder τ] (platform : MessagePlatform τ)
    (hashCanonicalRequest : TimelineRequest τ → String) (base : MessageDb τ)
    (s : TimelineStore τ) : Prop where
  oneRow : ∀ target row row', RowOf s target row → RowOf s target row' → row = row'
  apart : ∀ target target' row, RowOf s target row → RowOf s target' row → target = target'
  written : ∀ row ∈ s.db.messages, row ∈ base.messages ∨ ∃ target, RowOf s target row
  increasing : s.committed.Pairwise fun c c' => targetOf c = targetOf c' →
    revisionOf c < revisionOf c'
  highest : ∀ c ∈ s.committed, (∀ c' ∈ s.committed, targetOf c' = targetOf c →
    revisionOf c' ≤ revisionOf c) → Holds s.db c
  resubmitted : ∀ c ∈ s.committed, ∀ events,
    let later := run platform hashCanonicalRequest s events
    (step platform hashCanonicalRequest later (.submit c.request none)).2 =
        some (later.nextCall, .ok (writeFromRow c.row)) ∧
      SameTables later (step platform hashCanonicalRequest later (.submit c.request none)).1
  answered : ∀ event call write,
    (step platform hashCanonicalRequest s event).2 = some (call, .ok write) →
      ∃ request, requestOf s event = some request ∧
        ∃ c ∈ (step platform hashCanonicalRequest s event).1.committed,
          write = writeFromRow c.row ∧ c.row.requestHash = request.requestHash
  refused : ∀ event, (∀ call answer,
      (step platform hashCanonicalRequest s event).2 = some (call, answer) → Definite answer) →
    SameTables s (step platform hashCanonicalRequest s event).1

/-- Whatever the order of the calls' steps, each target has one message row with the content of
its highest revision, revisions increase, a committed request is answered with its write again,
and a call changes tables only in the event that answers it, with its write or with an error whose
effect is unknown. -/
theorem run_promises [LinearOrder τ] (platform : MessagePlatform τ)
    (hashCanonicalRequest : TimelineRequest τ → String) (base : MessageDb τ)
    (hready : Ready base) (events : List (TimelineEvent τ)) :
    Promises platform hashCanonicalRequest base
      (run platform hashCanonicalRequest (opened base) events) := by
  set s := run platform hashCanonicalRequest (opened base) events with hs
  have hkept : Kept hashCanonicalRequest base s := kept_run hready events (kept_opened hready)
  constructor
  · rintro target row row' ⟨hrow, c, hc, htarget, hrowid⟩ ⟨hrow', c', hc', htarget', hrowid'⟩
    have hplace := (hkept.places c hc c' hc').2 (htarget.trans htarget'.symm)
    exact hkept.keyed.eq_of_rowid hrow hrow' (hrowid.symm.trans (hplace.trans hrowid'))
  · rintro target target' row ⟨-, c, hc, htarget, hrowid⟩ ⟨-, c', hc', htarget', hrowid'⟩
    rw [← htarget, ← htarget']
    exact (hkept.places c hc c' hc').1 (hrowid.trans hrowid'.symm)
  · intro row hrow
    rcases hkept.origins row hrow with hbase | ⟨c, hc, hrowid, -⟩
    · exact Or.inl hbase
    · exact Or.inr ⟨targetOf c, hrow, c, hc, rfl, hrowid.symm⟩
  · exact hkept.increasing
  · exact hkept.holds
  · intro c hc more later
    exact (kept_run hready more hkept).resubmitted
      ((committed_grows hready more hkept).subset hc)
  · intro event call write hok
    rcases outcome_step hkept hready event with
      ⟨⟨-, -, hcommitted⟩, -, hanswer⟩ |
        ⟨other, request, content, blocks, rowId, id, lost, rfl, hpending, s', hcommitted, hstep⟩
    · obtain ⟨request, hrequest, row, hrow, hwrite, hhash⟩ := hanswer call write hok
      obtain ⟨c, hc, rfl⟩ := mem_rows.1 hrow
      exact ⟨request, hrequest, c, hcommitted ▸ hc, hwrite, hhash⟩
    · refine ⟨request, by simp [requestOf, hpending], ⟨request.writeRow rowId, request, content,
        blocks⟩, ?_, ?_, rfl⟩
      · rw [hstep]
        simp [TimelineStore.answered, hcommitted.committed]
      · rw [hstep] at hok
        simp only [TimelineStore.answered, Option.some.injEq, Prod.mk.injEq] at hok
        cases lost with
        | true => simp [unknown] at hok
        | false => simpa using hok.2.symm
  · intro event hdefinite
    rcases outcome_step hkept hready event with
      ⟨hsame, -⟩ |
        ⟨call, request, content, blocks, rowId, id, lost, rfl, hpending, s', hcommitted, hstep⟩
    · exact hsame
    · obtain ⟨error, herror, hcertainty⟩ := hdefinite call _ (by rw [hstep]; rfl)
      cases lost with
      | true =>
        simp only [if_true, unknown, Except.error.injEq] at herror
        rw [← herror] at hcertainty
        exact absurd rfl hcertainty
      | false => simp at herror

def sampleDraft (key : String) (revision : ℤ) (mode : DraftMode) (existingRowId : Option ℕ) :
    TimelineRequest (List Char) :=
  .draft {
    effect := ⟨key, key, "op", none, "provenance", "internal"⟩
    chatJid := "web:default"
    draftKind := .assistantProgress
    revision := revision
    mode := mode
    existingRowId := existingRowId
    contentRef := "ref:" ++ key
    threadId := none
    mediaIds := []
    contentBlocksRef := none
    writtenAt := "2026-01-01T00:00:00.000Z".toList }

/-- Two inserts overlap, a replacement follows, the first request is sent again. -/
def sampleEvents : List (TimelineEvent (List Char)) :=
  [.submit (sampleDraft "a" 0 .insert none) none, .submit (sampleDraft "b" 1 .insert none) none,
    .resolved 1 (some "second") none, .resolved 0 (some "first") none, .admitted 0 false,
    .admitted 1 false, .submit (sampleDraft "c" 2 .replace (some 1)) none,
    .resolved 2 (some "third") none, .admitted 2 true,
    .submit (sampleDraft "a" 0 .insert none) none]

theorem run_promises_sample :
    Promises (isoPlatform fun _ => 0) TimelineRequest.idempotencyKey MessageDb.initial
      (run (isoPlatform fun _ => 0) TimelineRequest.idempotencyKey (opened MessageDb.initial)
        sampleEvents) :=
  run_promises _ _ _ ⟨MessageDb.keyed_initial, by simp [MessageDb.initial],
    by simp [MessageDb.initial]⟩ _

example : (run (isoPlatform fun _ => 0) TimelineRequest.idempotencyKey (opened MessageDb.initial)
    sampleEvents).db.messages.map (fun row => (row.rowid, row.content)) = [(1, "third")] := by
  decide +kernel

end TimelineStore
end Piclaw
