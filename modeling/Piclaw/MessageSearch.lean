import Piclaw.Messages

/-!
# The index of the messages

`messages_fts` through its triggers and `appendMediaTextToFts`. The index is right when the entry
of each message holds the tokens of its content and of the indexable texts attached to it, and no
other rowid has an entry.
-/

namespace Piclaw

/-- A line end separates tokens. -/
structure MessagePlatform.Separates {τ : Type} (platform : MessagePlatform τ) : Prop where
  empty : platform.tokens "" = 0
  lines : ∀ a b, platform.tokens (a ++ "\n" ++ b) = platform.tokens a + platform.tokens b

namespace MessagePlatform
variable {τ : Type} {platform : MessagePlatform τ}

theorem Separates.blank_line (hseparates : platform.Separates) (a b : String) :
    platform.tokens (a ++ "\n\n" ++ b) = platform.tokens a + platform.tokens b := by
  have hsplit : a ++ "\n\n" ++ b = a ++ "\n" ++ ("" ++ "\n" ++ b) := by
    apply String.toList_injective
    simp
  rw [hsplit, hseparates.lines, hseparates.lines, hseparates.empty, zero_add]

theorem Separates.intercalate (hseparates : platform.Separates) (texts : List String) :
    platform.tokens ("\n".intercalate texts) = (texts.map platform.tokens).sum := by
  induction texts with
  | nil => exact hseparates.empty
  | cons text rest ih =>
    cases rest with
    | nil => simp
    | cons next rest =>
      rw [String.intercalate_cons_cons, hseparates.lines, ih]
      rfl

end MessagePlatform

namespace MessageDb
variable {τ : Type} (platform : MessagePlatform τ) (db : MessageDb τ)

/-- The tokens of the indexable texts among media. -/
def mediaTokens (mediaIds : List ℕ) : Multiset Token :=
  ((db.indexTexts mediaIds).map platform.tokens).sum

def attachedTokens (rowid : ℕ) : Multiset Token :=
  db.mediaTokens platform (db.getMediaIdsForMessage rowid)

structure Indexed : Prop where
  entries : ∀ row ∈ db.messages, db.index row.rowid =
    platform.tokens row.content + db.attachedTokens platform row.rowid
  rest : ∀ rowid, (∀ row ∈ db.messages, row.rowid ≠ rowid) → db.index rowid = 0

/-- Any other `UPDATE` of a row. It fails where it takes the primary key of another row. -/
def updateMessage (rowid : ℕ) (change : StoredMessage τ → StoredMessage τ) : MessageDb τ :=
  match db.findRow rowid with
  | none => db
  | some row =>
    if db.messages.any fun old => decide (old.rowid ≠ rowid) &&
        decide (old.id = (change row).id) && decide (old.chatJid = (change row).chatJid) then db
    else db.updateRow platform row change

inductive SearchEvent (τ : Type)
  | store (message : MessageInput τ)
  | attach (rowid : ℕ) (mediaIds : List ℕ)
  | replace (chatJid : String) (rowid : ℕ) (content : String) (options : ReplaceOptions)
  | annotate (chatJid : String) (rowid : ℕ) (annotations : Option String)
  | update (rowid : ℕ) (change : StoredMessage τ → StoredMessage τ)
  | delete (chatJid : String) (rowid : ℕ)
  | deleteThread (chatJid : String) (rowid : ℕ)
  | createMedia (contentType text : String)

def searchStep [LinearOrder τ] : SearchEvent τ → MessageDb τ
  | .store message => ((db.storeMessageInDatabase platform message).map Prod.fst).getD db
  | .attach rowid mediaIds => db.attachMediaToMessageInDatabase platform rowid mediaIds true
  | .replace chatJid rowid content options =>
    (db.replaceMessageContentInDatabase platform chatJid rowid content options).getD db
  | .annotate chatJid rowid annotations =>
    db.updateMessageAnnotationsInDatabase platform chatJid rowid annotations
  | .update rowid change => db.updateMessage platform rowid change
  | .delete chatJid rowid => db.deleteMessageByRowId platform chatJid rowid
  | .deleteThread chatJid rowid => db.deleteThreadByRowId platform chatJid rowid
  | .createMedia contentType text => db.createMedia contentType text

/-- The media exist. -/
def Known (mediaIds : List ℕ) : Prop := ∀ mediaId ∈ mediaIds, mediaId ∈ db.media.map Media.id

/-- Texts are attached to a message that exists, and once; a row has no attached text when its
content is replaced or it is deleted. -/
def LeavesNothing : SearchEvent τ → Prop
  | .attach rowid mediaIds =>
    db.Known mediaIds ∧
      ((∃ row ∈ db.messages, row.rowid = rowid) ∨ db.mediaTokens platform mediaIds = 0) ∧
      db.mediaTokens platform
        (mediaIds.filter fun mediaId => decide (mediaId ∈ db.getMediaIdsForMessage rowid)) = 0
  | .replace chatJid rowid _ options =>
    (db.findInChat chatJid rowid).isSome = true →
      db.attachedTokens platform rowid = 0 ∧
        ∀ mediaIds ∈ options.mediaIds, db.Known mediaIds
  | .delete _ rowid => db.attachedTokens platform rowid = 0
  | .deleteThread chatJid rowid =>
    ∀ row ∈ db.threadRows chatJid rowid, db.attachedTokens platform row.rowid = 0
  | _ => True

instance : ∀ event, Decidable (db.LeavesNothing platform event)
  | .attach rowid mediaIds => inferInstanceAs (Decidable ((∀ mediaId ∈ mediaIds, _ ∈ _) ∧
      ((∃ row ∈ db.messages, row.rowid = rowid) ∨ db.mediaTokens platform mediaIds = 0) ∧ _ = _))
  | .replace _ _ _ options => inferInstanceAs (Decidable (_ = _ → _ = _ ∧
      ∀ mediaIds ∈ options.mediaIds, ∀ mediaId ∈ mediaIds, _ ∈ _))
  | .delete _ _ => inferInstanceAs (Decidable (_ = _))
  | .deleteThread chatJid rowid =>
    inferInstanceAs (Decidable (∀ row ∈ db.threadRows chatJid rowid, _ = _))
  | .store _ => inferInstanceAs (Decidable True)
  | .annotate _ _ _ => inferInstanceAs (Decidable True)
  | .update _ _ => inferInstanceAs (Decidable True)
  | .createMedia _ _ => inferInstanceAs (Decidable True)

def searchRun [LinearOrder τ] (db : MessageDb τ) (events : List (SearchEvent τ)) : MessageDb τ :=
  events.foldl (fun db event => db.searchStep platform event) db

def AllLeaveNothing [LinearOrder τ] (db : MessageDb τ) : List (SearchEvent τ) → Prop
  | [] => True
  | event :: events => db.LeavesNothing platform event ∧
    AllLeaveNothing (db.searchStep platform event) events

def decideAllLeaveNothing [LinearOrder τ] (db : MessageDb τ) :
    ∀ events, Decidable (db.AllLeaveNothing platform events)
  | [] => inferInstanceAs (Decidable True)
  | event :: events =>
    have := decideAllLeaveNothing (db.searchStep platform event) events
    inferInstanceAs (Decidable (db.LeavesNothing platform event ∧ _))

instance [LinearOrder τ] (events : List (SearchEvent τ)) :
    Decidable (db.AllLeaveNothing platform events) := decideAllLeaveNothing platform db events

section Tokens
variable {platform : MessagePlatform τ} {db : MessageDb τ}

theorem mediaTokens_eq (mediaIds : List ℕ) : db.mediaTokens platform mediaIds =
    (db.media.map fun m =>
      if m.id ∈ mediaIds then ((m.indexText.toList).map platform.tokens).sum else 0).sum := by
  rw [mediaTokens, indexTexts]
  induction db.media with
  | nil => rfl
  | cons m rest ih =>
    rw [List.map_cons, List.sum_cons, ← ih]
    by_cases hmem : m.id ∈ mediaIds
    · cases htext : m.indexText <;> simp [hmem, htext]
    · simp [hmem]

@[simp] theorem mediaTokens_nil : db.mediaTokens platform [] = 0 := by
  simp [mediaTokens, indexTexts]

theorem mediaTokens_congr {mediaIds mediaIds' : List ℕ}
    (hiff : ∀ mediaId, mediaId ∈ mediaIds ↔ mediaId ∈ mediaIds') :
    db.mediaTokens platform mediaIds = db.mediaTokens platform mediaIds' := by
  simp only [mediaTokens_eq, hiff]

/-- Media that are in both lists count once. -/
theorem mediaTokens_append (mediaIds added : List ℕ) :
    db.mediaTokens platform (mediaIds ++ added) +
        db.mediaTokens platform (added.filter fun mediaId => decide (mediaId ∈ mediaIds)) =
      db.mediaTokens platform mediaIds + db.mediaTokens platform added := by
  simp only [mediaTokens_eq, ← List.sum_map_add]
  congr 1
  refine List.map_congr_left fun m _ => ?_
  by_cases hmem : m.id ∈ mediaIds <;> by_cases hadded : m.id ∈ added <;> simp [hmem, hadded]

theorem mediaTokens_of_media {db' : MessageDb τ} (hmedia : db'.media = db.media)
    (mediaIds : List ℕ) : db'.mediaTokens platform mediaIds = db.mediaTokens platform mediaIds := by
  rw [mediaTokens_eq, mediaTokens_eq, hmedia]

theorem attachedTokens_of_links {db' : MessageDb τ} (hmedia : db'.media = db.media)
    (hlinks : db'.messageMedia = db.messageMedia) (rowid : ℕ) :
    db'.attachedTokens platform rowid = db.attachedTokens platform rowid := by
  rw [attachedTokens, attachedTokens, getMediaIdsForMessage, getMediaIdsForMessage, hlinks,
    mediaTokens_of_media hmedia]

theorem mem_getMediaIds {rowid mediaId : ℕ} :
    mediaId ∈ db.getMediaIdsForMessage rowid ↔ (rowid, mediaId) ∈ db.messageMedia := by
  simp [getMediaIdsForMessage]

end Tokens

/-- With the index: no two rows share a rowid, links lead to media, media ids are not given again,
and no text is attached to a rowid without a message. -/
structure SearchKept (db : MessageDb τ) : Prop where
  rowids : (db.messages.map StoredMessage.rowid).Nodup
  sequence : ∀ m ∈ db.media, m.id ≤ db.mediaSequence
  links : ∀ link ∈ db.messageMedia, link.2 ∈ db.media.map Media.id
  loose : ∀ rowid, (∀ row ∈ db.messages, row.rowid ≠ rowid) →
    db.attachedTokens platform rowid = 0
  indexed : db.Indexed platform

section Steps
variable {platform : MessagePlatform τ} {db : MessageDb τ}

theorem searchKept_initial : SearchKept platform (initial : MessageDb τ) where
  rowids := List.nodup_nil
  sequence := by simp [initial]
  links := by simp [initial]
  loose := by simp [initial, attachedTokens, getMediaIdsForMessage]
  indexed := ⟨by simp [initial], by simp [initial]⟩

theorem SearchKept.eq_of_rowid (hkept : SearchKept platform db) {row row' : StoredMessage τ}
    (hrow : row ∈ db.messages) (hrow' : row' ∈ db.messages) (heq : row.rowid = row'.rowid) :
    row = row' :=
  List.inj_on_of_nodup_map hkept.rowids hrow hrow' heq

theorem SearchKept.insertRow (hkept : SearchKept platform db) {row : StoredMessage τ}
    (hnew : ∀ old ∈ db.messages, old.rowid ≠ row.rowid) :
    SearchKept platform (db.insertRow platform row) := by
  have hattached (rowid : ℕ) : (db.insertRow platform row).attachedTokens platform rowid =
      db.attachedTokens platform rowid := attachedTokens_of_links rfl rfl rowid
  have hindex : (db.insertRow platform row).index =
      Function.update db.index row.rowid (db.index row.rowid + platform.tokens row.content) := rfl
  constructor
  · rw [messages_insertRow, List.map_append, List.nodup_append]
    refine ⟨hkept.rowids, List.nodup_singleton _, ?_⟩
    intro rowid hmem other hother
    obtain ⟨old, hold, rfl⟩ := List.mem_map.1 hmem
    obtain rfl := List.mem_singleton.1 hother
    exact hnew old hold
  · exact hkept.sequence
  · exact hkept.links
  · intro rowid hnone
    rw [hattached]
    exact hkept.loose rowid fun old hold => hnone old (List.mem_append_left _ hold)
  · constructor
    · intro old hold
      rw [hattached, hindex]
      rcases List.mem_append.1 hold with hold | hold
      · rw [Function.update_of_ne (hnew old hold)]
        exact hkept.indexed.entries old hold
      · obtain rfl := List.mem_singleton.1 hold
        rw [Function.update_self, hkept.indexed.rest _ hnew, hkept.loose _ hnew, zero_add, add_zero]
    · intro rowid hnone
      rw [hindex, Function.update_of_ne (hnone row (by simp)).symm]
      exact hkept.indexed.rest rowid fun old hold => hnone old (List.mem_append_left _ hold)

/-- An update exchanges the tokens of the content and leaves those of the attached texts. -/
theorem SearchKept.updateRow (hkept : SearchKept platform db) {row : StoredMessage τ}
    (hrow : row ∈ db.messages) (change : StoredMessage τ → StoredMessage τ) :
    SearchKept platform (db.updateRow platform row change) := by
  have hattached (rowid : ℕ) : (db.updateRow platform row change).attachedTokens platform rowid =
      db.attachedTokens platform rowid := attachedTokens_of_links rfl rfl rowid
  have hindex (rowid : ℕ) : (db.updateRow platform row change).index rowid =
      if rowid = row.rowid then platform.tokens (change row).content +
        db.attachedTokens platform row.rowid else db.index rowid := by
    have hentry := hkept.indexed.entries row hrow
    by_cases heq : rowid = row.rowid
    · subst heq
      simp [MessageDb.updateRow, addTokens, removeTokens, hentry, add_comm]
    · simp [MessageDb.updateRow, addTokens, removeTokens, heq]
  have hrowids : (db.updateRow platform row change).messages.map StoredMessage.rowid =
      db.messages.map StoredMessage.rowid := by
    rw [messages_updateRow, List.map_map]
    refine List.map_congr_left fun old _ => ?_
    simp only [Function.comp_apply]
    split_ifs <;> rfl
  have hpresent (rowid : ℕ) :
      (∀ old ∈ (db.updateRow platform row change).messages, old.rowid ≠ rowid) ↔
        ∀ old ∈ db.messages, old.rowid ≠ rowid := by
    rw [← List.forall_mem_map (P := fun n => n ≠ rowid), hrowids, List.forall_mem_map]
  constructor
  · rw [hrowids]
    exact hkept.rowids
  · exact hkept.sequence
  · exact hkept.links
  · intro rowid hnone
    rw [hattached]
    exact hkept.loose rowid ((hpresent rowid).1 hnone)
  · constructor
    · intro new hnew
      rw [hattached, hindex]
      rw [messages_updateRow, List.mem_map] at hnew
      obtain ⟨old, hold, rfl⟩ := hnew
      by_cases heq : old.rowid = row.rowid
      · obtain rfl := hkept.eq_of_rowid hold hrow heq
        simp
      · simp only [if_neg heq]
        exact hkept.indexed.entries old hold
    · intro rowid hnone
      have hnone' := (hpresent rowid).1 hnone
      rw [hindex, if_neg (hnone' row hrow).symm]
      exact hkept.indexed.rest rowid hnone'

theorem SearchKept.deleteRow (hkept : SearchKept platform db) {row : StoredMessage τ}
    (hrow : row ∈ db.messages) (hbare : db.attachedTokens platform row.rowid = 0) :
    SearchKept platform (db.deleteRow platform row) := by
  have hattached (rowid : ℕ) : (db.deleteRow platform row).attachedTokens platform rowid =
      db.attachedTokens platform rowid := attachedTokens_of_links rfl rfl rowid
  have hindex (rowid : ℕ) : (db.deleteRow platform row).index rowid =
      if rowid = row.rowid then 0 else db.index rowid := by
    have hentry := hkept.indexed.entries row hrow
    by_cases heq : rowid = row.rowid
    · subst heq
      simp [MessageDb.deleteRow, removeTokens, hentry, hbare]
    · simp [MessageDb.deleteRow, removeTokens, heq]
  have hmem (old : StoredMessage τ) : old ∈ (db.deleteRow platform row).messages ↔
      old ∈ db.messages ∧ old.rowid ≠ row.rowid := by
    simp
  have hpresent {rowid : ℕ} (hne : rowid ≠ row.rowid)
      (hnone : ∀ old ∈ (db.deleteRow platform row).messages, old.rowid ≠ rowid) :
      ∀ old ∈ db.messages, old.rowid ≠ rowid := by
    intro old hold heq
    exact hnone old ((hmem old).2 ⟨hold, heq ▸ hne⟩) heq
  constructor
  · exact hkept.rowids.sublist (List.filter_sublist.map _)
  · exact hkept.sequence
  · exact hkept.links
  · intro rowid hnone
    rw [hattached]
    by_cases heq : rowid = row.rowid
    · rw [heq, hbare]
    · exact hkept.loose rowid (hpresent heq hnone)
  · constructor
    · intro old hold
      obtain ⟨hold, hne⟩ := (hmem old).1 hold
      rw [hattached, hindex, if_neg hne]
      exact hkept.indexed.entries old hold
    · intro rowid hnone
      rw [hindex]
      split_ifs with heq
      · rfl
      · exact hkept.indexed.rest rowid (hpresent heq hnone)

/-- What holds of a change of links and media alone. -/
theorem SearchKept.relink (hkept : SearchKept platform db) {db' : MessageDb τ}
    (hmessages : db'.messages = db.messages) (hindex : db'.index = db.index)
    (hsequence : ∀ m ∈ db'.media, m.id ≤ db'.mediaSequence)
    (hlinks : ∀ link ∈ db'.messageMedia, link.2 ∈ db'.media.map Media.id)
    (hattached : ∀ rowid, db'.attachedTokens platform rowid = db.attachedTokens platform rowid) :
    SearchKept platform db' := by
  constructor
  · rw [hmessages]
    exact hkept.rowids
  · exact hsequence
  · exact hlinks
  · intro rowid hnone
    rw [hattached]
    exact hkept.loose rowid (hmessages ▸ hnone)
  · constructor
    · intro row hrow
      rw [hindex, hattached]
      exact hkept.indexed.entries row (hmessages ▸ hrow)
    · intro rowid hnone
      rw [hindex]
      exact hkept.indexed.rest rowid (hmessages ▸ hnone)

theorem getMediaIds_filter (keeps : ℕ → Bool) (rowid : ℕ) :
    ({ db with messageMedia := db.messageMedia.filter fun link => keeps link.1 } :
      MessageDb τ).getMediaIdsForMessage rowid =
        if keeps rowid = true then db.getMediaIdsForMessage rowid else [] := by
  simp only [getMediaIdsForMessage, List.filter_filter]
  split_ifs with hkeeps
  · congr 1
    refine List.filter_congr fun link _ => ?_
    by_cases heq : link.1 = rowid <;> simp [heq, hkeeps]
  · rw [List.map_eq_nil_iff, List.filter_eq_nil_iff]
    intro link _ hboth
    simp only [Bool.and_eq_true, decide_eq_true_eq] at hboth
    exact hkeeps (hboth.1 ▸ hboth.2)

theorem attachedTokens_detached (keeps : ℕ → Bool) {rowid : ℕ} (hgone : keeps rowid = false) :
    ({ db with messageMedia := db.messageMedia.filter fun link => keeps link.1 } :
      MessageDb τ).attachedTokens platform rowid = 0 := by
  rw [attachedTokens, getMediaIds_filter, hgone]
  exact mediaTokens_nil

theorem SearchKept.detach (hkept : SearchKept platform db) (keeps : ℕ → Bool)
    (hbare : ∀ rowid, keeps rowid = false → db.attachedTokens platform rowid = 0) :
    SearchKept platform
      { db with messageMedia := db.messageMedia.filter fun link => keeps link.1 } := by
  refine hkept.relink rfl rfl hkept.sequence
    (fun link hlink => hkept.links link (List.mem_of_mem_filter hlink)) fun rowid => ?_
  rw [attachedTokens, getMediaIds_filter]
  split_ifs with hkeeps
  · exact mediaTokens_of_media rfl _
  · rw [mediaTokens_nil, hbare rowid (Bool.eq_false_iff.2 hkeeps)]

theorem SearchKept.deleteUnreferencedMedia (hkept : SearchKept platform db)
    (mediaIds : List ℕ) : SearchKept platform (db.deleteUnreferencedMedia mediaIds) := by
  have hstays {m : Media} (hm : m ∈ db.media) (hlinked : m.id ∈ db.messageMedia.map Prod.snd) :
      m ∈ (db.deleteUnreferencedMedia mediaIds).media := by
    refine List.mem_filter.2 ⟨hm, ?_⟩
    simp only [hlinked, not_true, decide_false, Bool.and_false, Bool.not_false]
  refine hkept.relink rfl rfl (fun m hm => hkept.sequence m (List.mem_of_mem_filter hm)) ?_ ?_
  · intro link hlink
    obtain ⟨m, hm, heq⟩ := List.mem_map.1 (hkept.links link hlink)
    exact List.mem_map.2 ⟨m, hstays hm (heq ▸ List.mem_map_of_mem hlink), heq⟩
  · intro rowid
    rw [attachedTokens, attachedTokens, mediaTokens, mediaTokens, indexTexts, indexTexts,
      MessageDb.deleteUnreferencedMedia, List.filter_filter]
    congr 3
    refine List.filter_congr fun m _ => ?_
    change (decide (m.id ∈ db.getMediaIdsForMessage rowid) && _) = _
    by_cases hlinked : m.id ∈ db.getMediaIdsForMessage rowid
    · have hmem : m.id ∈ db.messageMedia.map Prod.snd :=
        List.mem_map.2 ⟨_, mem_getMediaIds.1 hlinked, rfl⟩
      simp only [hlinked, hmem, not_true, decide_true, decide_false, Bool.and_false,
        Bool.not_false, Bool.and_true]
    · simp [hlinked]

theorem SearchKept.createMedia (hkept : SearchKept platform db) (contentType text : String) :
    SearchKept platform (db.createMedia contentType text) := by
  have hnew (rowid : ℕ) : db.mediaSequence + 1 ∉ db.getMediaIdsForMessage rowid := by
    intro hmem
    obtain ⟨m, hm, heq⟩ := List.mem_map.1 (hkept.links _ (mem_getMediaIds.1 hmem))
    have hle := hkept.sequence m hm
    simp only at heq
    omega
  refine hkept.relink rfl rfl ?_ ?_ ?_
  · intro m hm
    rcases List.mem_append.1 hm with hm | hm
    · exact (hkept.sequence m hm).trans (Nat.le_succ _)
    · obtain rfl := List.mem_singleton.1 hm
      exact le_rfl
  · intro link hlink
    have hmem := hkept.links link hlink
    simp only [MessageDb.createMedia, List.map_append, List.mem_append]
    exact Or.inl hmem
  · intro rowid
    have hids : (db.createMedia contentType text).getMediaIdsForMessage rowid =
        db.getMediaIdsForMessage rowid := rfl
    rw [attachedTokens, attachedTokens, hids, mediaTokens_eq, mediaTokens_eq]
    simp [MessageDb.createMedia, hnew rowid]

theorem attachedTokens_linked (rowid other : ℕ) (mediaIds : List ℕ) :
    ({ db with messageMedia := linksAfter db.messageMedia rowid mediaIds } :
      MessageDb τ).attachedTokens platform other =
        if other = rowid then
          db.mediaTokens platform (db.getMediaIdsForMessage rowid ++ mediaIds)
        else db.attachedTokens platform other := by
  rw [attachedTokens, @mediaTokens_of_media τ platform db _ rfl]
  split_ifs with heq
  · refine mediaTokens_congr fun mediaId => ?_
    rw [mem_getMediaIds, mem_linksAfter, List.mem_append, mem_getMediaIds, heq]
    simp
  · refine mediaTokens_congr fun mediaId => ?_
    rw [mem_getMediaIds, mem_linksAfter, mem_getMediaIds]
    simp [heq]

theorem mem_of_findRow {rowid : ℕ} {row : StoredMessage τ}
    (hfind : db.findRow rowid = some row) : row ∈ db.messages ∧ row.rowid = rowid :=
  ⟨List.mem_of_find?_eq_some hfind, by simpa using List.find?_some hfind⟩

theorem not_mem_of_findRow {rowid : ℕ} (hfind : db.findRow rowid = none) :
    ∀ row ∈ db.messages, row.rowid ≠ rowid := by
  intro row hrow
  simpa using List.find?_eq_none.1 hfind row hrow

/-- Where texts reach the index, they are added behind what the entry of the row held. -/
theorem appendMediaTextToFts_index (hseparates : platform.Separates) {rowid : ℕ}
    (mediaIds : List ℕ) (hheld : ∀ row ∈ db.messages, row.rowid = rowid →
      platform.tokens row.content ≤ db.index rowid)
    (htarget : (∃ row ∈ db.messages, row.rowid = rowid) ∨ db.mediaTokens platform mediaIds = 0) :
    (db.appendMediaTextToFts platform rowid mediaIds).index =
      Function.update db.index rowid (db.index rowid + db.mediaTokens platform mediaIds) := by
  rw [appendMediaTextToFts]
  split_ifs with hnone
  · simp [mediaTokens, hnone]
  · cases hfind : db.findRow rowid with
    | none =>
      have hzero : db.mediaTokens platform mediaIds = 0 := by
        refine htarget.resolve_left ?_
        rintro ⟨row, hrow, heq⟩
        exact not_mem_of_findRow hfind row hrow heq
      simp [hzero]
    | some row =>
      obtain ⟨hrow, heq⟩ := mem_of_findRow hfind
      have htokens := hseparates.blank_line row.content
        ("\n".intercalate (db.indexTexts mediaIds))
      rw [hseparates.intercalate] at htokens
      simp only [addTokens, removeTokens, Function.update_self, Function.update_idem, htokens]
      rw [← add_assoc, Multiset.sub_add_cancel (hheld row hrow heq)]
      rfl

theorem SearchKept.attach (hseparates : platform.Separates) (hkept : SearchKept platform db)
    {rowid : ℕ} {mediaIds : List ℕ} (hknown : db.Known mediaIds)
    (htarget : (∃ row ∈ db.messages, row.rowid = rowid) ∨ db.mediaTokens platform mediaIds = 0)
    (honce : db.mediaTokens platform
      (mediaIds.filter fun mediaId => decide (mediaId ∈ db.getMediaIdsForMessage rowid)) = 0) :
    SearchKept platform (db.attachMediaToMessageInDatabase platform rowid mediaIds true) := by
  by_cases hempty : mediaIds = []
  · rw [attachMediaToMessageInDatabase, if_pos hempty]
    exact hkept
  set linked : MessageDb τ :=
    { db with messageMedia := linksAfter db.messageMedia rowid mediaIds } with hlinked
  have hresult : db.attachMediaToMessageInDatabase platform rowid mediaIds true =
      linked.appendMediaTextToFts platform rowid mediaIds := by
    rw [attachMediaToMessageInDatabase, if_neg hempty]
    rfl
  have htokens : linked.mediaTokens platform mediaIds = db.mediaTokens platform mediaIds :=
    mediaTokens_of_media rfl mediaIds
  obtain ⟨hmessages, hmedia, hlinks, hsequence⟩ :=
    @appendMediaTextToFts_tables τ platform linked rowid mediaIds
  have hindex : (linked.appendMediaTextToFts platform rowid mediaIds).index =
      Function.update db.index rowid (db.index rowid + db.mediaTokens platform mediaIds) := by
    rw [appendMediaTextToFts_index hseparates mediaIds, htokens]
    · rintro row hrow rfl
      have hentry := hkept.indexed.entries row hrow
      change _ ≤ db.index row.rowid
      rw [hentry]
      exact Multiset.le_add_right _ _
    · exact htokens ▸ htarget
  have hattached (other : ℕ) :
      (linked.appendMediaTextToFts platform rowid mediaIds).attachedTokens platform other =
        if other = rowid then db.attachedTokens platform rowid + db.mediaTokens platform mediaIds
        else db.attachedTokens platform other := by
    rw [attachedTokens_of_links hmedia hlinks, attachedTokens_linked]
    split_ifs
    · have happend := @mediaTokens_append τ platform db (db.getMediaIdsForMessage rowid) mediaIds
      rwa [honce, add_zero] at happend
    · rfl
  rw [hresult]
  constructor
  · rw [hmessages]
    exact hkept.rowids
  · rw [hmedia, hsequence]
    exact hkept.sequence
  · intro link hlink
    rw [hlinks] at hlink
    rw [hmedia]
    rcases mem_linksAfter.1 hlink with hold | ⟨-, hnew⟩
    · exact hkept.links link hold
    · exact hknown link.2 hnew
  · intro other hnone
    rw [hmessages] at hnone
    rw [hattached]
    split_ifs with heq
    · subst heq
      have hzero : db.mediaTokens platform mediaIds = 0 := by
        refine htarget.resolve_left ?_
        rintro ⟨row, hrow, heq⟩
        exact hnone row hrow heq
      rw [hkept.loose _ hnone, hzero, add_zero]
    · exact hkept.loose other hnone
  · constructor
    · intro row hrow
      rw [hmessages] at hrow
      have hentry := hkept.indexed.entries row hrow
      rw [hindex, hattached]
      by_cases heq : row.rowid = rowid
      · subst heq
        rw [Function.update_self, if_pos rfl, hentry, add_assoc]
      · rw [Function.update_of_ne heq, if_neg heq, hentry]
    · intro other hnone
      rw [hmessages] at hnone
      rw [hindex]
      by_cases heq : other = rowid
      · subst heq
        have hzero : db.mediaTokens platform mediaIds = 0 := by
          refine htarget.resolve_left ?_
          rintro ⟨row, hrow, heq⟩
          exact hnone row hrow heq
        rw [Function.update_self, hkept.indexed.rest _ hnone, hzero, add_zero]
      · rw [Function.update_of_ne heq]
        exact hkept.indexed.rest other hnone

theorem SearchKept.replace (hseparates : platform.Separates) (hkept : SearchKept platform db)
    {chatJid content : String} {rowid : ℕ} {options : ReplaceOptions}
    (hleaves : db.LeavesNothing platform (.replace chatJid rowid content options)) :
    SearchKept platform
      ((db.replaceMessageContentInDatabase platform chatJid rowid content options).getD db) := by
  rw [replaceMessageContentInDatabase]
  cases hfind : db.findInChat chatJid rowid with
  | none => exact hkept
  | some row =>
    obtain ⟨hrow, -, hrowid⟩ := mem_of_findInChat hfind
    obtain ⟨hbare, hoptions⟩ := hleaves (by rw [hfind]; rfl)
    have hknown : db.Known (options.mediaIds.getD (db.getMediaIdsForMessage rowid)) := by
      cases hgiven : options.mediaIds with
      | none =>
        intro mediaId hmem
        exact hkept.links _ (mem_getMediaIds.1 hmem)
      | some mediaIds => exact hoptions mediaIds hgiven
    have hupdated := hkept.updateRow hrow fun old => { old with
      content := content
      contentBlocks := options.contentBlocks
      linkPreviews := options.linkPreviews
      isTerminalAgentReply := options.isTerminalAgentReply.getD old.isTerminalAgentReply }
    have hdetached := hupdated.detach (fun other => decide (other ≠ rowid)) (by
      intro other heq
      obtain rfl : other = rowid := by simpa using heq
      exact (@attachedTokens_of_links τ platform db _ rfl rfl other).trans hbare)
    refine SearchKept.attach hseparates hdetached hknown (Or.inl ?_) ?_
    · refine ⟨_, List.mem_map.2 ⟨row, hrow, rfl⟩, ?_⟩
      simpa using hrowid
    · have hnone := @getMediaIds_filter τ (db.updateRow platform row fun old => { old with
        content := content
        contentBlocks := options.contentBlocks
        linkPreviews := options.linkPreviews
        isTerminalAgentReply := options.isTerminalAgentReply.getD old.isTerminalAgentReply })
        (fun other => decide (other ≠ rowid)) rowid
      simp only [ne_eq, not_true, decide_false, Bool.false_eq_true, if_false] at hnone
      simp only [ne_eq, hnone]
      simp

theorem SearchKept.delete (hkept : SearchKept platform db) (chatJid : String) {rowid : ℕ}
    (hbare : db.attachedTokens platform rowid = 0) :
    SearchKept platform (db.deleteMessageByRowId platform chatJid rowid) := by
  have hdetached := hkept.detach (fun other => decide (other ≠ rowid)) (by
    intro other heq
    obtain rfl : other = rowid := by simpa using heq
    exact hbare)
  rw [deleteMessageByRowId]
  split
  · exact hdetached
  · rename_i row hfind
    obtain ⟨hrow, -, hrowid⟩ := mem_of_findInChat hfind
    exact (hdetached.deleteRow hrow (attachedTokens_detached (fun other => decide (other ≠ rowid))
      (by simpa using hrowid))).deleteUnreferencedMedia _

theorem SearchKept.deleteRows {rows : List (StoredMessage τ)} (hkept : SearchKept platform db)
    (hrows : ∀ row ∈ rows, row ∈ db.messages ∧ db.attachedTokens platform row.rowid = 0)
    (hdistinct : (rows.map StoredMessage.rowid).Nodup) :
    SearchKept platform (rows.foldl (fun db row => db.deleteRow platform row) db) := by
  induction rows generalizing db with
  | nil => exact hkept
  | cons row rest ih =>
    rw [List.map_cons, List.nodup_cons] at hdistinct
    obtain ⟨hrow, hbare⟩ := hrows row (by simp)
    refine ih (hkept.deleteRow hrow hbare) (fun other hother => ?_) hdistinct.2
    obtain ⟨hmem, hzero⟩ := hrows other (List.mem_cons_of_mem _ hother)
    have hne : other.rowid ≠ row.rowid := fun heq =>
      hdistinct.1 (heq ▸ List.mem_map_of_mem hother)
    exact ⟨List.mem_filter.2 ⟨hmem, by simpa using hne⟩,
      (attachedTokens_of_links rfl rfl _).trans hzero⟩

theorem SearchKept.deleteThread (hkept : SearchKept platform db) {chatJid : String} {rowid : ℕ}
    (hbare : ∀ row ∈ db.threadRows chatJid rowid, db.attachedTokens platform row.rowid = 0) :
    SearchKept platform (db.deleteThreadByRowId platform chatJid rowid) := by
  rw [deleteThreadByRowId]
  have hdetached := hkept.detach
    (fun other => decide (other ∉ (db.threadRows chatJid rowid).map StoredMessage.rowid)) (by
      intro other hmem
      obtain ⟨row, hrow, rfl⟩ : ∃ row ∈ db.threadRows chatJid rowid, row.rowid = other := by
        simpa using hmem
      exact hbare row hrow)
  refine (hdetached.deleteRows (fun row hrow => ⟨List.mem_of_mem_filter hrow, ?_⟩)
    (hkept.rowids.sublist (List.filter_sublist.map _))).deleteUnreferencedMedia _
  have hgone : row.rowid ∈ (db.threadRows chatJid rowid).map StoredMessage.rowid :=
    List.mem_map_of_mem hrow
  exact attachedTokens_detached
    (fun other => decide (other ∉ (db.threadRows chatJid rowid).map StoredMessage.rowid))
    (by simpa using hgone)

theorem SearchKept.store [LinearOrder τ] (hkept : SearchKept platform db)
    (message : MessageInput τ) :
    SearchKept platform (((db.storeMessageInDatabase platform message).map Prod.fst).getD db) := by
  rw [storeMessageInDatabase]
  cases db.ensureMonotonicTimestamp platform message.chatJid message.timestamp with
  | none => exact hkept
  | some timestamp =>
    simp only [Option.map_some, Option.getD_some, persistMessage]
    cases hfind : db.findMessage message.id message.chatJid with
    | none => exact hkept.insertRow fun old hold => (lt_nextRowid hold).ne
    | some row => exact hkept.updateRow (mem_of_findMessage hfind).1 _

theorem SearchKept.update (hkept : SearchKept platform db) (rowid : ℕ)
    (change : StoredMessage τ → StoredMessage τ) :
    SearchKept platform (db.updateMessage platform rowid change) := by
  rw [updateMessage]
  cases hfind : db.findRow rowid with
  | none => exact hkept
  | some row =>
    simp only
    split_ifs
    · exact hkept
    · exact hkept.updateRow (mem_of_findRow hfind).1 change

theorem SearchKept.annotate (hkept : SearchKept platform db) (chatJid : String) (rowid : ℕ)
    (annotations : Option String) : SearchKept platform
      (db.updateMessageAnnotationsInDatabase platform chatJid rowid annotations) := by
  rw [updateMessageAnnotationsInDatabase]
  cases hfind : db.findInChat chatJid rowid with
  | none => exact hkept
  | some row => exact hkept.updateRow (mem_of_findInChat hfind).1 _

theorem SearchKept.step [LinearOrder τ] (hseparates : platform.Separates)
    (hkept : SearchKept platform db) {event : SearchEvent τ}
    (hleaves : db.LeavesNothing platform event) :
    SearchKept platform (db.searchStep platform event) := by
  cases event with
  | store message => exact hkept.store message
  | attach rowid mediaIds => exact hkept.attach hseparates hleaves.1 hleaves.2.1 hleaves.2.2
  | replace chatJid rowid content options => exact hkept.replace hseparates hleaves
  | annotate chatJid rowid annotations => exact hkept.annotate chatJid rowid annotations
  | update rowid change => exact hkept.update rowid change
  | delete chatJid rowid => exact hkept.delete chatJid hleaves
  | deleteThread chatJid rowid => exact hkept.deleteThread hleaves
  | createMedia contentType text => exact hkept.createMedia contentType text

theorem SearchKept.run [LinearOrder τ] (hseparates : platform.Separates)
    (hkept : SearchKept platform db) {events : List (SearchEvent τ)}
    (hleave : db.AllLeaveNothing platform events) :
    SearchKept platform (db.searchRun platform events) := by
  induction events generalizing db with
  | nil => exact hkept
  | cons event events ih => exact ih (hkept.step hseparates hleave.1) hleave.2

end Steps

def asciiTokens (text : String) : Multiset Token :=
  ((((text.toList.splitOnP fun c => !c.isAlphanum).filter fun word => decide (word ≠ [])).map
    (List.map Char.toLower) : List Token) : Multiset Token)

theorem separates_ascii : (isoPlatform asciiTokens).Separates where
  empty := by simp [isoPlatform, asciiTokens]
  lines a b := by
    have hlist : (a ++ "\n" ++ b).toList = a.toList ++ '\n' :: b.toList := by simp
    simp only [isoPlatform, asciiTokens]
    rw [hlist, List.splitOnP_append_cons _ _ (by decide), List.filter_append, List.map_append,
      Multiset.coe_add]

def sampleMessage (id content : String) : MessageInput (List Char) where
  id := id
  chatJid := "web:default"
  content := content
  contentBlocks := none
  linkPreviews := none
  threadId := none
  timestamp := "2026-01-01T00:00:00.000Z".toList
  isBotMessage := false
  isTerminalAgentReply := false
  isSteeringMessage := false

end MessageDb
end Piclaw
