import Piclaw.BranchRegistry

/-!
# Registered chats and their handles

After any sequence of operations the active handles are unique and every stored handle is normal.
A registration of a chat succeeds exactly when its stored handle, if it was archived, has not been
taken meanwhile, and when the chat exists where foreign keys are enforced.
-/

namespace Piclaw
open Relational
variable {τ : Type}

namespace BranchTable
variable {t t' : BranchTable τ} {r : ChatBranch τ} {f : ChatBranch τ → ChatBranch τ}

theorem apart_of_ne {a b : ChatBranch τ} (ha : a ∈ t.rows) (hb : b ∈ t.rows) (hne : a ≠ b) :
    ChatBranch.Apart a b :=
  have : Std.Symm (ChatBranch.Apart : ChatBranch τ → ChatBranch τ → Prop) := ⟨fun _ _ h => h.symm⟩
  t.apart.forall ha hb hne

theorem eq_of_branchId {a b : ChatBranch τ} (ha : a ∈ t.rows) (hb : b ∈ t.rows)
    (h : a.branchId = b.branchId) : a = b := by
  by_contra hne
  exact (apart_of_ne ha hb hne).1 h

theorem eq_of_chatJid {a b : ChatBranch τ} (ha : a ∈ t.rows) (hb : b ∈ t.rows)
    (h : a.chatJid = b.chatJid) : a = b := by
  by_contra hne
  exact (apart_of_ne ha hb hne).2.1 h

/-- Two active branches with one handle are one branch. -/
theorem eq_of_handle {a b : ChatBranch τ} (ha : a ∈ t.rows) (hb : b ∈ t.rows)
    (hactive : a.Active ∧ b.Active) (h : a.agentName = b.agentName) : a = b := by
  by_contra hne
  exact (apart_of_ne ha hb hne).2.2 ⟨hactive.1, hactive.2, h⟩

theorem mem_of_chatJid {chatJid : String} (h : t.getChatBranchByChatJid chatJid = some r) :
    r ∈ t.rows ∧ r.chatJid = chatJid :=
  ⟨List.mem_of_find?_eq_some h, by simpa using List.find?_some h⟩

theorem getChatBranchByChatJid_of_mem (hr : r ∈ t.rows) :
    t.getChatBranchByChatJid r.chatJid = some r := by
  cases hget : t.getChatBranchByChatJid r.chatJid with
  | none =>
    unfold getChatBranchByChatJid at hget
    rw [List.find?_eq_none] at hget
    exact absurd (decide_eq_true rfl) (hget r hr)
  | some other =>
    obtain ⟨hmem, hchat⟩ := mem_of_chatJid hget
    rw [eq_of_chatJid hmem hr hchat]

theorem rows_of_commit? {rows : List (ChatBranch τ)} (h : commit? rows = some t) :
    t.rows = rows := by
  unfold commit? at h
  split_ifs at h
  cases h
  rfl

theorem commit?_isSome_iff {rows : List (ChatBranch τ)} :
    (commit? rows).isSome ↔ rows.Pairwise ChatBranch.Apart := by
  unfold commit?
  split_ifs with h
  · exact ⟨fun _ => h, fun _ => rfl⟩
  · exact ⟨fun hsome => Bool.noConfusion hsome, fun hapart => absurd hapart h⟩

theorem changed_self : changed r.branchId f r = f r := if_pos rfl

theorem mem_update? {branchId : String} {b : ChatBranch τ}
    (h : t.update? branchId f = some t') :
    b ∈ t'.rows ↔ ∃ a ∈ t.rows, changed branchId f a = b := by
  rw [rows_of_commit? h]
  exact List.mem_map

/-- A change of one branch that keeps its ids is refused only for its handle. -/
theorem update?_isSome_iff (hr : r ∈ t.rows) (hid : (f r).branchId = r.branchId)
    (hchat : (f r).chatJid = r.chatJid) :
    (t.update? r.branchId f).isSome ↔ ∀ b ∈ t.rows, b ≠ r →
      ¬ ((f r).Active ∧ b.Active ∧ (f r).agentName = b.agentName) := by
  have hother : ∀ b ∈ t.rows, b ≠ r → changed r.branchId f b = b := fun b hb hne =>
    if_neg fun heq => hne (eq_of_branchId hb hr heq)
  unfold update?
  rw [commit?_isSome_iff, List.pairwise_map]
  constructor
  · intro hapart b hb hne
    have : Std.Symm (fun a b : ChatBranch τ =>
        ChatBranch.Apart (changed r.branchId f a) (changed r.branchId f b)) := ⟨fun _ _ h => h.symm⟩
    have hboth := hapart.forall hr hb hne.symm
    rw [changed_self, hother b hb hne] at hboth
    exact hboth.2.2
  · intro hfree
    have hfr : ∀ b ∈ t.rows, b ≠ r → ChatBranch.Apart (f r) b := by
      intro b hb hne
      have hapart := apart_of_ne hr hb hne.symm
      refine ⟨?_, ?_, hfree b hb hne⟩
      · rw [hid]
        exact hapart.1
      · rw [hchat]
        exact hapart.2.1
    refine t.apart.imp_of_mem fun {a b} ha hb hab => ?_
    have hne : a ≠ b := fun heq => hab.1 (congrArg _ heq)
    by_cases har : a = r
    · subst har
      rw [changed_self, hother b hb hne.symm]
      exact hfr b hb hne.symm
    · rw [hother a ha har]
      by_cases hbr : b = r
      · subst hbr
        rw [changed_self]
        exact (hfr a ha har).symm
      · rw [hother b hb hbr]
        exact hab

end BranchTable

section Handles
variable {t : BranchTable τ} {base : String} {exclude : Option String}

theorem fixedHandle_agent : FixedHandle "agent" := ⟨by decide +kernel, by decide⟩

theorem truthy_eq_some {value : Option String} {s : String} (h : truthy value = some s) :
    value = some s ∧ s ≠ "" := by
  unfold truthy at h
  obtain ⟨hs, hne⟩ := Option.filter_eq_some_iff.mp h
  exact ⟨hs, of_decide_eq_true hne⟩

theorem fixedHandle_base (name : String) :
    FixedHandle ((truthy (some (normalizeBranchAgentName name))).getD "agent") := by
  cases h : truthy (some (normalizeBranchAgentName name)) with
  | none => exact fixedHandle_agent
  | some s =>
    obtain ⟨hs, hne⟩ := truthy_eq_some h
    have hs : normalizeBranchAgentName name = s := Option.some.inj hs
    rw [← hs] at hne
    rw [Option.getD_some, ← hs]
    exact fixedHandle_normalized hne

theorem normalHandle_of_fixed {s : String} (h : FixedHandle s) : NormalHandle s.toList := by
  rw [← h.fixed]
  exact normalHandle_normalized s

theorem fixedHandle_suffixed {n : ℕ} (h : FixedHandle base) : FixedHandle (suffixed base n) := by
  refine fixedHandle_of_normal (normalHandle_suffixed (normalHandle_of_fixed h) h.nonempty) ?_
  intro hnil
  have hlist := congrArg String.toList hnil
  rw [toList_suffixed] at hlist
  simp at hlist

theorem getUniqueAgentName_fixed : FixedHandle (getUniqueAgentName t base exclude) := by
  unfold getUniqueAgentName
  dsimp only
  split_ifs
  · exact fixedHandle_suffixed (fixedHandle_base base)
  · exact fixedHandle_base base

/-- No active branch but the excluded one holds the chosen handle. -/
theorem getUniqueAgentName_free {r : ChatBranch τ} (hr : r ∈ t.rows) (hactive : r.Active)
    (hother : ∀ id, exclude = some id → r.branchId ≠ id) :
    r.agentName ≠ getUniqueAgentName t base exclude := by
  have hexclude : (truthy exclude).all (fun id => decide (r.branchId ≠ id)) = true := by
    cases h : truthy exclude with
    | none => rfl
    | some id => exact decide_eq_true (hother id (truthy_eq_some h).1)
  unfold getUniqueAgentName
  set normalizedBase := (truthy (some (normalizeBranchAgentName base))).getD "agent"
  have hused : r.agentName = normalizedBase ∨
      (normalizedBase ++ "-").toList.isPrefixOf r.agentName.toList →
      r.agentName ∈ usedHandles t normalizedBase exclude := by
    intro hmatch
    refine List.mem_map.mpr ⟨r, List.mem_filter.mpr ⟨hr, ?_⟩, rfl⟩
    simp only [Bool.and_eq_true, Bool.or_eq_true, decide_eq_true_eq]
    exact ⟨⟨hactive, hmatch⟩, hexclude⟩
  dsimp only
  split_ifs with htaken
  · intro heq
    have hprefix : (normalizedBase ++ "-").toList.isPrefixOf r.agentName.toList := by
      rw [heq, List.isPrefixOf_iff_prefix, toList_suffixed, String.toList_append]
      exact ⟨_, List.append_assoc _ _ _⟩
    have hin := hused (.inr hprefix)
    rw [heq] at hin
    exact suffixed_freeSuffix (Nat.lt_succ_self _) hin
  · intro heq
    have hin := hused (.inl heq)
    rw [heq] at hin
    exact htaken hin

theorem requireUniqueAgentName_fixed {name id next : String}
    (h : requireUniqueAgentName t name id = .ok next) : FixedHandle next := by
  unfold requireUniqueAgentName at h
  dsimp only at h
  split_ifs at h with hempty
  cases hget : t.getChatBranchByAgentName (normalizeBranchAgentName name) with
  | none =>
    rw [hget] at h
    obtain rfl := Except.ok.inj h
    exact fixedHandle_normalized hempty
  | some existing =>
    rw [hget] at h
    dsimp only at h
    split_ifs at h
    obtain rfl := Except.ok.inj h
    exact fixedHandle_normalized hempty

end Handles

namespace BranchDb
variable {db db' : BranchDb τ} {answered : Option (ChatBranch τ)}

def Handled (db : BranchDb τ) : Prop := ∀ r ∈ db.branches.rows, FixedHandle r.agentName

theorem Handled.update (hdb : db.Handled) {branchId chatJid : String}
    {f : ChatBranch τ → ChatBranch τ}
    (h : db.update branchId chatJid f = .ok (db', answered))
    (hf : ∀ r, FixedHandle (f r).agentName ∨ (f r).agentName = r.agentName) : db'.Handled := by
  unfold BranchDb.update at h
  cases hupdate : db.branches.update? branchId f with
  | none =>
    rw [hupdate] at h
    cases h
  | some branches =>
    rw [hupdate] at h
    cases h
    intro r hr
    obtain ⟨a, ha, rfl⟩ := (BranchTable.mem_update? hupdate).mp hr
    unfold BranchTable.changed
    split_ifs
    · rcases hf a with hfixed | hsame
      · exact hfixed
      · rw [hsame]
        exact hdb a ha
    · exact hdb a ha

theorem Handled.insert (hdb : db.Handled) {row : ChatBranch τ}
    (h : db.insert row = .ok (db', answered)) (hrow : FixedHandle row.agentName) : db'.Handled := by
  unfold BranchDb.insert at h
  split_ifs at h
  cases hcommit : BranchTable.commit? (row :: db.branches.rows) with
  | none =>
    rw [hcommit] at h
    cases h
  | some branches =>
    rw [hcommit] at h
    cases h
    intro r hr
    rw [BranchTable.rows_of_commit? hcommit] at hr
    rcases List.mem_cons.mp hr with rfl | hr
    · exact hrow
    · exact hdb r hr

theorem nextAgentName_fixed {input : EnsureInput} {t : BranchTable τ} {existing : ChatBranch τ}
    (h : FixedHandle existing.agentName) : FixedHandle (input.nextAgentName t existing) := by
  unfold EnsureInput.nextAgentName
  dsimp only
  split_ifs
  · exact getUniqueAgentName_fixed
  · exact h

theorem Handled.ensureChatBranch (hdb : db.Handled) {input : EnsureInput} {now : τ}
    {uuid : String} (h : db.ensureChatBranch input now uuid = .ok (db', answered)) :
    db'.Handled := by
  unfold BranchDb.ensureChatBranch at h
  dsimp only at h
  split_ifs at h
  cases hget : db.branches.getChatBranchByChatJid (trim input.chatJid) with
  | none =>
    rw [hget] at h
    exact hdb.insert h getUniqueAgentName_fixed
  | some existing =>
    rw [hget] at h
    have hmem := (BranchTable.mem_of_chatJid hget).1
    dsimp only at h
    split_ifs at h
    · exact hdb.update h fun r => .inl (nextAgentName_fixed (hdb existing hmem))
    · cases h
      exact hdb

theorem Handled.renameChatBranchIdentity (hdb : db.Handled) {input : String}
    {agentName : Option (Option String)} {now : τ}
    (h : db.renameChatBranchIdentity input agentName now = .ok (db', answered)) : db'.Handled := by
  unfold BranchDb.renameChatBranchIdentity at h
  dsimp only at h
  split_ifs at h
  cases hget : db.branches.getChatBranchByChatJid (trim input) with
  | none =>
    rw [hget] at h
    cases h
  | some existing =>
    rw [hget] at h
    cases agentName with
    | none => cases h
    | some name =>
      cases hrequire : requireUniqueAgentName db.branches ((truthy name).getD "")
          existing.branchId with
      | error e =>
        simp only [hrequire] at h
        cases h
      | ok next =>
        simp only [hrequire] at h
        split_ifs at h
        · cases h
          exact hdb
        · exact hdb.update h fun r => .inl (requireUniqueAgentName_fixed hrequire)

theorem Handled.archiveChatBranch (hdb : db.Handled) {input : String} {now : τ}
    (h : db.archiveChatBranch input now = .ok (db', answered)) : db'.Handled := by
  unfold BranchDb.archiveChatBranch at h
  dsimp only at h
  split_ifs at h
  cases hget : db.branches.getChatBranchByChatJid (trim input) with
  | none =>
    rw [hget] at h
    cases h
  | some existing =>
    rw [hget] at h
    dsimp only at h
    split_ifs at h
    · cases h
      exact hdb
    · exact hdb.update h fun r => .inr rfl

theorem restoredAgentName_fixed {t : BranchTable τ} {agentName : Option (Option String)}
    {existing : ChatBranch τ} : FixedHandle (restoredAgentName t agentName existing) := by
  unfold restoredAgentName
  exact getUniqueAgentName_fixed

theorem Handled.restoreChatBranchIdentity (hdb : db.Handled) {input : String}
    {agentName : Option (Option String)} {now : τ}
    (h : db.restoreChatBranchIdentity input agentName now = .ok (db', answered)) :
    db'.Handled := by
  unfold BranchDb.restoreChatBranchIdentity at h
  dsimp only at h
  split_ifs at h
  cases hget : db.branches.getChatBranchByChatJid (trim input) with
  | none =>
    rw [hget] at h
    cases h
  | some existing =>
    rw [hget] at h
    dsimp only at h
    split_ifs at h
    · cases h
      exact hdb
    · exact hdb.update h fun r => .inl restoredAgentName_fixed

theorem Handled.answer (hdb : db.Handled) {call : BranchCall τ}
    (h : db.answer call = .ok (db', answered)) : db'.Handled := by
  cases call with
  | ensure input now uuid =>
    rw [BranchDb.answer] at h
    exact hdb.ensureChatBranch h
  | rename chatJid agentName now =>
    rw [BranchDb.answer] at h
    exact hdb.renameChatBranchIdentity h
  | archive chatJid now =>
    rw [BranchDb.answer] at h
    exact hdb.archiveChatBranch h
  | restore chatJid agentName now =>
    rw [BranchDb.answer] at h
    exact hdb.restoreChatBranchIdentity h

theorem Handled.step (hdb : db.Handled) (call : BranchCall τ) : (db.step call).Handled := by
  unfold BranchDb.step
  cases hanswer : db.answer call with
  | error e => exact hdb
  | ok next => exact hdb.answer hanswer

/-- `ensureChatBranch({ chat_jid })`. -/
def EnsureInput.only (chatJid : String) : EnsureInput := ⟨chatJid, none, none, none⟩

/-- The registration answers with the chat's branch, which is active afterwards. -/
def Registers (db : BranchDb τ) (chatJid : String) (now : τ) (uuid : String) : Prop :=
  ∃ next r, db.ensureChatBranch (.only chatJid) now uuid = .ok (next, some r) ∧
    next.branches.getChatBranchByChatJid (trim chatJid) = some r ∧ r.Active

/-- The chat id is not blank; the handle of an archived branch has not been taken by an active
one; a chat without a branch exists where foreign keys are enforced. -/
def Registrable (db : BranchDb τ) (chatJid : String) : Prop :=
  trim chatJid ≠ "" ∧
    match db.branches.getChatBranchByChatJid (trim chatJid) with
    | some existing => existing.Active ∨
      ∀ r ∈ db.branches.rows, r.Active → r.agentName ≠ existing.agentName
    | none => db.foreignKeys → trim chatJid ∈ db.chats

theorem update_ok_iff {existing : ChatBranch τ} {f : ChatBranch τ → ChatBranch τ}
    (hmem : existing ∈ db.branches.rows) (hid : (f existing).branchId = existing.branchId)
    (hchat : (f existing).chatJid = existing.chatJid) (hactive : (f existing).Active) :
    (∃ next r, db.update existing.branchId existing.chatJid f = .ok (next, some r) ∧
        next.branches.getChatBranchByChatJid existing.chatJid = some r ∧ r.Active) ↔
      ∀ b ∈ db.branches.rows, b ≠ existing → b.Active → b.agentName ≠ (f existing).agentName := by
  have hiff := BranchTable.update?_isSome_iff hmem hid hchat
  have hfree : (∀ b ∈ db.branches.rows, b ≠ existing →
        ¬ ((f existing).Active ∧ b.Active ∧ (f existing).agentName = b.agentName)) ↔
      ∀ b ∈ db.branches.rows, b ≠ existing → b.Active → b.agentName ≠ (f existing).agentName := by
    constructor
    · intro h b hb hne hb' heq
      exact h b hb hne ⟨hactive, hb', heq.symm⟩
    · intro h b hb hne hboth
      exact h b hb hne hboth.2.1 hboth.2.2.symm
  rw [← hfree, ← hiff]
  unfold BranchDb.update
  cases hupdate : db.branches.update? existing.branchId f with
  | none =>
    refine ⟨?_, fun h => Bool.noConfusion h⟩
    rintro ⟨next, r, h, -⟩
    cases h
  | some branches =>
    refine ⟨fun _ => rfl, fun _ => ?_⟩
    have hin : f existing ∈ branches.rows :=
      (BranchTable.mem_update? hupdate).mpr ⟨existing, hmem, BranchTable.changed_self⟩
    have hget := BranchTable.getChatBranchByChatJid_of_mem hin
    rw [hchat] at hget
    refine ⟨{ db with branches }, f existing, ?_, hget, hactive⟩
    dsimp only
    rw [hget]

theorem insert_ok_iff {row : ChatBranch τ} (hid : ∀ b ∈ db.branches.rows, b.branchId ≠ row.branchId)
    (hchat : db.branches.getChatBranchByChatJid row.chatJid = none) (hactive : row.Active)
    (hfree : ∀ b ∈ db.branches.rows, b.Active → b.agentName ≠ row.agentName) :
    (∃ next r, db.insert row = .ok (next, some r) ∧
        next.branches.getChatBranchByChatJid row.chatJid = some r ∧ r.Active) ↔
      (db.foreignKeys → row.chatJid ∈ db.chats) := by
  unfold BranchDb.insert
  split_ifs with hforeign
  · refine ⟨?_, fun h => absurd (h hforeign.1) hforeign.2⟩
    rintro ⟨next, r, h, -⟩
    cases h
  · refine ⟨fun _ hkeys => by_contra fun hout => hforeign ⟨hkeys, hout⟩, fun _ => ?_⟩
    have hother : ∀ b ∈ db.branches.rows, b.chatJid ≠ row.chatJid := by
      intro b hb heq
      have hget := BranchTable.getChatBranchByChatJid_of_mem hb
      rw [heq, hchat] at hget
      cases hget
    have hapart : (row :: db.branches.rows).Pairwise ChatBranch.Apart := by
      refine List.pairwise_cons.mpr ⟨fun b hb => ?_, db.branches.apart⟩
      exact ⟨(hid b hb).symm, (hother b hb).symm, fun h => hfree b hb h.2.1 h.2.2.symm⟩
    obtain ⟨branches, hcommit⟩ :=
      Option.isSome_iff_exists.mp (BranchTable.commit?_isSome_iff.mpr hapart)
    have hin : row ∈ branches.rows := by
      rw [BranchTable.rows_of_commit? hcommit]
      exact List.mem_cons_self
    have hget := BranchTable.getChatBranchByChatJid_of_mem hin
    refine ⟨{ db with branches }, row, ?_, hget, hactive⟩
    rw [hcommit]
    dsimp only
    rw [hget]

theorem nextAgentName_only {chatJid : String} {t : BranchTable τ} {existing : ChatBranch τ} :
    (EnsureInput.only chatJid).nextAgentName t existing = existing.agentName := by
  unfold EnsureInput.nextAgentName
  exact if_neg (not_not_intro rfl)

theorem registers_iff (chatJid : String) (now : τ) (uuid : String)
    (hfresh : ∀ r ∈ db.branches.rows, r.branchId ≠ uuid) :
    db.Registers chatJid now uuid ↔ db.Registrable chatJid := by
  unfold Registers Registrable BranchDb.ensureChatBranch
  have hchatJid : (EnsureInput.only chatJid).chatJid = chatJid := rfl
  rw [hchatJid]
  dsimp only
  by_cases hblank : trim chatJid = ""
  · rw [if_pos hblank]
    refine ⟨?_, fun h => absurd hblank h.1⟩
    rintro ⟨next, r, h, -⟩
    cases h
  rw [if_neg hblank]
  cases hget : db.branches.getChatBranchByChatJid (trim chatJid) with
  | none =>
    simp only [ne_eq, hblank, not_false_eq_true, true_and]
    refine insert_ok_iff hfresh hget rfl ?_
    intro b hb hactive
    exact getUniqueAgentName_free hb hactive (fun id h => by cases h)
  | some existing =>
    obtain ⟨hmem, hchat⟩ := BranchTable.mem_of_chatJid hget
    simp only [ne_eq, hblank, not_false_eq_true, true_and]
    rw [nextAgentName_only, ← hchat]
    have hothers : (∀ b ∈ db.branches.rows, b ≠ existing → b.Active →
          b.agentName ≠ existing.agentName) ↔
        (existing.Active ∨ ∀ r ∈ db.branches.rows, r.Active → r.agentName ≠ existing.agentName) := by
      constructor
      · intro h
        by_cases hactive : existing.Active
        · exact .inl hactive
        · refine .inr fun r hr hr' => h r hr (fun heq => hactive (heq ▸ hr')) hr'
      · rintro (hactive | hfree) b hb hne hb' heq
        · exact hne (BranchTable.eq_of_handle hb hmem ⟨hb', hactive⟩ heq)
        · exact hfree b hb hb' heq
    split_ifs with hwrites
    · exact (update_ok_iff hmem rfl rfl rfl).trans hothers
    · have hactive : existing.Active := by
        unfold ChatBranch.Active
        by_contra hnot
        apply hwrites
        right; right; right
        simpa [Option.isSome_iff_ne_none] using hnot
      refine ⟨fun _ => .inl hactive, fun _ => ⟨db, existing, rfl, ?_, hactive⟩⟩
      exact BranchTable.getChatBranchByChatJid_of_mem hmem

section Samples

def twoChats : BranchDb ℕ := ⟨["web:one", "web:two"], true, .empty⟩

def takenHandle : List (BranchCall ℕ) :=
  [.ensure (.only "web:one") 0 "branch-1", .archive "web:one" 1,
    .ensure ⟨"web:two", none, none, some "one"⟩ 2 "branch-2"]

theorem handled_twoChats : twoChats.Handled := by
  intro r hr
  cases hr

end Samples

end BranchDb
end Piclaw
