import Piclaw.BranchSeeding

/-!
# Copies of a stable branch

A copy is faithful when it is the source with its ids renamed, entries without context left out.
The replay renames through the map it builds; since every reference points backwards, the final
map gives the same renaming. It is faithful exactly when it passes over no entry with context and
over no entry that a compaction starts from.
-/

namespace Piclaw
variable {γ Ω : Type}

namespace SeedKind

def contextBearing : SeedKind γ → Bool
  | .message _ _ | .compaction _ _ _ _ _ | .contextEdit _ _ | .customMessage _ _ _ _ => true
  | .custom _ _ | .customEntry _ _ | .branchSummary _ _ _ => true
  | _ => false

/-- Usage records, labels and blank session names have no copy. -/
def kept : SeedKind γ → Bool
  | .usage _ | .label _ _ => false
  | .sessionInfo name => trim name ≠ ""
  | _ => true

/-- The kinds that the replay appends a copy of. -/
def replayed : SeedKind γ → Bool
  | .message role _ => isAppendableAgentMessage role
  | .custom _ _ | .branchSummary _ _ _ => false
  | kind => kind.kept

def reference : SeedKind γ → Option String
  | .compaction _ firstKeptEntryId _ _ _ => firstKeptEntryId
  | .contextEdit targetId _ => some targetId
  | _ => none

/-- The copy of an entry under a renaming of ids. -/
def copied (ρ : String → String) : SeedKind γ → SeedKind γ
  | .compaction summary firstKeptEntryId tokensBefore details fromHook =>
    .compaction summary (firstKeptEntryId.map ρ) tokensBefore details fromHook
  | .contextEdit targetId replacement => .contextEdit (ρ targetId) replacement
  | .sessionInfo name => .sessionInfo (trim name)
  | .customEntry customType data => .custom customType data
  | kind => kind

variable {kind : SeedKind γ} {ρ : String → String}

theorem kept_of_contextBearing (h : kind.contextBearing) : kind.kept := by
  cases kind <;> first | rfl | cases h

theorem kept_of_replayed (h : kind.replayed) : kind.kept := by
  cases kind <;> first | rfl | exact h

theorem replayed_of_isEditTarget (h : kind.isEditTarget) : kind.replayed := by
  cases kind <;> first | exact h | rfl | cases h

theorem copied_congr {ρ' : String → String} (h : ∀ x, kind.reference = some x → ρ x = ρ' x) :
    kind.copied ρ = kind.copied ρ' := by
  cases kind with
  | compaction summary firstKeptEntryId tokensBefore details fromHook =>
    cases firstKeptEntryId with
    | none => rfl
    | some x => simp only [copied, Option.map_some, h x rfl]
  | contextEdit targetId replacement => simp only [copied, h targetId rfl]
  | _ => rfl

/-- No copy that the replay makes looks like the copy of an entry that has none. -/
theorem kept_of_copied_eq {other : SeedKind γ} {ρ' : String → String} (hother : other.replayed)
    (h : other.copied ρ = kind.copied ρ') : kind.kept := by
  cases kind with
  | usage record =>
    cases other with
    | usage record' => exact hother
    | _ => cases h
  | label targetId label =>
    cases other with
    | label targetId' label' => exact hother
    | _ => cases h
  | sessionInfo name =>
    cases other with
    | sessionInfo name' =>
      have hname : trim name' = trim name := SeedKind.sessionInfo.inj h
      have hblank : trim name' ≠ "" := of_decide_eq_true hother
      exact decide_eq_true (hname ▸ hblank)
    | _ => cases h
  | _ => rfl

end SeedKind

structure CopyOf (ρ : String → String) (entry copy : SeedEntry γ) : Prop where
  kind : copy.kind = entry.kind.copied ρ
  id : entry.id ≠ "" → copy.id = ρ entry.id

/-- The copy holds, in order, the copies of all kept entries, of all that is referenced too, and
no other entry with context. -/
structure FaithfulCopy (ρ : String → String) (source copy : List (SeedEntry γ)) : Prop where
  entries : ∃ main, main.Sublist copy ∧ (∀ c ∈ copy, c.kind.contextBearing → c ∈ main) ∧
    List.Forall₂ (CopyOf ρ) (source.filter (fun e => e.kind.kept)) main
  targets : ∀ e ∈ source, ∀ x, e.kind.reference = some x →
    ∃ t ∈ source, t.id = x ∧ ∃ c ∈ copy, CopyOf ρ t c

/-- Session entries have distinct ids, and their references point at earlier ones. -/
structure StableBranch (source : List (SeedEntry γ)) : Prop where
  distinct : source.Pairwise (fun a b => a.id ≠ "" → a.id ≠ b.id)
  backwards : ∀ pre e post, source = pre ++ e :: post → ∀ x, e.kind.reference = some x →
    x ≠ "" ∧ ∃ t ∈ pre, t.id = x

section Rejections

/-- Some edit's target is no earlier message or custom message that the replay copies. -/
def UnmappableEdit (source : List (SeedEntry γ)) : Prop :=
  ∃ pre e post x replacement, source = pre ++ e :: post ∧ e.kind = .contextEdit x replacement ∧
    ∀ t ∈ pre, t.id = x → x ≠ "" → ¬ t.kind.isEditTarget

theorem rejectUnmappableEdits_eq_none_iff {ids : List String} {source : List (SeedEntry γ)} :
    rejectUnmappableEdits ids source = none ↔
      ∀ pre e post x replacement, source = pre ++ e :: post → e.kind = .contextEdit x replacement →
        x ∈ ids ∨ ∃ t ∈ pre, t.id = x ∧ x ≠ "" ∧ t.kind.isEditTarget := by
  induction source generalizing ids with
  | nil =>
    refine ⟨fun _ pre e post x replacement h => ?_, fun _ => rfl⟩
    exact absurd h (by simp)
  | cons entry entries ih =>
    set collected := if entry.id ≠ "" ∧ entry.kind.isEditTarget then entry.id :: ids else ids
      with hcollected
    have hmem : ∀ x, x ∈ collected ↔ x ∈ ids ∨ (entry.id = x ∧ x ≠ "" ∧ entry.kind.isEditTarget) := by
      intro x
      rw [hcollected]
      split_ifs with h
      · rw [List.mem_cons]
        constructor
        · rintro (rfl | hx)
          · exact .inr ⟨rfl, h⟩
          · exact .inl hx
        · rintro (hx | ⟨rfl, -⟩)
          · exact .inr hx
          · exact .inl rfl
      · refine ⟨.inl, ?_⟩
        rintro (hx | ⟨rfl, hboth⟩)
        · exact hx
        · exact absurd hboth h
    have htail : rejectUnmappableEdits collected entries = none ↔
        ∀ pre e post x replacement, entries = pre ++ e :: post →
          e.kind = .contextEdit x replacement →
          x ∈ ids ∨ ∃ t ∈ entry :: pre, t.id = x ∧ x ≠ "" ∧ t.kind.isEditTarget := by
      rw [ih]
      refine forall_congr' fun pre => forall_congr' fun e => forall_congr' fun post =>
        forall_congr' fun x => forall_congr' fun replacement => forall_congr' fun _ =>
        forall_congr' fun _ => ?_
      rw [hmem, or_assoc, List.exists_mem_cons_iff]
    have hsplit : (∀ pre e post x replacement, entry :: entries = pre ++ e :: post →
          e.kind = .contextEdit x replacement →
          x ∈ ids ∨ ∃ t ∈ pre, t.id = x ∧ x ≠ "" ∧ t.kind.isEditTarget) ↔
        (∀ x replacement, entry.kind = .contextEdit x replacement → x ∈ ids) ∧
          rejectUnmappableEdits collected entries = none := by
      rw [htail]
      constructor
      · intro h
        refine ⟨fun x replacement hkind => ?_, fun pre e post x replacement heq hkind => ?_⟩
        · rcases h [] entry entries x replacement rfl hkind with hx | ⟨t, ht, -⟩
          · exact hx
          · cases ht
        · exact h (entry :: pre) e post x replacement (by rw [heq]; rfl) hkind
      · rintro ⟨hfirst, hrest⟩ pre e post x replacement heq hkind
        cases pre with
        | nil =>
          cases heq
          exact .inl (hfirst x replacement hkind)
        | cons a pre =>
          cases heq
          exact hrest pre e post x replacement rfl hkind
    rw [hsplit, rejectUnmappableEdits, ← hcollected]
    cases hkind : entry.kind with
    | contextEdit targetId replacement =>
      dsimp only
      split_ifs with htarget
      · refine ⟨fun h => ⟨fun x _ heq => ?_, h⟩, fun h => h.2⟩
        cases heq
        exact htarget
      · exact ⟨fun h => False.elim h,
          fun h => absurd (h.1 targetId replacement rfl) htarget⟩
    | _ => exact ⟨fun h => ⟨fun x replacement heq => (by cases heq), h⟩, fun h => h.2⟩

end Rejections

section Replaying
variable {fresh : ℕ → String} {first : String}

/-- What the map of a replay knows: copies of the replayed entries it has passed. -/
structure Replay.Maps (r : Replay γ) (passed : List (SeedEntry γ)) : Prop where
  of : ∀ x n, r.sourceToNewId.get x = some n →
    x ≠ "" ∧ ∃ t ∈ passed, t.id = x ∧ t.kind.replayed
  all : ∀ t ∈ passed, t.id ≠ "" → t.kind.replayed → (r.sourceToNewId.get t.id).isSome

/-- The copy of one entry under the map at the end of the replay. -/
structure CopiedBy (m : SourceToNewId) (first : String) (entry copy : SeedEntry γ) : Prop where
  kind : copy.kind = entry.kind.copied (mapFirstKept m first)
  id : entry.id ≠ "" → m.get entry.id = some copy.id

theorem replayKind_eq {m : SourceToNewId} {kind : SeedKind γ}
    (hedit : ∀ x replacement, kind = .contextEdit x replacement → (m.get x).isSome) :
    replayKind m first kind =
      .ok (if kind.replayed then some (kind.copied (mapFirstKept m first)) else none) := by
  cases kind with
  | message role message =>
    unfold replayKind SeedKind.replayed SeedKind.copied
    rfl
  | contextEdit targetId replacement =>
    obtain ⟨n, hn⟩ := Option.isSome_iff_exists.mp (hedit targetId replacement rfl)
    unfold replayKind
    simp only [hn, SeedKind.replayed, SeedKind.kept, SeedKind.copied, mapFirstKept, if_true]
    rfl
  | sessionInfo name =>
    unfold replayKind SeedKind.replayed SeedKind.kept SeedKind.copied
    simp only [ne_eq, decide_eq_true_eq]
  | _ => rfl

theorem append_get (r : Replay γ) (hfresh : ∀ n, fresh n ≠ "") (sourceId : String)
    (kind : SeedKind γ) (x : String) :
    (r.append fresh sourceId kind).sourceToNewId.get x =
      if x = sourceId ∧ sourceId ≠ "" then some (fresh r.copy.length)
      else r.sourceToNewId.get x := by
  unfold Replay.append
  dsimp only
  by_cases hid : sourceId = ""
  · rw [if_neg (fun h => h.1 hid), if_neg (fun h => h.2 hid)]
  · rw [if_pos ⟨hid, hfresh _⟩, OrderedMap.get_set]
    by_cases hx : x = sourceId
    · rw [if_pos hx, if_pos ⟨hx, hid⟩]
    · rw [if_neg hx, if_neg (fun h => hx h.1)]

theorem Replay.Maps.append {r : Replay γ} {passed : List (SeedEntry γ)} (hr : r.Maps passed)
    (hfresh : ∀ n, fresh n ≠ "") {entry : SeedEntry γ} (hreplayed : entry.kind.replayed)
    (kind : SeedKind γ) : (r.append fresh entry.id kind).Maps (passed ++ [entry]) := by
  constructor
  · intro x n hx
    rw [append_get r hfresh] at hx
    split_ifs at hx with hself
    · exact ⟨hself.1 ▸ hself.2, entry, by simp, hself.1.symm, hreplayed⟩
    · obtain ⟨hne, t, ht, h⟩ := hr.of x n hx
      exact ⟨hne, t, List.mem_append_left _ ht, h⟩
  · intro t ht hid hkind
    rw [append_get r hfresh]
    split_ifs with hself
    · rfl
    · rcases List.mem_append.mp ht with ht | ht
      · exact hr.all t ht hid hkind
      · rw [List.mem_singleton.mp ht] at hself hid
        exact absurd ⟨rfl, hid⟩ hself

theorem Replay.Maps.skip {r : Replay γ} {passed : List (SeedEntry γ)} (hr : r.Maps passed)
    {entry : SeedEntry γ} (hreplayed : ¬ entry.kind.replayed) : r.Maps (passed ++ [entry]) := by
  constructor
  · intro x n hx
    obtain ⟨hne, t, ht, h⟩ := hr.of x n hx
    exact ⟨hne, t, List.mem_append_left _ ht, h⟩
  · intro t ht hid hkind
    rcases List.mem_append.mp ht with ht | ht
    · exact hr.all t ht hid hkind
    · rw [List.mem_singleton.mp ht] at hkind
      exact absurd hkind hreplayed

theorem Replay.Maps.get_empty {r : Replay γ} {passed : List (SeedEntry γ)} (hr : r.Maps passed) :
    r.sourceToNewId.get "" = none := by
  cases hget : r.sourceToNewId.get "" with
  | none => rfl
  | some n => exact absurd rfl (hr.of "" n hget).1

/-- Every edit points at an entry that the replay copies. -/
def EditsMapped (source : List (SeedEntry γ)) : Prop :=
  ∀ pre e post x replacement, source = pre ++ e :: post → e.kind = .contextEdit x replacement →
    ∃ t ∈ pre, t.id = x ∧ x ≠ "" ∧ t.kind.isEditTarget

/-- The replay of the rest of a branch: it completes, what it appends are the copies of the
replayed entries under its final map, and the ids already passed keep their copies. -/
theorem replayEntries_spec (hfresh : ∀ n, fresh n ≠ "") {source : List (SeedEntry γ)}
    (hbranch : StableBranch source) (hedits : EditsMapped source)
    (hfirst : ∀ e rest, source = e :: rest → e.id = first)
    {passed rest : List (SeedEntry γ)} (hsource : source = passed ++ rest) {r : Replay γ}
    (hr : r.Maps passed) :
    ∃ r' added, replayEntries fresh first r rest = (r', none) ∧ r'.copy = r.copy ++ added ∧
      r'.Maps source ∧
      List.Forall₂ (CopiedBy r'.sourceToNewId first) (rest.filter (fun e => e.kind.replayed)) added ∧
      ∀ t ∈ passed, t.id ≠ "" → r'.sourceToNewId.get t.id = r.sourceToNewId.get t.id := by
  induction rest generalizing passed r with
  | nil =>
    refine ⟨r, [], rfl, by simp, ?_, .nil, fun _ _ _ => rfl⟩
    rw [hsource, List.append_nil]
    exact hr
  | cons entry rest ih =>
    have hnext : source = (passed ++ [entry]) ++ rest := by
      rw [hsource, List.append_assoc]
      rfl
    have hedit : ∀ x replacement, entry.kind = .contextEdit x replacement →
        (r.sourceToNewId.get x).isSome := by
      intro x replacement hkind
      obtain ⟨t, ht, rfl, hid, htarget⟩ := hedits passed entry rest x replacement hsource hkind
      exact hr.all t ht hid (SeedKind.replayed_of_isEditTarget htarget)
    have hkind := @replayKind_eq γ first r.sourceToNewId entry.kind hedit
    rw [replayEntries, hkind]
    by_cases hreplayed : entry.kind.replayed
    · rw [if_pos hreplayed]
      dsimp only
      obtain ⟨r', added, hrun, hcopy, hmaps, hforall, hkept⟩ :=
        ih hnext (hr.append hfresh hreplayed (entry.kind.copied (mapFirstKept r.sourceToNewId first)))
      have hentry : entry.id ≠ "" → r'.sourceToNewId.get entry.id = some (fresh r.copy.length) := by
        intro hid
        rw [hkept entry (by simp) hid, append_get r hfresh, if_pos ⟨rfl, hid⟩]
      have hpassed : ∀ t ∈ passed, t.id ≠ "" →
          r'.sourceToNewId.get t.id = r.sourceToNewId.get t.id := by
        intro t ht hid
        rw [hkept t (List.mem_append_left _ ht) hid, append_get r hfresh, if_neg]
        intro hself
        have hpair := hbranch.distinct
        rw [hsource, List.pairwise_append] at hpair
        exact hpair.2.2 t ht entry List.mem_cons_self hid hself.1
      refine ⟨r', ⟨fresh r.copy.length, entry.kind.copied (mapFirstKept r.sourceToNewId first)⟩ ::
        added, hrun, ?_, hmaps, ?_, hpassed⟩
      · rw [hcopy]
        unfold Replay.append
        simp
      · rw [List.filter_cons_of_pos (by exact hreplayed)]
        refine .cons ⟨SeedKind.copied_congr ?_, hentry⟩ hforall
        intro x hx
        obtain ⟨hxne, t, ht, htx⟩ := hbranch.backwards passed entry rest hsource x hx
        have hsame : r'.sourceToNewId.get x = r.sourceToNewId.get x := by
          rw [← htx]
          exact hpassed t ht (htx ▸ hxne)
        have hsameFirst : r'.sourceToNewId.get first = r.sourceToNewId.get first := by
          cases passed with
          | nil => cases ht
          | cons e passed =>
            rw [← hfirst e (passed ++ entry :: rest) hsource]
            by_cases hid : e.id = ""
            · rw [hid, hmaps.get_empty, hr.get_empty]
            · exact hpassed e List.mem_cons_self hid
        unfold mapFirstKept
        rw [hsame, hsameFirst]
    · rw [if_neg hreplayed]
      dsimp only
      obtain ⟨r', added, hrun, hcopy, hmaps, hforall, hkept⟩ := ih hnext (hr.skip hreplayed)
      refine ⟨r', added, hrun, hcopy, hmaps, ?_, fun t ht => hkept t (List.mem_append_left _ ht)⟩
      rw [List.filter_cons_of_neg (by exact hreplayed)]
      exact hforall

end Replaying

section Faithfulness
variable {fresh : ℕ → String} {supportsEdits : Bool} {fallback : SeedFallback}
  {source copy : List (SeedEntry γ)}

/-- The replay is refused before anything is appended. -/
def Refused (supportsEdits : Bool) (source : List (SeedEntry γ)) : Prop :=
  (supportsEdits = false ∧ ∃ e ∈ source, e.kind.isContextEdit) ∨ UnmappableEdit source

/-- Every entry with context is of a kind that is copied, and so is every entry that a compaction
starts from. -/
structure Replayable (source : List (SeedEntry γ)) : Prop where
  kinds : ∀ e ∈ source, e.kind.contextBearing → e.kind.replayed
  firstKept : ∀ e ∈ source, ∀ summary x tokensBefore details fromHook,
    e.kind = .compaction summary (some x) tokensBefore details fromHook →
      ∃ t ∈ source, t.id = x ∧ t.kind.replayed

/-- The call throws with nothing appended, or leaves a faithful copy of the same context. -/
def StartsWithContext (project : List (SeedEntry γ) → Ω) (source : List (SeedEntry γ))
    (answer : List (SeedEntry γ) × Option SeedError) : Prop :=
  (answer.2.isSome ∧ answer.1 = []) ∨
    (answer.2 = none ∧ (∃ ρ, FaithfulCopy ρ source answer.1) ∧ project source = project answer.1)

theorem editsMapped_of_not_unmappable (h : ¬ UnmappableEdit source) : EditsMapped source := by
  intro pre e post x replacement heq hkind
  by_contra hnone
  refine h ⟨pre, e, post, x, replacement, heq, hkind, fun t ht hid hx htarget => hnone ?_⟩
  exact ⟨t, ht, hid, hx, htarget⟩

theorem rejectUnmappableEdits_of_not_unmappable (h : ¬ UnmappableEdit source) :
    rejectUnmappableEdits [] source = none := by
  rw [rejectUnmappableEdits_eq_none_iff]
  intro pre e post x replacement heq hkind
  exact .inr (editsMapped_of_not_unmappable h pre e post x replacement heq hkind)

theorem seed_refused (h : Refused supportsEdits source) :
    let answer := seedSessionManagerFromBranchEntries fresh supportsEdits fallback source
    answer.2.isSome ∧ answer.1 = [] := by
  unfold seedSessionManagerFromBranchEntries
  cases source with
  | nil =>
    rcases h with ⟨-, e, he, -⟩ | ⟨pre, e, post, x, replacement, heq, -⟩
    · cases he
    · exact absurd heq (by simp)
  | cons first rest =>
    dsimp only
    split_ifs with hedits
    · exact ⟨rfl, rfl⟩
    · have hunmappable : UnmappableEdit (first :: rest) := by
        rcases h with ⟨hsupport, e, he, hedit⟩ | h
        · exfalso
          apply hedits
          rw [hsupport, Bool.not_false, Bool.and_true, List.any_eq_true]
          exact ⟨e, he, hedit⟩
        · exact h
      cases hreject : rejectUnmappableEdits [] (first :: rest) with
      | some e => exact ⟨rfl, rfl⟩
      | none =>
        obtain ⟨pre, e, post, x, replacement, heq, hkind, hnone⟩ := hunmappable
        rcases rejectUnmappableEdits_eq_none_iff.mp hreject pre e post x replacement heq hkind with
          hx | ⟨t, ht, hid, hx, htarget⟩
        · cases hx
        · exact absurd htarget (hnone t ht hid hx)

/-- The copy that a replay which is not refused leaves: the copies of the replayed entries under
one map. -/
theorem seed_replayed (hfresh : ∀ n, fresh n ≠ "") (hbranch : StableBranch source)
    (hrefused : ¬ Refused supportsEdits source) (hne : source ≠ []) :
    ∃ copy m first, seedSessionManagerFromBranchEntries fresh supportsEdits fallback source =
        (copy, none) ∧
      List.Forall₂ (CopiedBy m first) (source.filter (fun e => e.kind.replayed)) copy := by
  have hunmappable : ¬ UnmappableEdit source := fun h => hrefused (.inr h)
  cases source with
  | nil => exact absurd rfl hne
  | cons first rest =>
    have hinitial : (⟨[], .empty⟩ : Replay γ).Maps [] := by
      constructor
      · intro x n hx
        cases hx
      · intro t ht
        cases ht
    obtain ⟨r', added, hrun, hcopy, -, hforall, -⟩ := @replayEntries_spec γ fresh first.id hfresh
      (first :: rest) hbranch (editsMapped_of_not_unmappable hunmappable)
      (fun e rest' heq => by cases heq; rfl) [] (first :: rest) rfl ⟨[], .empty⟩ hinitial
    refine ⟨added, r'.sourceToNewId, first.id, ?_, hforall⟩
    unfold seedSessionManagerFromBranchEntries
    dsimp only
    rw [if_neg, rejectUnmappableEdits_of_not_unmappable hunmappable]
    · dsimp only
      rw [hrun, hcopy]
      rfl
    · intro hedits
      rw [Bool.and_eq_true, List.any_eq_true, Bool.not_eq_true'] at hedits
      obtain ⟨⟨e, he, hedit⟩, hsupport⟩ := hedits
      exact hrefused (.inl ⟨hsupport, e, he, hedit⟩)

theorem mem_copy_of_replayed {m : SourceToNewId} {first : String} {t : SeedEntry γ}
    (hforall : List.Forall₂ (CopiedBy m first) (source.filter (fun e => e.kind.replayed)) copy)
    (ht : t ∈ source) (hreplayed : t.kind.replayed) : ∃ c ∈ copy, CopiedBy m first t c := by
  have hin : t ∈ source.filter (fun e => e.kind.replayed) := List.mem_filter.mpr ⟨ht, hreplayed⟩
  generalize source.filter (fun e => e.kind.replayed) = replayed at hforall hin
  induction hforall with
  | nil => cases hin
  | cons hhead _ ih =>
    rcases List.mem_cons.mp hin with rfl | hin
    · exact ⟨_, List.mem_cons_self, hhead⟩
    · obtain ⟨c, hc, h⟩ := ih hin
      exact ⟨c, List.mem_cons_of_mem _ hc, h⟩

theorem replayed_of_mem_copy {m : SourceToNewId} {first : String} {c : SeedEntry γ}
    (hforall : List.Forall₂ (CopiedBy m first) (source.filter (fun e => e.kind.replayed)) copy)
    (hc : c ∈ copy) : ∃ t ∈ source, t.kind.replayed ∧ CopiedBy m first t c := by
  have hall : ∀ t ∈ source.filter (fun e => e.kind.replayed), t ∈ source ∧ t.kind.replayed :=
    fun t ht => List.mem_filter.mp ht
  generalize source.filter (fun e => e.kind.replayed) = replayed at hforall hall
  induction hforall with
  | nil => cases hc
  | cons hhead _ ih =>
    rcases List.mem_cons.mp hc with rfl | hc
    · exact ⟨_, (hall _ List.mem_cons_self).1, (hall _ List.mem_cons_self).2, hhead⟩
    · exact ih hc fun t ht => hall t (List.mem_cons_of_mem _ ht)

theorem CopiedBy.copyOf {m : SourceToNewId} {first : String} {t c : SeedEntry γ}
    (h : CopiedBy m first t c) : CopyOf (mapFirstKept m first) t c := by
  refine ⟨h.kind, fun hid => ?_⟩
  unfold mapFirstKept
  rw [h.id hid]
  rfl

theorem faithful_of_replayable {m : SourceToNewId} {first : String} (h : Replayable source)
    (hedits : EditsMapped source)
    (hforall : List.Forall₂ (CopiedBy m first) (source.filter (fun e => e.kind.replayed)) copy) :
    FaithfulCopy (mapFirstKept m first) source copy := by
  have hkept : ∀ e ∈ source, e.kind.kept = e.kind.replayed := by
    intro e he
    by_cases hreplayed : e.kind.replayed
    · rw [hreplayed, SeedKind.kept_of_replayed hreplayed]
    · have hbare : ¬ e.kind.contextBearing := fun hbearing => hreplayed (h.kinds e he hbearing)
      cases hkind : e.kind with
      | message role message => exact absurd (by rw [hkind]; rfl) hbare
      | custom customType data => exact absurd (by rw [hkind]; rfl) hbare
      | branchSummary fromId summary details => exact absurd (by rw [hkind]; rfl) hbare
      | _ => rfl
  constructor
  · refine ⟨copy, List.Sublist.refl copy, fun c hc _ => hc, ?_⟩
    rw [List.filter_congr hkept]
    exact hforall.imp fun _ _ hcopied => hcopied.copyOf
  · intro e he x hx
    have htarget : ∃ t ∈ source, t.id = x ∧ t.kind.replayed := by
      cases hkind : e.kind with
      | compaction summary firstKeptEntryId tokensBefore details fromHook =>
        rw [hkind] at hx
        have hfirst : firstKeptEntryId = some x := hx
        rw [hfirst] at hkind
        exact h.firstKept e he summary x tokensBefore details fromHook hkind
      | contextEdit targetId replacement =>
        rw [hkind] at hx
        cases hx
        obtain ⟨pre, post, hsplit⟩ := List.append_of_mem he
        obtain ⟨t, ht, hid, -, hedit⟩ := hedits pre e post x replacement hsplit hkind
        refine ⟨t, ?_, hid, SeedKind.replayed_of_isEditTarget hedit⟩
        rw [hsplit]
        exact List.mem_append_left _ ht
      | _ =>
        rw [hkind] at hx
        cases hx
    obtain ⟨t, ht, hid, hreplayed⟩ := htarget
    obtain ⟨c, hc, hcopied⟩ := mem_copy_of_replayed hforall ht hreplayed
    exact ⟨t, ht, hid, c, hc, hcopied.copyOf⟩

theorem replayable_of_faithful {m : SourceToNewId} {first : String} {ρ : String → String}
    (h : FaithfulCopy ρ source copy)
    (hforall : List.Forall₂ (CopiedBy m first) (source.filter (fun e => e.kind.replayed)) copy) :
    Replayable source := by
  obtain ⟨main, hsub, -, hmain⟩ := h.entries
  -- The copy is no longer than the replayed entries, and they are among the kept ones.
  have hfilter : (source.filter (fun e => e.kind.replayed)) =
      (source.filter (fun e => e.kind.kept)).filter (fun e => e.kind.replayed) := by
    rw [List.filter_filter]
    refine List.filter_congr fun e _ => ?_
    cases hreplayed : e.kind.replayed with
    | false => rfl
    | true => rw [SeedKind.kept_of_replayed hreplayed]; rfl
  have hlength : (source.filter (fun e => e.kind.kept)).length ≤
      ((source.filter (fun e => e.kind.kept)).filter (fun e => e.kind.replayed)).length := by
    rw [← hfilter, hmain.length_eq, hforall.length_eq]
    exact hsub.length_le
  have hall : ∀ e ∈ source, e.kind.kept → e.kind.replayed := by
    intro e he hkept
    have heq := List.filter_sublist.eq_of_length_le hlength
    have hin : e ∈ source.filter (fun e => e.kind.kept) := List.mem_filter.mpr ⟨he, hkept⟩
    rw [← heq] at hin
    exact (List.mem_filter.mp hin).2
  constructor
  · intro e he hbearing
    exact hall e he (SeedKind.kept_of_contextBearing hbearing)
  · intro e he summary x tokensBefore details fromHook hkind
    obtain ⟨t, ht, hid, c, hc, hcopy⟩ := h.targets e he x (by rw [hkind]; rfl)
    obtain ⟨t', -, hreplayed, hcopied⟩ := replayed_of_mem_copy hforall hc
    have hsame := hcopied.kind.symm.trans hcopy.kind
    exact ⟨t, ht, hid, hall t ht (SeedKind.kept_of_copied_eq hreplayed hsame)⟩

theorem faithful_fallback : FaithfulCopy (γ := γ) id []
    (((fallbackKinds fallback).zipIdx).map fun kind => ⟨fresh kind.2, kind.1⟩) := by
  constructor
  · refine ⟨[], List.nil_sublist _, ?_, .nil⟩
    intro c hc hbearing
    obtain ⟨kind, hkind, rfl⟩ := List.mem_map.mp hc
    have hin := (List.mem_zipIdx' hkind).2
    have hmem : kind.1 ∈ fallbackKinds fallback := List.fst_mem_of_mem_zipIdx hkind
    unfold fallbackKinds at hmem
    rcases List.mem_append.mp hmem with hname | hmodel
    · obtain ⟨name, -, heq⟩ := Option.map_eq_some_iff.mp (Option.mem_toList.mp hname)
      rw [← heq] at hbearing
      cases hbearing
    · obtain ⟨model, -, heq⟩ := Option.map_eq_some_iff.mp (Option.mem_toList.mp hmodel)
      rw [← heq] at hbearing
      cases hbearing
  · intro e he
    cases he

/-- The session manager's projection of entries to a context: it reads the entries with context
and what they refer to, and ids only to find these. -/
structure Projection (γ Ω : Type) where
  project : List (SeedEntry γ) → Ω
  project_copy : ∀ ρ source copy, StableBranch source → (copy.map (·.id)).Nodup →
    FaithfulCopy ρ source copy → project source = project copy

theorem replayEntries_ids {first : String} {r : Replay γ}
    (hr : r.copy.map (·.id) = (List.range r.copy.length).map fresh) :
    let copy := (replayEntries fresh first r source).1.copy
    copy.map (·.id) = (List.range copy.length).map fresh := by
  induction source generalizing r with
  | nil => exact hr
  | cons entry rest ih =>
    rw [replayEntries]
    cases replayKind r.sourceToNewId first entry.kind with
    | error e => exact hr
    | ok kind =>
      cases kind with
      | none => exact ih hr
      | some kind =>
        refine ih ?_
        unfold Replay.append
        rw [List.map_append, hr, List.length_append, List.length_singleton, List.range_succ,
          List.map_append]
        rfl

/-- The copy's ids are distinct. -/
theorem seed_nodup (hinjective : fresh.Injective) :
    ((seedSessionManagerFromBranchEntries fresh supportsEdits fallback source).1.map
      (·.id)).Nodup := by
  unfold seedSessionManagerFromBranchEntries
  cases source with
  | nil =>
    dsimp only
    rw [List.map_map]
    have hids : (fallbackKinds (γ := γ) fallback).zipIdx.map
        ((·.id) ∘ fun kind => (⟨fresh kind.2, kind.1⟩ : SeedEntry γ)) =
          (((fallbackKinds (γ := γ) fallback).zipIdx.map Prod.snd).map fresh) := by
      rw [List.map_map]
      rfl
    rw [hids, List.zipIdx_map_snd]
    exact (List.nodup_range' _).map hinjective
  | cons first rest =>
    dsimp only
    split_ifs
    · exact List.nodup_nil
    · cases rejectUnmappableEdits [] (first :: rest) with
      | some e => exact List.nodup_nil
      | none =>
        have hids := @replayEntries_ids γ fresh (first :: rest) first.id ⟨[], .empty⟩ rfl
        dsimp only at hids ⊢
        rw [hids]
        exact List.nodup_range.map hinjective

theorem seed_starts_with_context (projection : Projection γ Ω)
    (hinjective : fresh.Injective) (hfresh : ∀ n, fresh n ≠ "")
    (supportsEdits : Bool) (fallback : SeedFallback) (hbranch : StableBranch source) :
    StartsWithContext projection.project source
        (seedSessionManagerFromBranchEntries fresh supportsEdits fallback source) ↔
      Refused supportsEdits source ∨ Replayable source := by
  have hids := @seed_nodup γ fresh supportsEdits fallback source hinjective
  by_cases hrefused : Refused supportsEdits source
  · exact ⟨fun _ => .inl hrefused, fun _ => .inl (seed_refused hrefused)⟩
  by_cases hne : source = []
  · subst hne
    refine ⟨fun _ => .inr ⟨?_, ?_⟩, fun _ => .inr ⟨rfl, ⟨id, faithful_fallback⟩, ?_⟩⟩
    · intro e he
      cases he
    · intro e he
      cases he
    · exact projection.project_copy id _ _ hbranch hids faithful_fallback
  obtain ⟨copy, m, first, hseed, hforall⟩ := seed_replayed hfresh hbranch hrefused hne
  rw [hseed] at hids ⊢
  constructor
  · rintro (⟨hthrows, -⟩ | ⟨-, ⟨ρ, hfaithful⟩, -⟩)
    · cases hthrows
    · exact .inr (replayable_of_faithful hfaithful hforall)
  · rintro (h | hreplayable)
    · exact absurd h hrefused
    · have hedits := editsMapped_of_not_unmappable fun h => hrefused (.inr h)
      have hfaithful := faithful_of_replayable hreplayable hedits hforall
      exact .inr ⟨rfl, ⟨_, hfaithful⟩, projection.project_copy _ _ _ hbranch hids hfaithful⟩

theorem length_of_faithful {ρ : String → String} (h : FaithfulCopy ρ source copy) :
    (source.filter (fun e => e.kind.kept)).length ≤ copy.length := by
  obtain ⟨main, hsub, -, hmain⟩ := h.entries
  rw [hmain.length_eq]
  exact hsub.length_le

end Faithfulness

section Samples

/-- The context of a branch without compactions and edits: its messages. -/
def messages (entries : List (SeedEntry String)) : List (String × String) :=
  entries.filterMap fun e => match e.kind with
    | .message role message => some (role, message)
    | _ => none

theorem messages_of_bearing {entries main : List (SeedEntry String)} (hsub : main.Sublist entries)
    (hids : (entries.map (·.id)).Nodup) (hin : ∀ e ∈ entries, e.kind.contextBearing → e ∈ main) :
    messages main = messages entries := by
  induction hsub with
  | slnil => rfl
  | @cons main entries e hsub ih =>
    rw [List.map_cons, List.nodup_cons] at hids
    have hnot : e ∉ main := fun he => hids.1 (List.mem_map.mpr ⟨e, hsub.mem he, rfl⟩)
    have hskip : messages (e :: entries) = messages entries := by
      unfold messages
      rw [List.filterMap_cons]
      cases hkind : e.kind with
      | message role message =>
        exact absurd (hin e List.mem_cons_self (by rw [hkind]; rfl)) hnot
      | _ => rfl
    rw [hskip]
    exact ih hids.2 fun e' he' => hin e' (List.mem_cons_of_mem _ he')
  | @cons_cons main entries e hsub ih =>
    rw [List.map_cons, List.nodup_cons] at hids
    have hrest : messages main = messages entries := by
      refine ih hids.2 fun e' he' hbearing => ?_
      rcases List.mem_cons.mp (hin e' (List.mem_cons_of_mem _ he') hbearing) with rfl | hmem
      · exact absurd (List.mem_map.mpr ⟨e', he', rfl⟩) hids.1
      · exact hmem
    unfold messages at hrest ⊢
    rw [List.filterMap_cons, List.filterMap_cons, hrest]

theorem messages_of_copies {ρ : String → String} {entries copy : List (SeedEntry String)}
    (h : List.Forall₂ (CopyOf ρ) entries copy) : messages entries = messages copy := by
  induction h with
  | nil => rfl
  | @cons e c entries copy hcopy _ ih =>
    unfold messages at ih ⊢
    rw [List.filterMap_cons, List.filterMap_cons, ih, hcopy.kind]
    cases e.kind <;> rfl

def messageProjection : Projection String (List (String × String)) where
  project := messages
  project_copy := by
    intro ρ source copy _ hids hfaithful
    obtain ⟨main, hsub, hin, hmain⟩ := hfaithful.entries
    have hkept : messages (source.filter (fun e => e.kind.kept)) = messages source := by
      unfold messages
      rw [List.filterMap_filter]
      refine List.filterMap_congr fun e _ => ?_
      cases e.kind <;> first | rfl | simp [SeedKind.kept]
    rw [← hkept, messages_of_copies hmain, messages_of_bearing hsub hids hin]

def newIds (n : ℕ) : String := suffixed "new" n

theorem newIds_ne_empty (n : ℕ) : newIds n ≠ "" := by
  intro h
  have hlist := congrArg String.toList h
  unfold newIds at hlist
  rw [toList_suffixed] at hlist
  simp at hlist

def greeting : List (SeedEntry String) := [⟨"m1", .message "user" "hello"⟩]

theorem stableBranch_greeting : StableBranch greeting := by
  constructor
  · exact List.pairwise_singleton _ _
  · intro pre e post heq x hx
    cases pre with
    | nil =>
      cases heq
      cases hx
    | cons a pre =>
      cases pre <;> cases heq

theorem seed_starts_with_context_greeting :
    StartsWithContext messageProjection.project greeting
        (seedSessionManagerFromBranchEntries newIds true ⟨none, none⟩ greeting) ↔
      Refused true greeting ∨ Replayable greeting :=
  seed_starts_with_context messageProjection (fun _ _ h => suffixed_injective h) newIds_ne_empty
    true ⟨none, none⟩ stableBranch_greeting

def toolTurn : List (SeedEntry String) :=
  [⟨"m1", .message "user" "list the files"⟩, ⟨"m2", .message "assistant" "ls"⟩,
    ⟨"m3", .message "toolResult" "a.txt"⟩]

/-- The tool result of the parent is missing in the fork. -/
theorem tool_result_lost :
    ¬ StartsWithContext messages toolTurn
      (seedSessionManagerFromBranchEntries newIds true ⟨none, none⟩ toolTurn) := by
  rintro (⟨hthrows, -⟩ | ⟨-, ⟨ρ, hfaithful⟩, -⟩)
  · have hreturns : (seedSessionManagerFromBranchEntries newIds true ⟨none, none⟩
        toolTurn).2.isSome = false := by decide +kernel
    rw [hreturns] at hthrows
    cases hthrows
  · have hlength := length_of_faithful hfaithful
    have hshort : ¬ (toolTurn.filter (fun e => e.kind.kept)).length ≤
        (seedSessionManagerFromBranchEntries newIds true ⟨none, none⟩ toolTurn).1.length := by
      decide +kernel
    exact hshort hlength

end Samples

end Piclaw
