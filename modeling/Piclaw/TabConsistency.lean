import Piclaw.TabStore

/-!
# Consistency of the tab store

Each operation is described by what it does to the lookup of a tab, to the recency list and to the
active id. The three views stay in step exactly as long as no call takes one of the two ways
around them.
-/

namespace Piclaw.Tabs

variable {s : TabStore} {id : String}

/-- Every open tab has a non-empty id. -/
def Named (s : TabStore) : Prop := ∀ id, (s.tabs.get id).isSome → id ≠ ""

theorem idOrNull_of_ne {id : Option String} (h : ∀ name, id = some name → name ≠ "") :
    idOrNull id = id := by
  cases id with
  | none => rfl
  | some name => exact if_pos (h name rfl)

theorem Consistent.active_eq_head (h : Consistent s) : s.activeId = s.mruOrder.head? := by
  cases hactive : s.activeId with
  | some id => exact (h.active_first id hactive).symm
  | none =>
    cases hmru : s.mruOrder with
    | nil => rfl
    | cons id rest =>
      have hopen := (h.mru_open id).mp (by rw [hmru]; exact List.mem_cons_self)
      rw [h.null_only hactive id] at hopen
      cases hopen

/-- The active id is the most recent one, so the recency list carries the rest. -/
theorem consistent_of_head (hkeyed : ∀ id tab, s.tabs.get id = some tab → tab.id = id)
    (hnodup : s.mruOrder.Nodup) (hopen : ∀ id, id ∈ s.mruOrder ↔ (s.tabs.get id).isSome)
    (hactive : s.activeId = s.mruOrder.head?) : Consistent s where
  keyed := hkeyed
  mru_nodup := hnodup
  mru_open := hopen
  active_first id hid := by rw [← hactive, hid]
  active_open id hid := by
    rw [← hopen]
    rw [hactive] at hid
    exact List.mem_of_head? hid
  null_only hnull id := by
    rw [hactive, List.head?_eq_none_iff] at hnull
    have hclosed := (hopen id).not.mp (by rw [hnull]; exact List.not_mem_nil)
    exact Option.not_isSome_iff_eq_none.mp hclosed

theorem consistent_empty : Consistent empty :=
  consistent_of_head (fun _ _ h => absurd h (by simp [empty])) List.nodup_nil
    (fun _ => by simp [empty]) rfl

section Activate

/-- Activating repairs a recency list that does not know about the activated tab. -/
theorem consistent_activate (hkeyed : ∀ id tab, s.tabs.get id = some tab → tab.id = id)
    (hnodup : s.mruOrder.Nodup) (hid : (s.tabs.get id).isSome)
    (hopen : ∀ x, x ≠ id → (x ∈ s.mruOrder ↔ (s.tabs.get x).isSome)) :
    Consistent (activate s id) := by
  unfold activate
  rw [if_neg (by rw [Option.isNone_iff_eq_none]; exact Option.isSome_iff_ne_none.mp hid)]
  refine consistent_of_head hkeyed ?_ ?_ rfl
  · refine List.nodup_cons.mpr ⟨?_, hnodup.filter _⟩
    simp
  · intro x
    by_cases hx : x = id
    · subst hx
      exact iff_of_true List.mem_cons_self hid
    · rw [List.mem_cons, List.mem_filter, ← hopen x hx]
      simp [hx]

theorem Consistent.activate (h : Consistent s) (id : String) : Consistent (activate s id) := by
  by_cases hid : (s.tabs.get id).isSome
  · exact consistent_activate h.keyed h.mru_nodup hid (fun x _ => h.mru_open x)
  · unfold Tabs.activate
    rw [if_pos (Option.isNone_iff_eq_none.mpr (Option.not_isSome_iff_eq_none.mp hid))]
    exact h

theorem activate_tabs (s : TabStore) (id : String) : (activate s id).tabs = s.tabs := by
  unfold activate
  split_ifs
  · rfl
  · rfl

theorem consistent_open (h : Consistent s) (path : String) (label : Option String) :
    Consistent («open» s path label) := by
  unfold «open»
  cases hpath : s.tabs.get path with
  | some tab => exact h.activate path
  | none =>
    refine consistent_activate ?_ h.mru_nodup ?_ ?_
    · intro x tab hx
      dsimp only at hx
      rw [OrderedMap.get_set] at hx
      split_ifs at hx with hpath
      · cases hx
        exact hpath.symm
      · exact h.keyed x tab hx
    · rw [OrderedMap.get_set_self]
      rfl
    · intro x hx
      rw [OrderedMap.get_set_of_ne _ _ hx]
      exact h.mru_open x

theorem open_tabs (h : s.tabs.get id = none) (label : Option String) :
    ∃ tab, («open» s id label).tabs = s.tabs.set id tab := by
  unfold «open»
  rw [h]
  exact ⟨_, activate_tabs _ id⟩

theorem activateIndex_tabs (s : TabStore) (i : ℤ) : (activateIndex s i).tabs = s.tabs := by
  unfold activateIndex
  cases (getTabs s)[i.toNat]? with
  | none => rfl
  | some tab => exact activate_tabs s tab.id

theorem consistent_activateIndex (h : Consistent s) (i : ℤ) : Consistent (activateIndex s i) := by
  unfold activateIndex
  cases (getTabs s)[i.toNat]? with
  | none => exact h
  | some tab => exact h.activate tab.id

theorem nextTab_tabs (s : TabStore) : (nextTab s).tabs = s.tabs := by
  unfold nextTab
  split_ifs
  · rfl
  · exact activateIndex_tabs s _

theorem prevTab_tabs (s : TabStore) : (prevTab s).tabs = s.tabs := by
  unfold prevTab
  split_ifs
  · rfl
  · exact activateIndex_tabs s _

theorem mruSwitch_tabs (s : TabStore) : (mruSwitch s).tabs = s.tabs := by
  unfold mruSwitch
  cases s.mruOrder[1]? with
  | none => rfl
  | some other => exact activate_tabs s other

theorem consistent_nextTab (h : Consistent s) : Consistent (nextTab s) := by
  unfold nextTab
  split_ifs
  · exact h
  · exact consistent_activateIndex h _

theorem consistent_prevTab (h : Consistent s) : Consistent (prevTab s) := by
  unfold prevTab
  split_ifs
  · exact h
  · exact consistent_activateIndex h _

theorem consistent_mruSwitch (h : Consistent s) : Consistent (mruSwitch s) := by
  unfold mruSwitch
  cases s.mruOrder[1]? with
  | none => exact h
  | some other => exact h.activate other

end Activate

section Removal

theorem head?_filter_of_keep {p : String → Bool} {l : List String} {a : String}
    (h : l.head? = some a) (hp : p a = true) : (l.filter p).head? = some a := by
  cases l with
  | nil => cases h
  | cons b l =>
    cases h
    rw [List.filter_cons_of_pos hp]
    rfl

def removedBy (keeps : String → TabState → Bool) (entries : List (String × TabState))
    (id : String) : Bool :=
  entries.any (fun e => e.1 = id && !keeps e.1 e.2)

theorem removedBy_of_keep {keeps : String → TabState → Bool} {e : String × TabState}
    (hkeep : keeps e.1 e.2 = true) (entries : List (String × TabState)) (id : String) :
    removedBy keeps (e :: entries) id = removedBy keeps entries id := by
  unfold removedBy
  rw [List.any_cons, hkeep, Bool.not_true, Bool.and_false, Bool.false_or]

theorem removedBy_of_not_keep {keeps : String → TabState → Bool} {e : String × TabState}
    (hkeep : ¬ keeps e.1 e.2 = true) (entries : List (String × TabState)) (id : String) :
    removedBy keeps (e :: entries) id = (decide (e.1 = id) || removedBy keeps entries id) := by
  rw [Bool.not_eq_true] at hkeep
  unfold removedBy
  rw [List.any_cons, hkeep, Bool.not_false, Bool.and_true]

theorem foldl_remove (keeps : String → TabState → Bool) (entries : List (String × TabState))
    (s : TabStore) :
    let t := entries.foldl (fun s e => if keeps e.1 e.2 then s else remove s e.1) s
    (∀ id, t.tabs.get id = if removedBy keeps entries id then none else s.tabs.get id) ∧
      t.mruOrder = s.mruOrder.filter (fun id => !removedBy keeps entries id) ∧
      t.activeId = s.activeId := by
  induction entries generalizing s with
  | nil => simp [removedBy]
  | cons e entries ih =>
    rw [List.foldl_cons]
    dsimp only
    by_cases hkeep : keeps e.1 e.2 = true
    · rw [if_pos hkeep]
      simp only [removedBy_of_keep hkeep]
      exact ih s
    · rw [if_neg hkeep]
      simp only [removedBy_of_not_keep hkeep]
      obtain ⟨hget, hmru, hactive⟩ := ih (remove s e.1)
      refine ⟨?_, ?_, hactive⟩
      · intro id
        rw [hget id]
        dsimp only [remove]
        rw [OrderedMap.get_delete]
        by_cases hid : e.1 = id
        · simp [hid]
        · simp [hid, Ne.symm hid]
      · rw [hmru]
        dsimp only [remove]
        rw [List.filter_filter]
        apply List.filter_congr
        intro id _
        by_cases hid : e.1 = id
        · simp [hid]
        · simp [hid, Ne.symm hid]

def kept (keeps : String → TabState → Bool) (s : TabStore) (id : String) : Bool :=
  (s.tabs.get id).any (keeps id)

theorem removedBy_entries (keeps : String → TabState → Bool) {tab : TabState}
    (h : s.tabs.get id = some tab) : removedBy keeps s.tabs.entries id = !keeps id tab := by
  rw [Bool.eq_iff_iff]
  unfold removedBy
  rw [List.any_eq_true]
  constructor
  · rintro ⟨e, he, hrow⟩
    rw [Bool.and_eq_true, decide_eq_true_eq] at hrow
    obtain ⟨rfl, hrow⟩ := hrow
    have hget := OrderedMap.get_of_mem (m := s.tabs) (k := e.1) (a := e.2) he
    rw [h] at hget
    cases hget
    exact hrow
  · intro hkeep
    exact ⟨(id, tab), OrderedMap.mem_of_get h, by simpa using hkeep⟩

theorem removeUnless_get (keeps : String → TabState → Bool) (s : TabStore) (id : String) :
    (removeUnless keeps s).tabs.get id = (s.tabs.get id).filter (keeps id) := by
  unfold removeUnless
  rw [(foldl_remove keeps _ s).1 id]
  cases hid : s.tabs.get id with
  | none => simp
  | some tab =>
    rw [removedBy_entries keeps hid]
    cases hkeep : keeps id tab with
    | true => simp [Option.filter_some, hkeep]
    | false => simp [Option.filter_some, hkeep]

theorem removeUnless_mru (keeps : String → TabState → Bool)
    (hopen : ∀ id ∈ s.mruOrder, (s.tabs.get id).isSome) :
    (removeUnless keeps s).mruOrder = s.mruOrder.filter (kept keeps s) := by
  unfold removeUnless
  rw [(foldl_remove keeps _ s).2.1]
  apply List.filter_congr
  intro id hid
  obtain ⟨tab, htab⟩ := Option.isSome_iff_exists.mp (hopen id hid)
  rw [removedBy_entries keeps htab, kept, htab, Option.any_some, Bool.not_not]

theorem removeUnless_active (keeps : String → TabState → Bool) (s : TabStore) :
    (removeUnless keeps s).activeId = s.activeId :=
  (foldl_remove keeps _ s).2.2

theorem consistent_close (h : Consistent s) (hnamed : Named s) (id : String) :
    Consistent (close s id) := by
  unfold close
  cases hid : s.tabs.get id with
  | none => exact h
  | some tab =>
    dsimp only
    have hkeyed : ∀ x tab, (remove s id).tabs.get x = some tab → tab.id = x := by
      intro x tab hx
      dsimp only [remove] at hx
      rw [OrderedMap.get_delete] at hx
      split_ifs at hx
      exact h.keyed x tab hx
    have hopen : ∀ x, x ∈ (remove s id).mruOrder ↔ ((remove s id).tabs.get x).isSome := by
      intro x
      dsimp only [remove]
      rw [OrderedMap.get_delete, List.mem_filter, h.mru_open x]
      split_ifs with hx
      · simp [hx]
      · simp [hx]
    have hnodup : (remove s id).mruOrder.Nodup := h.mru_nodup.filter _
    split_ifs with hactive
    · refine consistent_of_head hkeyed hnodup hopen ?_
      apply idOrNull_of_ne
      intro name hname
      have hmem : name ∈ s.mruOrder := (List.mem_filter.mp (List.mem_of_head? hname)).1
      exact hnamed name ((h.mru_open name).mp hmem)
    · refine consistent_of_head hkeyed hnodup hopen ?_
      -- The active tab stays at the head of the recency list.
      cases hhead : s.activeId with
      | some a =>
        have hne : a ≠ id := by
          rintro rfl
          exact hactive hhead
        have hfirst : s.mruOrder.head? = some a := h.active_first a hhead
        exact hhead.trans (head?_filter_of_keep hfirst (by simpa using hne)).symm
      | none =>
        rw [h.null_only hhead id] at hid
        cases hid

/-- The state after the loop, apart from the active id. -/
theorem removeUnless_views (h : Consistent s) (keeps : String → TabState → Bool) :
    (∀ id tab, (removeUnless keeps s).tabs.get id = some tab → tab.id = id) ∧
      (removeUnless keeps s).mruOrder.Nodup ∧
      ∀ id, id ∈ (removeUnless keeps s).mruOrder ↔
        ((removeUnless keeps s).tabs.get id).isSome := by
  have hmru := removeUnless_mru keeps (fun id hid => (h.mru_open id).mp hid)
  refine ⟨?_, ?_, ?_⟩
  · intro id tab hid
    rw [removeUnless_get, Option.filter_eq_some_iff] at hid
    exact h.keyed id tab hid.1
  · rw [hmru]
    exact h.mru_nodup.filter _
  · intro id
    rw [hmru, removeUnless_get, List.mem_filter, h.mru_open, kept]
    cases s.tabs.get id with
    | none => simp
    | some tab => simp [Option.filter_some, apply_ite Option.isSome]

/-- Whether the loop has closed the active tab. -/
theorem activeGone_removeUnless (h : Consistent s) (hnamed : Named s)
    (keeps : String → TabState → Bool) :
    activeGone (removeUnless keeps s) = true ↔
      ∃ id, s.activeId = some id ∧ kept keeps s id = false := by
  unfold activeGone
  rw [removeUnless_active]
  cases hactive : s.activeId with
  | none => simp [idOrNull]
  | some a =>
    have hopen := h.active_open a hactive
    obtain ⟨tab, htab⟩ := Option.isSome_iff_exists.mp hopen
    rw [idOrNull_of_ne (fun name hname => by cases hname; exact hnamed a hopen), Option.any_some,
      removeUnless_get, htab]
    cases hkeep : keeps a tab with
    | true => simp [Option.filter_some, hkeep, kept, htab]
    | false => simp [Option.filter_some, hkeep, kept, htab]

theorem consistent_removeUnless (h : Consistent s) (keeps : String → TabState → Bool)
    (hstays : ∀ id, s.activeId = some id → kept keeps s id = true) :
    Consistent (removeUnless keeps s) := by
  obtain ⟨hkeyed, hnodup, hopen⟩ := removeUnless_views h keeps
  refine consistent_of_head hkeyed hnodup hopen ?_
  rw [removeUnless_active, removeUnless_mru keeps (fun id hid => (h.mru_open id).mp hid)]
  cases hactive : s.activeId with
  | some a => exact (head?_filter_of_keep (h.active_first a hactive) (hstays a hactive)).symm
  | none =>
    have hhead := h.active_eq_head
    rw [hactive] at hhead
    rw [List.head?_eq_none_iff.mp hhead.symm]
    rfl

theorem consistent_closeAll (h : Consistent s) (hnamed : Named s) : Consistent (closeAll s) := by
  unfold closeAll
  dsimp only
  split_ifs with hgone
  · obtain ⟨hkeyed, hnodup, hopen⟩ := removeUnless_views h (fun _ tab => tab.pinned)
    refine consistent_of_head hkeyed hnodup hopen ?_
    apply idOrNull_of_ne
    intro name hname
    have hmem := List.mem_of_head? hname
    rw [removeUnless_mru _ (fun id hid => (h.mru_open id).mp hid)] at hmem
    exact hnamed name ((h.mru_open name).mp (List.mem_filter.mp hmem).1)
  · refine consistent_removeUnless h _ ?_
    intro id hid
    by_contra hkept
    exact hgone ((activeGone_removeUnless h hnamed _).mpr
      ⟨id, hid, Bool.not_eq_true _ ▸ hkept⟩)

/-- `closeOthers` keeps the views in step exactly if it leaves the active tab open or the tab it
makes active is the most recent one left. -/
theorem consistent_closeOthers_iff (h : Consistent s) (hnamed : Named s) (keepId : String) :
    Consistent (closeOthers s keepId) ↔ Meets s (.closeOthers keepId) := by
  have hkept : ∀ id, kept (fun id tab => decide (id = keepId) || tab.pinned) s id =
      keptBy s keepId id := fun _ => rfl
  have hmru := removeUnless_mru (fun id tab => decide (id = keepId) || tab.pinned)
    (fun id hid => (h.mru_open id).mp hid)
  unfold closeOthers
  dsimp only
  split_ifs with hgone
  · obtain ⟨id, hid, hlost⟩ := (activeGone_removeUnless h hnamed _).mp hgone
    have hmeets : Meets s (.closeOthers keepId) ↔
        s.mruOrder.find? (keptBy s keepId) = some keepId := by
      constructor
      · rintro (hstays | hfirst)
        · rw [hkept, hstays id hid] at hlost
          cases hlost
        · exact hfirst
      · exact Or.inr
    rw [hmeets, ← List.head?_filter]
    constructor
    · intro hconsistent
      have hfirst := hconsistent.active_first keepId rfl
      dsimp only at hfirst
      rw [hmru] at hfirst
      exact hfirst
    · intro hfirst
      obtain ⟨hkeyed, hnodup, hopen⟩ := removeUnless_views h
        (fun id tab => decide (id = keepId) || tab.pinned)
      refine consistent_of_head hkeyed hnodup hopen ?_
      dsimp only
      rw [hmru]
      exact hfirst.symm
  · have hstays : ∀ id, s.activeId = some id → keptBy s keepId id = true := by
      intro id hid
      by_contra hlost
      exact hgone ((activeGone_removeUnless h hnamed _).mpr
        ⟨id, hid, Bool.not_eq_true _ ▸ hlost⟩)
    exact iff_of_true (consistent_removeUnless h _ hstays) (Or.inl hstays)

end Removal

section Changes

theorem update_get (s : TabStore) (id : String) (f : TabState → TabState) (x : String) :
    (update s id f).tabs.get x = (s.tabs.get x).map (fun tab => if x = id then f tab else tab) :=
  OrderedMap.get_mapValues _ _ _

theorem consistent_update (h : Consistent s) (id : String) {f : TabState → TabState}
    (hf : ∀ tab, (f tab).id = tab.id) : Consistent (update s id f) := by
  refine consistent_of_head ?_ h.mru_nodup ?_ h.active_eq_head
  · intro x tab hx
    rw [update_get] at hx
    obtain ⟨tab', htab', rfl⟩ := Option.map_eq_some_iff.mp hx
    rw [apply_ite TabState.id, hf, ite_self]
    exact h.keyed x tab' htab'
  · intro x
    rw [update_get, Option.isSome_map]
    exact h.mru_open x

theorem rename_get {oldId newPath : String} {newLabel : Option String} {tab : TabState}
    (hold : s.tabs.get oldId = some tab) (x : String) :
    (rename s oldId newPath newLabel).tabs.get x =
      if x = newPath then
        some { tab with id := newPath, path := newPath, label := tabLabel newPath newLabel }
      else if x = oldId then none else s.tabs.get x := by
  unfold rename
  rw [hold]
  dsimp only
  rw [OrderedMap.get_set, OrderedMap.get_delete]

/-- A rename keeps the views in step exactly if the new path is not the one of another tab: the
recency list would name that path twice. -/
theorem consistent_rename_iff (h : Consistent s) (oldId newPath : String)
    (newLabel : Option String) :
    Consistent (rename s oldId newPath newLabel) ↔ Meets s (.rename oldId newPath newLabel) := by
  cases hold : s.tabs.get oldId with
  | none =>
    unfold rename
    rw [hold]
    exact iff_of_true h (Or.inl hold)
  | some tab =>
    have hmru : (rename s oldId newPath newLabel).mruOrder =
        s.mruOrder.map (fun x => if x = oldId then newPath else x) := by
      unfold rename
      rw [hold]
    have hactive : (rename s oldId newPath newLabel).activeId =
        if s.activeId = some oldId then some newPath else s.activeId := by
      unfold rename
      rw [hold]
    constructor
    · intro hafter
      refine Or.inr ?_
      by_contra! htaken
      obtain ⟨hne, hopen⟩ := htaken
      have holdMem : oldId ∈ s.mruOrder := (h.mru_open oldId).mpr (by rw [hold]; rfl)
      have hnewMem : newPath ∈ s.mruOrder :=
        (h.mru_open newPath).mpr (Option.isSome_iff_ne_none.mpr hopen)
      have hnodup := hafter.mru_nodup
      rw [hmru] at hnodup
      have hsame := List.inj_on_of_nodup_map hnodup holdMem hnewMem (by simp)
      exact hne hsame.symm
    · intro hmeets
      refine consistent_of_head ?_ ?_ ?_ ?_
      · intro x tab' hx
        rw [rename_get hold] at hx
        split_ifs at hx with hnew
        · cases hx
          exact hnew.symm
        · exact h.keyed x tab' hx
      · rw [hmru]
        refine h.mru_nodup.map_on ?_
        have hfree : newPath = oldId ∨ newPath ∉ s.mruOrder := by
          rcases hmeets with hclosed | hsame | hfree
          · rw [hold] at hclosed
            cases hclosed
          · exact Or.inl hsame
          · refine Or.inr ?_
            rw [h.mru_open, hfree]
            exact Bool.false_ne_true
        intro x hx y hy hxy
        rcases hfree with rfl | hfree
        · split_ifs at hxy with hxo hyo hyo
          · exact hxo.trans hyo.symm
          · exact hxo.trans hxy
          · exact hxy.trans hyo.symm
          · exact hxy
        · split_ifs at hxy with hxo hyo hyo
          · exact hxo.trans hyo.symm
          · exact absurd (hxy ▸ hy) hfree
          · exact absurd (hxy ▸ hx) hfree
          · exact hxy
      · intro x
        rw [hmru, rename_get hold, List.mem_map]
        split_ifs with hnew hxold
        · refine iff_of_true ⟨oldId, (h.mru_open oldId).mpr (by rw [hold]; rfl), ?_⟩ rfl
          rw [if_pos rfl, hnew]
        · refine iff_of_false ?_ Bool.false_ne_true
          rintro ⟨y, -, hy⟩
          split_ifs at hy with hyold
          · exact hnew hy.symm
          · exact hyold (hy.trans hxold)
        · rw [← h.mru_open x]
          constructor
          · rintro ⟨y, hy, hyx⟩
            split_ifs at hyx with hyold
            · exact absurd hyx.symm hnew
            · exact hyx ▸ hy
          · intro hx
            exact ⟨x, hx, if_neg hxold⟩
      · rw [hactive, hmru, List.head?_map, ← h.active_eq_head]
        cases s.activeId with
        | none => rfl
        | some a => simp [apply_ite some]

end Changes

section Staying

def Stays (s : TabStore) (call : Call) (tab : TabState) : Prop :=
  ∃ id' tab', (step s call).tabs.get id' = some tab' ∧ tab'.object = tab.object

theorem stays_of_tabs {call : Call} {tab : TabState} (h : (step s call).tabs = s.tabs)
    (hid : s.tabs.get id = some tab) : Stays s call tab :=
  ⟨id, tab, by rw [h]; exact hid, rfl⟩

theorem stays_update {call : Call} {tab : TabState} {x : String} {f : TabState → TabState}
    (h : step s call = update s x f) (hf : ∀ tab, (f tab).object = tab.object)
    (hid : s.tabs.get id = some tab) : Stays s call tab := by
  refine ⟨id, _, by rw [h, update_get, hid]; rfl, ?_⟩
  dsimp only
  rw [apply_ite TabState.object, hf, ite_self]

theorem stays_removeUnless (keeps : String → TabState → Bool) {call : Call} {tab : TabState}
    (h : (step s call).tabs = (removeUnless keeps s).tabs) (hid : s.tabs.get id = some tab)
    (hkeep : keeps id tab = true) : Stays s call tab := by
  refine ⟨id, tab, ?_, rfl⟩
  rw [h, removeUnless_get, hid, Option.filter_some, if_pos hkeep]

theorem onlyCloses_of_meets {call : Call} (hmeets : Meets s call) : OnlyCloses s call := by
  intro id tab hid hgone
  -- A tab that is still there under some id is not gone.
  suffices hcase : Stays s call tab ∨ call = .close id ∨
      tab.pinned = false ∧ ((∃ keepId, call = .closeOthers keepId) ∨ call = .closeAll) by
    rcases hcase with ⟨id', tab', hid', hobject⟩ | hclosed
    · exact absurd hobject (hgone id' tab' hid')
    · exact hclosed
  cases call with
  | «open» path label =>
    left
    cases hpath : s.tabs.get path with
    | some other =>
      refine stays_of_tabs ?_ hid
      dsimp only [step, Tabs.«open»]
      rw [hpath]
      exact activate_tabs s path
    | none =>
      obtain ⟨added, hadded⟩ := open_tabs hpath label
      refine ⟨id, tab, ?_, rfl⟩
      dsimp only [step]
      rw [hadded, OrderedMap.get_set_of_ne]
      · exact hid
      · rintro rfl
        rw [hpath] at hid
        cases hid
  | activate other => exact Or.inl (stays_of_tabs (activate_tabs s other) hid)
  | close other =>
    by_cases heq : other = id
    · exact Or.inr (Or.inl (by rw [heq]))
    · left
      refine ⟨id, tab, ?_, rfl⟩
      dsimp only [step, close]
      cases s.tabs.get other with
      | none => exact hid
      | some closed =>
        have hget : (remove s other).tabs.get id = some tab := by
          dsimp only [remove]
          rw [OrderedMap.get_delete, if_neg (Ne.symm heq)]
          exact hid
        dsimp only
        split_ifs
        · exact hget
        · exact hget
  | closeOthers keepId =>
    cases hpinned : tab.pinned with
    | true =>
      left
      refine stays_removeUnless (fun x tab => x = keepId || tab.pinned) ?_ hid ?_
      · dsimp only [step, closeOthers]
        split_ifs
        · rfl
        · rfl
      · rw [hpinned, Bool.or_true]
    | false => exact Or.inr (Or.inr ⟨rfl, Or.inl ⟨keepId, rfl⟩⟩)
  | closeAll =>
    cases hpinned : tab.pinned with
    | true =>
      left
      refine stays_removeUnless (fun _ tab => tab.pinned) ?_ hid hpinned
      dsimp only [step, closeAll]
      split_ifs
      · rfl
      · rfl
    | false => exact Or.inr (Or.inr ⟨rfl, Or.inr rfl⟩)
  | setDirty other dirty => exact Or.inl (stays_update rfl (fun _ => rfl) hid)
  | togglePin other => exact Or.inl (stays_update rfl (fun _ => rfl) hid)
  | saveViewState other viewState => exact Or.inl (stays_update rfl (fun _ => rfl) hid)
  | rename oldId newPath newLabel =>
    left
    cases hold : s.tabs.get oldId with
    | none =>
      refine stays_of_tabs ?_ hid
      dsimp only [step, rename]
      rw [hold]
    | some renamed =>
      by_cases hmoved : id = oldId
      · subst hmoved
        rw [hold] at hid
        cases hid
        refine ⟨newPath, { tab with
          id := newPath
          path := newPath
          label := tabLabel newPath newLabel }, ?_, rfl⟩
        dsimp only [step]
        rw [rename_get hold, if_pos rfl]
      · have hother : id ≠ newPath := by
          rintro rfl
          rcases hmeets with hclosed | hsame | hfree
          · rw [hold] at hclosed
            cases hclosed
          · exact hmoved hsame
          · rw [hid] at hfree
            cases hfree
        refine ⟨id, tab, ?_, rfl⟩
        dsimp only [step]
        rw [rename_get hold, if_neg hother, if_neg hmoved]
        exact hid
  | nextTab => exact Or.inl (stays_of_tabs (nextTab_tabs s) hid)
  | prevTab => exact Or.inl (stays_of_tabs (prevTab_tabs s) hid)
  | mruSwitch => exact Or.inl (stays_of_tabs (mruSwitch_tabs s) hid)

end Staying

section Runs

theorem close_tabs (s : TabStore) (id : String) :
    (close s id).tabs = s.tabs ∨ (close s id).tabs = s.tabs.delete id := by
  unfold close
  cases s.tabs.get id with
  | none => exact Or.inl rfl
  | some tab =>
    right
    dsimp only
    split_ifs
    · rfl
    · rfl

/-- A call opens no id but the ones it names. -/
theorem get_step_of_none {call : Call} (hclosed : s.tabs.get id = none) (hid : id ∉ call.ids) :
    (step s call).tabs.get id = none := by
  cases call with
  | «open» path label =>
    have hne : id ≠ path := List.ne_of_not_mem_cons hid
    dsimp only [step]
    cases hpath : s.tabs.get path with
    | some other =>
      unfold «open»
      rw [hpath]
      dsimp only
      rw [activate_tabs, hclosed]
    | none =>
      obtain ⟨added, hadded⟩ := open_tabs hpath label
      rw [hadded, OrderedMap.get_set_of_ne _ _ hne, hclosed]
  | activate other =>
    dsimp only [step]
    rw [activate_tabs, hclosed]
  | close other =>
    rcases close_tabs s other with hsame | hdeleted
    · dsimp only [step]
      rw [hsame, hclosed]
    · dsimp only [step]
      rw [hdeleted, OrderedMap.get_delete, hclosed, ite_self]
  | closeOthers keepId =>
    have hloop := removeUnless_get (fun x tab => x = keepId || tab.pinned) s id
    rw [hclosed] at hloop
    dsimp only [step, closeOthers]
    split_ifs
    · exact hloop
    · exact hloop
  | closeAll =>
    have hloop := removeUnless_get (fun _ tab => tab.pinned) s id
    rw [hclosed] at hloop
    dsimp only [step, closeAll]
    split_ifs
    · exact hloop
    · exact hloop
  | rename oldId newPath newLabel =>
    rw [Call.ids, List.mem_pair, not_or] at hid
    dsimp only [step]
    cases hold : s.tabs.get oldId with
    | none =>
      unfold rename
      rw [hold]
      exact hclosed
    | some tab => rw [rename_get hold, if_neg hid.2, if_neg hid.1, hclosed]
  | setDirty other dirty =>
    dsimp only [step, setDirty]
    rw [update_get, hclosed, Option.map_none]
  | togglePin other =>
    dsimp only [step, togglePin]
    rw [update_get, hclosed, Option.map_none]
  | saveViewState other viewState =>
    dsimp only [step, saveViewState]
    rw [update_get, hclosed, Option.map_none]
  | nextTab =>
    dsimp only [step]
    rw [nextTab_tabs, hclosed]
  | prevTab =>
    dsimp only [step]
    rw [prevTab_tabs, hclosed]
  | mruSwitch =>
    dsimp only [step]
    rw [mruSwitch_tabs, hclosed]

theorem named_step {call : Call} (hnamed : Named s) (hids : ∀ id ∈ call.ids, id ≠ "") :
    Named (step s call) := by
  intro id hid
  by_cases hbefore : (s.tabs.get id).isSome
  · exact hnamed id hbefore
  · apply hids
    by_contra hother
    rw [get_step_of_none (Option.not_isSome_iff_eq_none.mp hbefore) hother] at hid
    cases hid

theorem consistent_step_iff (h : Consistent s) (hnamed : Named s) (call : Call) :
    Consistent (step s call) ↔ Meets s call := by
  cases call with
  | «open» path label => exact iff_of_true (consistent_open h path label) trivial
  | activate other => exact iff_of_true (h.activate other) trivial
  | close other => exact iff_of_true (consistent_close h hnamed other) trivial
  | closeOthers keepId => exact consistent_closeOthers_iff h hnamed keepId
  | closeAll => exact iff_of_true (consistent_closeAll h hnamed) trivial
  | setDirty other dirty => exact iff_of_true (consistent_update h other (fun _ => rfl)) trivial
  | togglePin other => exact iff_of_true (consistent_update h other (fun _ => rfl)) trivial
  | saveViewState other viewState =>
    exact iff_of_true (consistent_update h other (fun _ => rfl)) trivial
  | rename oldId newPath newLabel => exact consistent_rename_iff h oldId newPath newLabel
  | nextTab => exact iff_of_true (consistent_nextTab h) trivial
  | prevTab => exact iff_of_true (consistent_prevTab h) trivial
  | mruSwitch => exact iff_of_true (consistent_mruSwitch h) trivial

/-- In every run the views of the open tabs agree in every state reached, and no tab disappears
but by being closed, exactly if no rename takes the path of another open tab and every
`closeOthers` leaves the most recent tab active. -/
theorem tab_store_consistent_iff (calls : List Call)
    (hids : ∀ call ∈ calls, ∀ id ∈ call.ids, id ≠ "") :
    Relational.Along step (fun s call => Consistent (step s call) ∧ OnlyCloses s call) empty calls ↔
      Relational.Along step Meets empty calls := by
  suffices hall : ∀ s, Consistent s → Named s →
      (Relational.Along step (fun s call => Consistent (step s call) ∧ OnlyCloses s call) s calls ↔
        Relational.Along step Meets s calls) by
    exact hall empty consistent_empty (fun _ h => absurd h (by simp [empty]))
  induction calls with
  | nil => exact fun _ _ _ => Iff.rfl
  | cons call calls ih =>
    rw [List.forall_mem_cons] at hids
    intro s hs hnamed
    have hstep := consistent_step_iff hs hnamed call
    constructor
    · rintro ⟨⟨hafter, -⟩, hrest⟩
      exact ⟨hstep.mp hafter, (ih hids.2 _ hafter (named_step hnamed hids.1)).mp hrest⟩
    · rintro ⟨hmeets, hrest⟩
      have hafter := hstep.mpr hmeets
      exact ⟨⟨hafter, onlyCloses_of_meets hmeets⟩,
        (ih hids.2 _ hafter (named_step hnamed hids.1)).mpr hrest⟩

theorem tab_store_consistent_witness :
    Relational.Along step (fun s call => Consistent (step s call) ∧ OnlyCloses s call) empty
        [.open "a" none, .open "b" none, .rename "a" "c" none, .closeOthers "b"] ↔
      Relational.Along step Meets empty
        [.open "a" none, .open "b" none, .rename "a" "c" none, .closeOthers "b"] :=
  tab_store_consistent_iff _ (by decide)

/-- Renaming a tab onto the path of an open one names that path twice in the recency list, and the
unsaved tab that had the path is gone. -/
theorem rename_onto_open_tab :
    let calls : List Call := [.open "a" none, .setDirty "a" true, .open "b" none]
    let s := Relational.run step empty calls
    ¬ Consistent (step s (.rename "b" "a" none)) ∧ ¬ OnlyCloses s (.rename "b" "a" none) := by
  intro calls s
  constructor
  · intro h
    exact absurd h.mru_nodup (by decide)
  · intro h
    have hget : s.tabs.get "a" = some ⟨0, "a", "a", "a", true, false, none⟩ := by decide
    have hgone : Gone (step s (.rename "b" "a" none)) ⟨0, "a", "a", "a", true, false, none⟩ := by
      intro id tab htab
      have hmem := OrderedMap.mem_of_get htab
      have hentries : (step s (.rename "b" "a" none)).tabs.entries =
          [("a", ⟨1, "a", "a", "a", false, false, none⟩)] := by decide
      rw [hentries, List.mem_singleton] at hmem
      cases hmem
      exact Nat.one_ne_zero
    rcases h "a" _ hget hgone with hclose | ⟨-, ⟨keepId, hothers⟩ | hall⟩
    · cases hclose
    · cases hothers
    · cases hall

end Runs

end Piclaw.Tabs
