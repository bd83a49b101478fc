import Piclaw.ToolCallBounds

/-!
# Reasoning items and the calls they are paired with

A call that names no reasoning item takes the latest one before it that no other call has taken: a
stack of the unpaired reasoning items. The first call behind a reasoning item takes that one; any
further call of its turn takes what is left below, which belongs to an earlier turn.
-/

namespace Piclaw.ToolCallLimit

open CanonicalText

section Pairings

variable {messages : History} {c : Collection} {raw : JsonValue} {stack : List ℕ}
  {i q r : ℕ}

/-- Which reasoning item each call takes, with the unpaired ones in a stack. -/
def pairings (stack : List ℕ) (index : ℕ) : History → List (ℕ × ℕ)
  | [] => []
  | raw :: messages =>
    if isReasoning raw then pairings (index :: stack) (index + 1) messages
    else if isCall raw ∧ callId raw ≠ [] then
      match stack with
      | [] => pairings [] (index + 1) messages
      | r :: stack => (index, r) :: pairings stack (index + 1) messages
    else pairings stack (index + 1) messages

/-- The reasoning id that a call asks for, empty when it asks for none. -/
def askedReasoning (raw : JsonValue) : Units :=
  reasoningCandidate ((asToolCallMessage raw).getD [])

/-- No call asks for a reasoning item of the history by its id. -/
def UnrelatedIds (messages : History) : Prop :=
  ∀ call ∈ messages, ∀ reasoning ∈ messages, isCall call → isReasoning reasoning →
    askedReasoning call ≠ [] → stringOf reasoning "id" ≠ some (askedReasoning call)

/-- The unpaired reasoning items, the latest first. -/
def unpaired (c : Collection) : List ℕ :=
  ((c.reasoningItems.filter fun entry => !entry.paired).map ReasoningEntry.index).reverse

/-- A call and the reasoning item of its entry. -/
def entryPairing (entry : ToolCallEntry) : Option (ℕ × ℕ) :=
  entry.callIndex.bind fun q => entry.reasoningIndex.map fun r => (q, r)

theorem findReasoningForCall_unpaired {item : Fields} {items : List ReasoningEntry}
    (h : reasoningCandidate item ≠ [] → ∀ entry ∈ items, entry.id ≠ some (reasoningCandidate item)) :
    findReasoningForCall item items =
      ((items.filter fun entry => !entry.paired).map ReasoningEntry.index).reverse.head? := by
  have hnamed : (if reasoningCandidate item = [] then none
      else items.find? fun entry => entry.id = some (reasoningCandidate item)) = none := by
    split_ifs with hempty
    · rfl
    · rw [List.find?_eq_none]
      intro entry hentry
      simpa using h hempty entry hentry
  unfold findReasoningForCall
  dsimp only
  rw [hnamed]
  dsimp only
  rw [← List.map_reverse, ← List.filter_reverse, List.head?_map, ← List.head?_filter]

/-- Pairing the latest unpaired item takes it off the stack. -/
theorem unpaired_pairAt {items : List ReasoningEntry}
    (hnodup : (items.map ReasoningEntry.index).Nodup) :
    (((pairAt (((items.filter fun entry => !entry.paired).map
      ReasoningEntry.index).reverse.head?) items).filter fun entry => !entry.paired).map
        ReasoningEntry.index).reverse =
      ((items.filter fun entry => !entry.paired).map ReasoningEntry.index).reverse.tail := by
  cases hhead : ((items.filter fun entry => !entry.paired).map
      ReasoningEntry.index).reverse.head? with
  | none =>
    rw [List.head?_eq_none_iff] at hhead
    simp only [pairAt, hhead, List.tail_nil]
  | some r =>
    have hremoved : ((pairAt (some r) items).filter fun entry => !entry.paired).map
        ReasoningEntry.index =
        ((items.filter fun entry => !entry.paired).map ReasoningEntry.index).filter (· ≠ r) := by
      simp only [pairAt]
      clear hhead hnodup
      induction items with
      | nil => rfl
      | cons entry items ih =>
        by_cases hindex : entry.index = r
        · cases hpaired : entry.paired <;> simp [pair, hindex, hpaired, ih]
        · cases hpaired : entry.paired <;> simp [pair, hindex, hpaired, ih]
    rw [hremoved, ← List.filter_reverse]
    have hsub : (((items.filter fun entry => !entry.paired).map
        ReasoningEntry.index).reverse).Nodup :=
      List.nodup_reverse.mpr (hnodup.sublist (List.filter_sublist.map _))
    generalize ((items.filter fun entry => !entry.paired).map ReasoningEntry.index).reverse = stack
      at hhead hsub
    cases stack with
    | nil => cases hhead
    | cons first stack =>
      cases hhead
      rw [List.filter_cons_of_neg (by simp), List.tail_cons, List.filter_eq_self]
      intro other hother
      have hne : other ≠ r := by
        rintro rfl
        exact (List.nodup_cons.mp hsub).1 hother
      simpa using hne

/-- The pairs of the entries are those of the stack. -/
theorem collectFrom_pairings (c : Collection) (i : ℕ) (messages : History)
    (hnodup : (c.reasoningItems.map ReasoningEntry.index).Nodup)
    (hlt : ∀ entry ∈ c.reasoningItems, entry.index < i)
    (hcollected : ∀ call ∈ messages, isCall call → askedReasoning call ≠ [] →
      ∀ entry ∈ c.reasoningItems, entry.id ≠ some (askedReasoning call))
    (hunrelated : UnrelatedIds messages) :
    (collectFrom c i messages).entries.filterMap entryPairing =
      c.entries.filterMap entryPairing ++ pairings (unpaired c) i messages := by
  induction messages generalizing c i with
  | nil => simp [collectFrom, pairings]
  | cons raw messages ih =>
    have hrest : UnrelatedIds messages := fun call hcall reasoning hreasoning =>
      hunrelated call (List.mem_cons_of_mem _ hcall) reasoning (List.mem_cons_of_mem _ hreasoning)
    have hstep := collectItem_step c raw i
    rw [collectFrom]
    unfold pairings
    generalize collectItem c raw i = c' at hstep
    cases hstep with
    | other hcall hreasoning houtput =>
      rw [if_neg hreasoning, if_neg hcall]
      exact ih c (i + 1) hnodup (fun entry hentry => Nat.lt_succ_of_lt (hlt entry hentry))
        (fun call hmem => hcollected call (List.mem_cons_of_mem _ hmem)) hrest
    | reasoning hkind =>
      rw [if_pos hkind, ih _ (i + 1) ?_ ?_ ?_ hrest]
      · simp [unpaired, List.filter_append]
      · rw [List.map_append, List.nodup_append]
        refine ⟨hnodup, List.nodup_singleton _, ?_⟩
        intro a ha b hb
        obtain ⟨entry, hentry, rfl⟩ := List.mem_map.mp ha
        have hb : b = i := by simpa using hb
        have := hlt entry hentry
        omega
      · intro entry hentry
        rcases List.mem_append.mp hentry with hentry | hentry
        · exact Nat.lt_succ_of_lt (hlt entry hentry)
        · rw [List.mem_singleton.mp hentry]
          exact Nat.lt_succ_self i
      · intro call hmem hcall hasked entry hentry
        rcases List.mem_append.mp hentry with hentry | hentry
        · exact hcollected call (List.mem_cons_of_mem _ hmem) hcall hasked entry hentry
        · rw [List.mem_singleton.mp hentry]
          exact hunrelated call (List.mem_cons_of_mem _ hmem) raw List.mem_cons_self hcall hkind
            hasked
    | call hkind hid =>
      have hfind : findReasoningForCall ((asToolCallMessage raw).getD []) c.reasoningItems =
          (unpaired c).head? :=
        findReasoningForCall_unpaired fun hasked => hcollected raw List.mem_cons_self hkind hasked
      have hindexes : ∀ r, (pairAt r c.reasoningItems).map ReasoningEntry.index =
          c.reasoningItems.map ReasoningEntry.index := by
        intro r
        unfold pairAt
        split
        · rw [List.map_map]
          apply List.map_congr_left
          intro entry _
          unfold Function.comp pair
          split_ifs <;> rfl
        · rfl
      have hpaired : ∀ entry ∈ pairedItems c raw, ∃ old ∈ c.reasoningItems,
          entry.index = old.index ∧ entry.id = old.id := by
        intro entry hentry
        unfold pairedItems pairAt at hentry
        split at hentry
        · obtain ⟨old, hold, rfl⟩ := List.mem_map.mp hentry
          refine ⟨old, hold, ?_⟩
          unfold pair
          split_ifs <;> exact ⟨rfl, rfl⟩
        · exact ⟨entry, hentry, rfl, rfl⟩
      rw [if_neg hkind.not_reasoning, if_pos ⟨hkind, hid⟩, ih _ (i + 1) ?_ ?_ ?_ hrest]
      · have htail : unpaired ((Collection.add { c with reasoningItems := pairedItems c raw }
            (newCall c raw i))) = (unpaired c).tail := by
          unfold unpaired pairedItems Collection.add
          dsimp only
          rw [hfind]
          exact unpaired_pairAt hnodup
        rw [htail]
        change (c.entries ++ [newCall c raw i]).filterMap entryPairing ++ _ = _
        rw [List.filterMap_append]
        have hnew : entryPairing (newCall c raw i) = (unpaired c).head?.map fun r => (i, r) := by
          unfold entryPairing newCall
          rw [hfind]
          rfl
        cases hstack : unpaired c with
        | nil => simp [hnew, hstack]
        | cons r stack => simp [hnew, hstack]
      · change ((pairedItems c raw).map ReasoningEntry.index).Nodup
        unfold pairedItems
        rw [hindexes]
        exact hnodup
      · intro entry hentry
        obtain ⟨old, hold, hindex, _⟩ := hpaired entry hentry
        rw [hindex]
        exact Nat.lt_succ_of_lt (hlt old hold)
      · intro call hmem hcall hasked entry hentry
        obtain ⟨old, hold, _, hsame⟩ := hpaired entry hentry
        rw [hsame]
        exact hcollected call (List.mem_cons_of_mem _ hmem) hcall hasked old hold
    | @output hkind hid position hfind =>
      rw [if_neg hkind.not_reasoning, if_neg fun h => h.1.not_output hkind]
      have hpairs := ih { c with entries := c.entries.modify position (withOutput raw i) } (i + 1)
        hnodup (fun entry hentry => Nat.lt_succ_of_lt (hlt entry hentry))
        (fun call hmem => hcollected call (List.mem_cons_of_mem _ hmem)) hrest
      refine hpairs.trans ?_
      have hsame : (c.entries.modify position (withOutput raw i)).filterMap entryPairing =
          c.entries.filterMap entryPairing := by
        apply filterMap_modify
        intro entry
        rfl
      dsimp only
      rw [hsame]
      rfl
    | orphan hkind hid hfind =>
      rw [if_neg hkind.not_reasoning, if_neg fun h => h.1.not_output hkind]
      have hpairs := ih (c.add (orphanOutput raw i)) (i + 1) hnodup
        (fun entry hentry => Nat.lt_succ_of_lt (hlt entry hentry))
        (fun call hmem => hcollected call (List.mem_cons_of_mem _ hmem)) hrest
      refine hpairs.trans ?_
      change (c.entries ++ [_]).filterMap entryPairing ++ _ = _
      rw [List.filterMap_append]
      simp [entryPairing, orphanOutput, unpaired, Collection.add]

theorem mem_pairings_stack (stack : List ℕ) (i : ℕ) (messages : History)
    (h : (q, r) ∈ pairings stack i messages) : r ∈ stack ∨ i ≤ r := by
  induction messages generalizing stack i with
  | nil => cases h
  | cons raw messages ih =>
    unfold pairings at h
    split_ifs at h
    · rcases ih _ _ h with h | h
      · rcases List.mem_cons.mp h with rfl | h
        · exact .inr le_rfl
        · exact .inl h
      · exact .inr (by omega)
    · cases stack with
      | nil =>
        rcases ih _ _ h with h | h
        · cases h
        · exact .inr (by omega)
      | cons top stack =>
        rcases List.mem_cons.mp h with h | h
        · cases h
          exact .inl List.mem_cons_self
        · rcases ih _ _ h with h | h
          · exact .inl (List.mem_cons_of_mem _ h)
          · exact .inr (by omega)
    · rcases ih _ _ h with h | h
      · exact .inl h
      · exact .inr (by omega)

/-- A reasoning item is taken by one call at most. -/
theorem pairings_nodup (stack : List ℕ) (i : ℕ) (messages : History) (hnodup : stack.Nodup)
    (hlt : ∀ r ∈ stack, r < i) : ((pairings stack i messages).map Prod.snd).Nodup := by
  induction messages generalizing stack i with
  | nil => exact List.nodup_nil
  | cons raw messages ih =>
    have hlater : ∀ {stack : List ℕ}, (∀ r ∈ stack, r < i) → ∀ r ∈ stack, r < i + 1 :=
      fun h r hr => Nat.lt_succ_of_lt (h r hr)
    unfold pairings
    split_ifs
    · apply ih
      · exact List.nodup_cons.mpr ⟨fun h => lt_irrefl i (hlt i h), hnodup⟩
      · intro r hr
        rcases List.mem_cons.mp hr with rfl | hr
        · exact Nat.lt_succ_self _
        · exact hlater hlt r hr
    · cases stack with
      | nil => exact ih [] (i + 1) hnodup (hlater hlt)
      | cons top stack =>
        rw [List.map_cons, List.nodup_cons]
        refine ⟨?_, ih stack (i + 1) (List.nodup_cons.mp hnodup).2
          (hlater fun r hr => hlt r (List.mem_cons_of_mem _ hr))⟩
        intro hmem
        obtain ⟨⟨q, r⟩, hpair, heq⟩ := List.mem_map.mp hmem
        have htop : r = top := heq
        subst htop
        have hsmall := hlt r List.mem_cons_self
        rcases mem_pairings_stack stack (i + 1) messages hpair with h | h
        · exact (List.nodup_cons.mp hnodup).1 h
        · omega
    · exact ih stack (i + 1) hnodup (hlater hlt)

/-- The call right behind a reasoning item takes it. -/
theorem pairings_next (stack : List ℕ) (i : ℕ) {front back : History}
    {reasoning call : JsonValue} (hreasoning : isReasoning reasoning) (hcall : isCall call)
    (hid : callId call ≠ []) : (i + front.length + 1, i + front.length) ∈
      pairings stack i (front ++ reasoning :: call :: back) := by
  induction front generalizing stack i with
  | nil =>
    simp only [List.nil_append, pairings, if_pos hreasoning, if_neg hcall.not_reasoning,
      if_pos (And.intro hcall hid)]
    exact List.mem_cons_self
  | cons raw front ih =>
    have hplace : i + (raw :: front).length = i + 1 + front.length := by
      rw [List.length_cons]
      omega
    rw [hplace, List.cons_append]
    unfold pairings
    split_ifs
    · exact ih _ _
    · cases stack with
      | nil => exact ih _ _
      | cons top stack => exact List.mem_cons_of_mem _ (ih _ _)
    · exact ih _ _

/-- The pairs of a history. -/
def historyPairings (messages : History) : List (ℕ × ℕ) := pairings [] 0 messages

theorem entries_pairings (hunrelated : UnrelatedIds messages) :
    (collectEntries messages).filterMap entryPairing = historyPairings messages := by
  have h := collectFrom_pairings emptyCollection 0 messages List.nodup_nil
    (fun entry hentry => nomatch hentry) (fun _ _ _ _ entry hentry => nomatch hentry) hunrelated
  exact h

theorem historyPairings_unique {q' : ℕ} (h : (q, r) ∈ historyPairings messages)
    (h' : (q', r) ∈ historyPairings messages) : q = q' := by
  have hnodup := pairings_nodup [] 0 messages List.nodup_nil (fun r hr => nomatch hr)
  exact congrArg Prod.fst (List.inj_on_of_nodup_map hnodup h h' rfl)

end Pairings

section Reasoning

variable {messages : History} {config : ToolCallLimitConfig} {bases : ℕ → Units} {i o q n : ℕ}
  {raw : JsonValue} {removed : List ℕ}

/-- The call at an index is a duplicate, over the limit or over the budget. -/
def Trims (messages : History) (config : ToolCallLimitConfig) (bases : ℕ → Units) (q : ℕ) : Prop :=
  ∃ k, IsBudgetCount messages config bases k ∧
    (q ∉ ordered messages config ∨ q ∈ cutCalls messages config k)

theorem trims_iff {k : ℕ} (hcount : IsBudgetCount messages config bases k) :
    Trims messages config bases q ↔ q ∉ ordered messages config ∨ q ∈ cutCalls messages config k := by
  constructor
  · rintro ⟨k', hcount', h⟩
    rw [hcount.unique hcount']
    exact h
  · exact fun h => ⟨k, hcount, h⟩

theorem retained_call_iff (hraw : messages[i]? = some raw) (hcall : isCall raw)
    (hid : callId raw ≠ []) :
    Retained messages config bases i ↔ ¬ Trims messages config bases i := by
  obtain ⟨k, round, htrimmed, hcount, _⟩ := trimmedEntries_eq messages config bases
  rw [retained_call hraw hcall hid htrimmed, trims_iff hcount, not_or, not_not]

theorem mem_pairings_entry (hunrelated : UnrelatedIds messages) {k : ℕ} :
    (q, o) ∈ historyPairings messages ↔ ∃ entry ∈ cutEntries messages config k,
      entry.callIndex = some q ∧ entry.reasoningIndex = some o := by
  rw [← entries_pairings hunrelated,
    ← filterMap_clear (clear_cutEntries messages config k) entryPairing (fun _ => rfl),
    List.mem_filterMap]
  constructor
  · rintro ⟨entry, hentry, h⟩
    refine ⟨entry, hentry, ?_⟩
    obtain ⟨q', hq', h⟩ := Option.bind_eq_some_iff.mp h
    obtain ⟨o', ho', heq⟩ := Option.map_eq_some_iff.mp h
    cases heq
    exact ⟨hq', ho'⟩
  · rintro ⟨entry, hentry, hq, ho⟩
    refine ⟨entry, hentry, ?_⟩
    rw [entryPairing, hq, ho]
    rfl

/-- A reasoning item goes with the call that has taken it. -/
theorem retained_reasoning_iff (hunrelated : UnrelatedIds messages) (hraw : messages[o]? = some raw)
    (hkind : isReasoning raw) : Retained messages config bases o ↔
      ∀ q, (q, o) ∈ historyPairings messages → ¬ Trims messages config bases q := by
  obtain ⟨k, round, htrimmed, hcount, _⟩ := trimmedEntries_eq messages config bases
  have hlt : o < messages.length := (List.getElem?_eq_some_iff.mp hraw).1
  rw [retained_iff, htrimmed, mem_removeIndexes]
  have hentry : ∀ entry ∈ cutEntries messages config k, ∀ q, entry.callIndex = some q →
      (entry.removalReason.isSome = true ↔ Trims messages config bases q) := by
    intro entry hentry q hq
    rw [cut_removed_iff hentry hq, trims_iff hcount]
  constructor
  · rintro ⟨_, hnot⟩ q hpair htrims
    obtain ⟨entry, hmem, hq, ho⟩ := (mem_pairings_entry hunrelated).mp hpair
    refine hnot ⟨entry, hmem, (hentry entry hmem q hq).mpr htrims, .inr (.inr ⟨ho, ?_⟩)⟩
    intro kept hkept hnone hsame
    -- a kept entry with the same reasoning item would be the same entry
    cases hindex : kept.callIndex with
    | none =>
      have horphan := ((sourced_of_mem hkept).orphan hindex).2
      rw [show (clear kept).reasoningIndex = kept.reasoningIndex from rfl, hsame] at horphan
      cases horphan
    | some q' =>
      have hpair' : (q', o) ∈ historyPairings messages :=
        (mem_pairings_entry hunrelated).mpr ⟨kept, hkept, hindex, hsame⟩
      rw [historyPairings_unique hpair hpair'] at htrims
      have hsome := (hentry kept hkept q' hindex).mpr htrims
      rw [hnone] at hsome
      cases hsome
  · intro hall
    refine ⟨hlt, ?_⟩
    rintro ⟨entry, hmem, hsome, h | h | ⟨h, _⟩⟩
    · obtain ⟨item, hitem, hcall, _⟩ := (sourced_of_mem hmem).call o h
      rw [hraw] at hitem
      cases hitem
      exact hcall.not_reasoning hkind
    · obtain ⟨item, hitem, houtput, _⟩ := (sourced_of_mem hmem).output o h
      rw [hraw] at hitem
      cases hitem
      exact houtput.not_reasoning hkind
    · cases hindex : entry.callIndex with
      | none =>
        have horphan := ((sourced_of_mem hmem).orphan hindex).2
        rw [show (clear entry).reasoningIndex = entry.reasoningIndex from rfl, h] at horphan
        cases horphan
      | some q =>
        exact hall q ((mem_pairings_entry hunrelated).mpr ⟨entry, hmem, hindex, h⟩)
          ((hentry entry hmem q hindex).mp hsome)

/-- Two places of the history that stand one behind the other in the result. -/
def Adjacent (l : List (Option ℕ)) (a b : ℕ) : Prop :=
  ∃ p, l[p]? = some (some a) ∧ l[p + 1]? = some (some b)

theorem keptIndexes_succ (removed : List ℕ) (n : ℕ) :
    keptIndexes removed (n + 1) = keptIndexes removed n ++ if n ∈ removed then [] else [n] := by
  unfold keptIndexes
  rw [List.range_succ, List.filter_append]
  by_cases h : n ∈ removed <;> simp [h]

theorem keptIndexes_getElem? (h : i < n) (hkept : i ∉ removed) :
    (keptIndexes removed n)[(keptIndexes removed i).length]? = some i := by
  induction n with
  | zero => omega
  | succ n ih =>
    rw [keptIndexes_succ]
    by_cases hlast : i = n
    · subst hlast
      rw [if_neg hkept, List.getElem?_append_right le_rfl, Nat.sub_self]
      rfl
    · have hfound := ih (by omega)
      rw [List.getElem?_append_left (List.getElem?_eq_some_iff.mp hfound).1, hfound]

theorem keptIndexes_length_mono (removed : List ℕ) {a b : ℕ} (h : a ≤ b) :
    (keptIndexes removed a).length ≤ (keptIndexes removed b).length := by
  induction h with
  | refl => exact le_rfl
  | step _ ih =>
    rw [keptIndexes_succ, List.length_append]
    omega

theorem foldl_min_mem (l : List ℕ) (n : ℕ) : l.foldl min n = n ∨ l.foldl min n ∈ l := by
  induction l generalizing n with
  | nil => exact .inl rfl
  | cons k l ih =>
    rw [List.foldl_cons]
    rcases ih (min n k) with h | h
    · rcases Nat.le_total n k with hle | hle
      · left
        rw [h, min_eq_left hle]
      · right
        rw [h, min_eq_right hle]
        exact List.mem_cons_self
    · exact .inr (List.mem_cons_of_mem _ h)

/-- The summary never stands between two neighbours that both stay. -/
theorem adjacent_of_retained (h : Retained messages config bases o)
    (hnext : Retained messages config bases (o + 1)) :
    Adjacent (layout messages config bases) o (o + 1) := by
  obtain ⟨hlt, hin⟩ := retained_iff.mp h
  obtain ⟨hltn, hinn⟩ := retained_iff.mp hnext
  rw [layout_eq]
  dsimp only
  split_ifs with hremoved
  · generalize removeIndexes (trimmedEntries messages config bases).1 = removed at hin hinn
    have hfirst := keptIndexes_getElem? hlt hin
    have hsecond := keptIndexes_getElem? hltn hinn
    have hsucc : (keptIndexes removed (o + 1)).length = (keptIndexes removed o).length + 1 := by
      rw [keptIndexes_succ, if_neg hin, List.length_append]
      rfl
    have hsucc' : (keptIndexes removed (o + 2)).length = (keptIndexes removed o).length + 2 := by
      rw [keptIndexes_succ, if_neg hinn, List.length_append, hsucc]
      rfl
    rw [hsucc] at hsecond
    have hplace : summaryPlace removed messages.length =
        (keptIndexes removed (removed.foldl min messages.length)).length := rfl
    have hends : removed.foldl min messages.length ≤ o ∨
        o + 2 ≤ removed.foldl min messages.length := by
      rcases foldl_min_mem removed messages.length with hmin | hmin
      · right
        omega
      · by_contra hbetween
        have hcase : removed.foldl min messages.length = o ∨
            removed.foldl min messages.length = o + 1 := by omega
        rcases hcase with hcase | hcase
        · exact hin (hcase ▸ hmin)
        · exact hinn (hcase ▸ hmin)
    have hat : ∀ p a : ℕ, (keptIndexes removed messages.length)[p]? = some a →
        ((keptIndexes removed messages.length).map some)[p]? = some (some a) := by
      intro p a hp
      rw [List.getElem?_map, hp]
      rfl
    rcases hends with hbefore | hafter
    · have hle := keptIndexes_length_mono removed hbefore
      rw [← hplace] at hle
      refine ⟨(keptIndexes removed o).length + 1, ?_, ?_⟩
      · rw [List.getElem?_insertIdx_of_gt (by omega)]
        exact hat _ _ hfirst
      · rw [List.getElem?_insertIdx_of_gt (by omega)]
        exact hat _ _ hsecond
    · have hle := keptIndexes_length_mono removed hafter
      rw [hsucc', ← hplace] at hle
      refine ⟨(keptIndexes removed o).length, ?_, ?_⟩
      · rw [List.getElem?_insertIdx_of_lt (by omega)]
        exact hat _ _ hfirst
      · rw [List.getElem?_insertIdx_of_lt (by omega)]
        exact hat _ _ hsecond
  · refine ⟨o, ?_, ?_⟩
    · simp [hlt]
    · simp [hltn]

end Reasoning

end Piclaw.ToolCallLimit
