import Piclaw.ToolCallLimit

/-!
# The entries of a history

What the collection knows of each item, by induction on the history: an entry's indexes point at
items of the right kind, the calls stand in the order of the history, and no call is left out.
Trimming only sets reasons, so that a call is retained exactly when its entry has none.
-/

namespace Piclaw.ToolCallLimit

open CanonicalText

abbrev History := List JsonValue

section Kinds

variable {raw : JsonValue} {item : Fields}

def isReasoning (raw : JsonValue) : Prop := itemType raw = some (units "reasoning")
def isCall (raw : JsonValue) : Prop := itemType raw = some (units "function_call")
def isOutput (raw : JsonValue) : Prop :=
  itemType raw = some (units "function_call_output")

instance : DecidablePred isReasoning := fun _ => inferInstanceAs (Decidable (_ = _))
instance : DecidablePred isCall := fun _ => inferInstanceAs (Decidable (_ = _))
instance : DecidablePred isOutput := fun _ => inferInstanceAs (Decidable (_ = _))

theorem kinds_ne : units "reasoning" ≠ units "function_call" ∧
    units "reasoning" ≠ units "function_call_output" ∧
      units "function_call" ≠ units "function_call_output" := by
  decide +kernel

theorem isCall.not_output (h : isCall raw) : ¬ isOutput raw := fun h' =>
  kinds_ne.2.2 (Option.some.inj (h.symm.trans h'))

theorem isCall.not_reasoning (h : isCall raw) : ¬ isReasoning raw := fun h' =>
  kinds_ne.1 (Option.some.inj (h'.symm.trans h))

theorem isOutput.not_reasoning (h : isOutput raw) : ¬ isReasoning raw := fun h' =>
  kinds_ne.2.1 (Option.some.inj (h'.symm.trans h))

theorem itemType_eq (h : asToolCallMessage raw = some item) :
    itemType raw = getStringField item (units "type") := by
  simp [itemType, h]

/-- The id of a call as the collection reads it; empty when there is none. -/
def callId (raw : JsonValue) : Units := ((asToolCallMessage raw).map callIdOf).getD []

/-- The id of the call that an output belongs to. -/
def outputId (raw : JsonValue) : Units :=
  ((asToolCallMessage raw).map outputCallIdOf).getD []

/-- An item's text under a key. -/
def stringOf (raw : JsonValue) (key : String) : Option Units :=
  (asToolCallMessage raw).bind fun item => getStringField item (units key)

/-- The key under which a call is a duplicate of another. -/
def duplicateKey (raw : JsonValue) : Option Units :=
  if isCall raw ∧ callId raw ≠ [] then searchKey (stringOf raw "name") (stringOf raw "arguments")
  else none

end Kinds

section Steps

variable {c : Collection} {raw : JsonValue} {n : ℕ}

def newCall (c : Collection) (raw : JsonValue) (n : ℕ) : ToolCallEntry where
  callId := callId raw
  name := stringOf raw "name"
  args := stringOf raw "arguments"
  output := none
  callIndex := some n
  outputIndex := none
  reasoningIndex := findReasoningForCall ((asToolCallMessage raw).getD []) c.reasoningItems
  removalReason := none

def orphanOutput (raw : JsonValue) (n : ℕ) : ToolCallEntry where
  callId := outputId raw
  name := none
  args := none
  output := stringOf raw "output"
  callIndex := none
  outputIndex := some n
  reasoningIndex := none
  removalReason := none

def withOutput (raw : JsonValue) (n : ℕ) (entry : ToolCallEntry) : ToolCallEntry :=
  { entry with outputIndex := some n, output := stringOf raw "output" }

def pairedItems (c : Collection) (raw : JsonValue) : List ReasoningEntry :=
  pairAt (findReasoningForCall ((asToolCallMessage raw).getD []) c.reasoningItems)
    c.reasoningItems

/-- What collecting one item does. -/
inductive CollectStep (c : Collection) (raw : JsonValue) (n : ℕ) : Collection → Prop
  | other (hcall : ¬ (isCall raw ∧ callId raw ≠ [])) (hreasoning : ¬ isReasoning raw)
      (houtput : ¬ (isOutput raw ∧ outputId raw ≠ [])) : CollectStep c raw n c
  | reasoning (h : isReasoning raw) : CollectStep c raw n
      { c with reasoningItems := c.reasoningItems ++ [⟨n, stringOf raw "id", false⟩] }
  | call (h : isCall raw) (hid : callId raw ≠ []) : CollectStep c raw n
      (Collection.add { c with reasoningItems := pairedItems c raw } (newCall c raw n))
  | output (h : isOutput raw) (hid : outputId raw ≠ []) {position : ℕ}
      (hfind : c.find (outputId raw) = some position) : CollectStep c raw n
      { c with entries := c.entries.modify position (withOutput raw n) }
  | orphan (h : isOutput raw) (hid : outputId raw ≠ []) (hfind : c.find (outputId raw) = none) :
      CollectStep c raw n (c.add (orphanOutput raw n))

theorem collectItem_step (c : Collection) (raw : JsonValue) (n : ℕ) :
    CollectStep c raw n (collectItem c raw n) := by
  unfold collectItem
  cases hitem : asToolCallMessage raw with
  | none =>
    have htype : itemType raw = none := by simp [itemType, hitem]
    refine .other ?_ ?_ ?_ <;> simp [isCall, isReasoning, isOutput, htype]
  | some item =>
    have htype := itemType_eq hitem
    have hcallId : callId raw = callIdOf item := by simp [callId, hitem]
    have houtputId : outputId raw = outputCallIdOf item := by simp [outputId, hitem]
    have hstring : ∀ key, stringOf raw key = getStringField item (units key) := by
      intro key
      simp [stringOf, hitem]
    dsimp only
    split_ifs with hreasoning hcall houtput
    · rw [← hstring]
      exact .reasoning (htype.trans hreasoning)
    · have hkind : isCall raw := htype.trans hcall
      unfold collectCall
      dsimp only
      split_ifs with hid
      · exact .other (fun h => h.2 (hcallId.trans hid)) hkind.not_reasoning
          fun h => hkind.not_output h.1
      · have hstep := @CollectStep.call c raw n hkind (by rw [hcallId]; exact hid)
        simpa only [pairedItems, newCall, hitem, Option.getD_some, hcallId, hstring] using hstep
    · have hkind : isOutput raw := htype.trans houtput
      unfold collectOutput
      dsimp only
      split_ifs with hid
      · exact .other (fun h => h.1.not_output hkind) hkind.not_reasoning
          fun h => h.2 (houtputId.trans hid)
      · have hne : outputId raw ≠ [] := by rw [houtputId]; exact hid
        cases hfind : c.find (outputCallIdOf item) with
        | none =>
          have hstep := @CollectStep.orphan c raw n hkind hne (by rw [houtputId]; exact hfind)
          simpa only [orphanOutput, houtputId, hstring] using hstep
        | some position =>
          have hstep := @CollectStep.output c raw n hkind hne position (by rw [houtputId]; exact hfind)
          have hwith : withOutput raw n = fun entry =>
              { entry with
                outputIndex := some n, output := getStringField item (units "output") } := by
            funext entry
            simp only [withOutput, hstring]
          rw [hwith] at hstep
          exact hstep
    · exact .other (fun h => hcall (htype.symm.trans h.1)) (fun h => hreasoning (htype.symm.trans h))
        fun h => houtput (htype.symm.trans h.1)

theorem collectFrom_append (c : Collection) (k : ℕ) (front back : History) :
    collectFrom c k (front ++ back) = collectFrom (collectFrom c k front) (k + front.length) back := by
  induction front generalizing c k with
  | nil => rfl
  | cons raw front ih =>
    rw [List.cons_append, collectFrom, ih, collectFrom, List.length_cons, Nat.add_right_comm,
      Nat.add_assoc]

def emptyCollection : Collection := ⟨[], [], []⟩

/-- Induction on the history as it is collected. -/
theorem collected_induction {motive : History → Collection → Prop}
    (hnil : motive [] emptyCollection)
    (hstep : ∀ front raw c c', motive front c → CollectStep c raw front.length c' →
      motive (front ++ [raw]) c') (messages : History) :
    motive messages (collectFrom emptyCollection 0 messages) := by
  induction messages using List.reverseRecOn with
  | nil => exact hnil
  | append_singleton front raw ih =>
    rw [collectFrom_append, Nat.zero_add]
    exact hstep front raw _ _ ih (collectItem_step _ raw _)

end Steps

section Sources

variable {messages : History} {c : Collection} {entry : ToolCallEntry} {raw : JsonValue}

/-- An entry's indexes point at items of the right kind. -/
structure Sourced (messages : History) (entry : ToolCallEntry) : Prop where
  fresh : entry.removalReason = none
  call : ∀ i, entry.callIndex = some i → ∃ raw, messages[i]? = some raw ∧ isCall raw ∧
    callId raw = entry.callId ∧ callId raw ≠ [] ∧ stringOf raw "name" = entry.name ∧
      stringOf raw "arguments" = entry.args
  orphan : entry.callIndex = none → entry.name = none ∧ entry.reasoningIndex = none
  output : ∀ j, entry.outputIndex = some j → ∃ raw, messages[j]? = some raw ∧ isOutput raw ∧
    outputId raw = entry.callId
  reasoning : ∀ r, entry.reasoningIndex = some r → ∃ raw, messages[r]? = some raw ∧
    isReasoning raw

theorem getElem?_snoc {α : Type} {front : List α} {x y : α} {i : ℕ} (h : front[i]? = some y) :
    (front ++ [x])[i]? = some y := by
  rw [List.getElem?_append_left (List.getElem?_eq_some_iff.mp h).1, h]

theorem getElem?_snoc_length {α : Type} (front : List α) (x : α) :
    (front ++ [x])[front.length]? = some x := by
  simp

theorem Sourced.snoc (h : Sourced messages entry) (raw : JsonValue) :
    Sourced (messages ++ [raw]) entry where
  fresh := h.fresh
  call i hi := by
    obtain ⟨item, hitem, hrest⟩ := h.call i hi
    exact ⟨item, getElem?_snoc hitem, hrest⟩
  orphan := h.orphan
  output j hj := by
    obtain ⟨item, hitem, hrest⟩ := h.output j hj
    exact ⟨item, getElem?_snoc hitem, hrest⟩
  reasoning r hr := by
    obtain ⟨item, hitem, hrest⟩ := h.reasoning r hr
    exact ⟨item, getElem?_snoc hitem, hrest⟩

theorem findReasoningForCall_mem {item : Fields} {items : List ReasoningEntry} {r : ℕ}
    (h : findReasoningForCall item items = some r) : ∃ entry ∈ items, entry.index = r := by
  unfold findReasoningForCall at h
  dsimp only at h
  split at h
  · next entry hentry =>
    split_ifs at hentry
    exact ⟨entry, List.mem_of_find?_eq_some hentry, Option.some.inj h⟩
  · obtain ⟨entry, hentry, hindex⟩ := Option.map_eq_some_iff.mp h
    exact ⟨entry, List.mem_reverse.mp (List.mem_of_find?_eq_some hentry), hindex⟩

/-- What holds of the collection after a history. -/
structure Collected (messages : History) (c : Collection) : Prop where
  sourced : ∀ entry ∈ c.entries, Sourced messages entry
  ordered : (c.entries.filterMap ToolCallEntry.callIndex).Pairwise (· < ·)
  complete : ∀ i raw, messages[i]? = some raw → isCall raw → callId raw ≠ [] →
    i ∈ c.entries.filterMap ToolCallEntry.callIndex
  reasoned : ∀ r ∈ c.reasoningItems, ∃ raw, messages[r.index]? = some raw ∧ isReasoning raw
  keys : c.entries.filterMap dedupeKey = messages.filterMap duplicateKey
  found : ∀ id position, c.find id = some position →
    ∃ entry, c.entries[position]? = some entry ∧ entry.callId = id

theorem mem_callIndexes {entries : List ToolCallEntry} {i : ℕ} :
    i ∈ entries.filterMap ToolCallEntry.callIndex ↔
      ∃ entry ∈ entries, entry.callIndex = some i := by
  simp [List.mem_filterMap]

theorem Collected.lt_length (h : Collected messages c) {i : ℕ}
    (hi : i ∈ c.entries.filterMap ToolCallEntry.callIndex) : i < messages.length := by
  obtain ⟨entry, hentry, hindex⟩ := mem_callIndexes.mp hi
  obtain ⟨raw, hraw, _⟩ := (h.sourced entry hentry).call i hindex
  exact (List.getElem?_eq_some_iff.mp hraw).1

theorem map_modify_of_eq {α β : Type} {f : α → α} {g : α → β} (h : ∀ x, g (f x) = g x)
    (entries : List α) (position : ℕ) :
    (entries.modify position f).map g = entries.map g := by
  apply List.ext_getElem?
  intro i
  rw [List.getElem?_map, List.getElem?_modify, List.getElem?_map]
  cases entries[i]? with
  | none => rfl
  | some x =>
    by_cases heq : position = i
    · simp [heq, h]
    · simp [heq]

theorem filterMap_modify {α β : Type} {f : α → α} {g : α → Option β} (h : ∀ x, g (f x) = g x)
    (entries : List α) (position : ℕ) :
    (entries.modify position f).filterMap g = entries.filterMap g := by
  have hmap : ∀ l : List α, l.filterMap g = (l.map g).filterMap id := fun l => by
    rw [List.filterMap_map]
    rfl
  rw [hmap, hmap entries, map_modify_of_eq h]

theorem mem_modify {α : Type} {entries : List α} {position : ℕ} {f : α → α} {x : α}
    (h : x ∈ entries.modify position f) :
    x ∈ entries ∨ ∃ y, entries[position]? = some y ∧ x = f y := by
  obtain ⟨j, hj, rfl⟩ := List.mem_iff_getElem.mp h
  rw [List.getElem_modify]
  rw [List.length_modify] at hj
  split_ifs with heq
  · subst heq
    exact .inr ⟨_, List.getElem?_eq_getElem hj, rfl⟩
  · exact .inl (List.getElem_mem _)

theorem duplicateKey_other (h : ¬ (isCall raw ∧ callId raw ≠ [])) : duplicateKey raw = none :=
  if_neg h

theorem Collected.snoc_same (h : Collected messages c)
    (hcall : ¬ (isCall raw ∧ callId raw ≠ [])) {reasoningItems : List ReasoningEntry}
    (hreasoned : ∀ r ∈ reasoningItems, ∃ item, (messages ++ [raw])[r.index]? = some item ∧
      isReasoning item) :
    Collected (messages ++ [raw]) { c with reasoningItems := reasoningItems } where
  sourced entry hentry := (h.sourced entry hentry).snoc raw
  ordered := h.ordered
  complete i item hitem hkind hid := by
    by_cases hlt : i < messages.length
    · rw [List.getElem?_append_left hlt] at hitem
      exact h.complete i item hitem hkind hid
    · rw [List.getElem?_append_right (by omega), List.getElem?_singleton] at hitem
      split_ifs at hitem
      cases hitem
      exact absurd ⟨hkind, hid⟩ hcall
  reasoned := hreasoned
  keys := by
    rw [List.filterMap_append, h.keys]
    simp [duplicateKey_other hcall]
  found := h.found

theorem Collected.reasoned_snoc (h : Collected messages c) (raw : JsonValue) :
    ∀ r ∈ c.reasoningItems, ∃ item, (messages ++ [raw])[r.index]? = some item ∧
      isReasoning item := by
  intro r hr
  obtain ⟨item, hitem, hkind⟩ := h.reasoned r hr
  exact ⟨item, getElem?_snoc hitem, hkind⟩

theorem Collection.find_add {c : Collection} {entry : ToolCallEntry} {id : Units} :
    (c.add entry).find id = if entry.callId = id then some c.entries.length else c.find id := by
  unfold Collection.add Collection.find
  rw [List.find?_cons]
  by_cases hid : entry.callId = id
  · simp [hid]
  · simp [hid]

theorem found_add (h : ∀ id position, c.find id = some position →
    ∃ entry, c.entries[position]? = some entry ∧ entry.callId = id) (entry : ToolCallEntry) :
    ∀ id position, (c.add entry).find id = some position →
      ∃ found, (c.add entry).entries[position]? = some found ∧ found.callId = id := by
  intro id position hfind
  rw [Collection.find_add] at hfind
  split_ifs at hfind with hid
  · cases hfind
    exact ⟨entry, getElem?_snoc_length _ _, hid⟩
  · obtain ⟨found, hfound, hcallId⟩ := h id position hfind
    exact ⟨found, getElem?_snoc hfound, hcallId⟩

theorem pairwise_snoc {l : List ℕ} {n : ℕ} (h : l.Pairwise (· < ·)) (hn : ∀ i ∈ l, i < n) :
    (l ++ [n]).Pairwise (· < ·) := by
  rw [List.pairwise_append]
  refine ⟨h, List.pairwise_singleton _ _, ?_⟩
  intro i hi j hj
  rw [List.mem_singleton.mp hj]
  exact hn i hi

theorem collected (messages : History) :
    Collected messages (collectFrom emptyCollection 0 messages) := by
  induction messages using collected_induction with
  | hnil =>
    refine ⟨?_, ?_, ?_, ?_, ?_, ?_⟩ <;> simp [emptyCollection, Collection.find]
  | hstep front raw c c' h hstep =>
    cases hstep with
    | other hcall hreasoning houtput => exact h.snoc_same hcall (h.reasoned_snoc raw)
    | reasoning hkind =>
      apply h.snoc_same fun hcall => hcall.1.not_reasoning hkind
      intro r hr
      rcases List.mem_append.mp hr with hr | hr
      · exact h.reasoned_snoc raw r hr
      · rw [List.mem_singleton.mp hr]
        exact ⟨raw, getElem?_snoc_length _ _, hkind⟩
    | call hkind hid =>
      have hreasoned : ∀ r ∈ pairedItems c raw, ∃ item, (front ++ [raw])[r.index]? = some item ∧
          isReasoning item := by
        intro r hr
        unfold pairedItems pairAt at hr
        split at hr
        · obtain ⟨entry, hentry, rfl⟩ := List.mem_map.mp hr
          have hsame : ∀ i, (pair i entry).index = entry.index := by
            intro i
            unfold pair
            split_ifs <;> rfl
          rw [hsame]
          exact h.reasoned_snoc raw entry hentry
        · exact h.reasoned_snoc raw r hr
      have hnew : Sourced (front ++ [raw]) (newCall c raw front.length) := by
        refine ⟨rfl, ?_, ?_, ?_, ?_⟩
        · intro i hi
          cases hi
          exact ⟨raw, getElem?_snoc_length _ _, hkind, rfl, hid, rfl, rfl⟩
        · intro hnone
          cases hnone
        · intro j hj
          cases hj
        · intro r hr
          obtain ⟨entry, hentry, rfl⟩ := findReasoningForCall_mem hr
          exact h.reasoned_snoc raw entry hentry
      refine ⟨?_, ?_, ?_, hreasoned, ?_, ?_⟩
      · intro entry hentry
        rcases List.mem_append.mp hentry with hentry | hentry
        · exact (h.sourced entry hentry).snoc raw
        · rw [List.mem_singleton.mp hentry]
          exact hnew
      · change ((c.entries ++ [_]).filterMap _).Pairwise _
        rw [List.filterMap_append]
        exact pairwise_snoc h.ordered fun i hi => h.lt_length hi
      · intro i item hitem hcall hcallId
        change i ∈ (c.entries ++ [_]).filterMap _
        rw [List.filterMap_append, List.mem_append]
        by_cases hlt : i < front.length
        · rw [List.getElem?_append_left hlt] at hitem
          exact .inl (h.complete i item hitem hcall hcallId)
        · have hi := (List.getElem?_eq_some_iff.mp hitem).1
          rw [List.length_append, List.length_singleton] at hi
          right
          rw [show i = front.length by omega]
          simp [newCall]
      · change (c.entries ++ [_]).filterMap _ = _
        rw [List.filterMap_append, List.filterMap_append, h.keys]
        congr 1
        simp [dedupeKey, newCall, duplicateKey, hkind, hid, List.filterMap_cons]
      · exact @found_add { c with reasoningItems := pairedItems c raw } h.found _
    | @output hkind hid position hfind =>
      have hcall : ¬ (isCall raw ∧ callId raw ≠ []) := fun hcall => hcall.1.not_output hkind
      have hsame := h.snoc_same hcall (h.reasoned_snoc raw)
      obtain ⟨owner, howner, hownerId⟩ := h.found _ _ hfind
      have hindexes : (c.entries.modify position (withOutput raw front.length)).filterMap
          ToolCallEntry.callIndex = c.entries.filterMap ToolCallEntry.callIndex := by
        apply filterMap_modify
        intro entry
        rfl
      have hkeys : (c.entries.modify position (withOutput raw front.length)).filterMap dedupeKey =
          c.entries.filterMap dedupeKey := by
        apply filterMap_modify
        intro entry
        rfl
      refine ⟨?_, hindexes.symm ▸ hsame.ordered, hindexes.symm ▸ hsame.complete, hsame.reasoned,
        hkeys.trans hsame.keys, ?_⟩
      · intro entry hentry
        rcases mem_modify hentry with hentry | ⟨found, hfound, rfl⟩
        · exact hsame.sourced entry hentry
        · rw [howner] at hfound
          cases hfound
          have hsource := hsame.sourced owner (List.mem_of_getElem? howner)
          refine ⟨hsource.fresh, hsource.call, hsource.orphan, ?_, hsource.reasoning⟩
          intro j hj
          cases hj
          exact ⟨raw, getElem?_snoc_length _ _, hkind, hownerId.symm⟩
      · intro id place hplace
        obtain ⟨entry, hentry, hcallId⟩ := h.found id place hplace
        change ∃ found, (c.entries.modify position _)[place]? = some found ∧ found.callId = id
        rw [List.getElem?_modify, hentry]
        by_cases heq : position = place
        · exact ⟨withOutput raw front.length entry, by simp [heq], hcallId⟩
        · exact ⟨entry, by simp [heq], hcallId⟩
    | orphan hkind hid hfind =>
      have hcall : ¬ (isCall raw ∧ callId raw ≠ []) := fun hcall => hcall.1.not_output hkind
      have hsame := h.snoc_same hcall (h.reasoned_snoc raw)
      have hindexes : (c.add (orphanOutput raw front.length)).entries.filterMap
          ToolCallEntry.callIndex = c.entries.filterMap ToolCallEntry.callIndex := by
        simp [Collection.add, orphanOutput, List.filterMap_append]
      refine ⟨?_, ?_, ?_, hsame.reasoned, ?_, found_add h.found _⟩
      · intro entry hentry
        rcases List.mem_append.mp hentry with hentry | hentry
        · exact hsame.sourced entry hentry
        · rw [List.mem_singleton.mp hentry]
          refine ⟨rfl, ?_, fun _ => ⟨rfl, rfl⟩, ?_, ?_⟩
          · intro i hi
            cases hi
          · intro j hj
            cases hj
            exact ⟨raw, getElem?_snoc_length _ _, hkind, rfl⟩
          · intro r hr
            cases hr
      · rw [hindexes]
        exact hsame.ordered
      · rw [hindexes]
        exact hsame.complete
      · rw [← hsame.keys]
        simp [Collection.add, List.filterMap_append, dedupeKey, orphanOutput, searchKey]

end Sources

end Piclaw.ToolCallLimit
