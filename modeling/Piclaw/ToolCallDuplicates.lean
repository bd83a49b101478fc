import Piclaw.ToolCallTrimming

/-!
# Duplicate searches

Of the searches with one handle and query the first is kept by the loop over the duplicates and all
later ones are removed; the limit and the budget, which start with the oldest calls, then reach the
one that was kept before any other.
-/

namespace Piclaw.ToolCallLimit

open CanonicalText

section Loop

variable {seen : List Units} {entries : List ToolCallEntry} {entry : ToolCallEntry}

theorem dedupeEntries_self (hnodup : (entries.filterMap dedupeKey).Nodup)
    (hseen : ∀ key ∈ entries.filterMap dedupeKey, key ∉ seen) :
    dedupeEntries seen entries = entries := by
  induction entries generalizing seen with
  | nil => rfl
  | cons entry entries ih =>
    rw [dedupeEntries_cons]
    rw [List.filterMap_cons] at hnodup hseen
    cases hkey : dedupeKey entry with
    | none =>
      rw [hkey] at hnodup hseen
      exact congrArg _ (ih hnodup hseen)
    | some key =>
      rw [hkey] at hnodup hseen
      dsimp only at hnodup hseen ⊢
      rw [if_neg (hseen key (by simp))]
      rw [ih (List.nodup_cons.mp hnodup).2]
      intro other hother hmem
      rcases List.mem_cons.mp hmem with rfl | hmem
      · exact (List.nodup_cons.mp hnodup).1 hother
      · exact hseen other (List.mem_cons_of_mem _ hother) hmem

/-- An entry after the loop: a duplicate when its key has been seen or stands before it. -/
theorem dedupeEntries_getElem? (seen : List Units) (entries : List ToolCallEntry) (q : ℕ) :
    (dedupeEntries seen entries)[q]? = entries[q]?.map fun entry =>
      if ∃ key, dedupeKey entry = some key ∧
          (key ∈ seen ∨ key ∈ (entries.take q).filterMap dedupeKey) then
        { entry with removalReason := some .dedupe }
      else entry := by
  induction entries generalizing seen q with
  | nil => rfl
  | cons first entries ih =>
    rw [dedupeEntries_cons]
    cases hkey : dedupeKey first with
    | none =>
      cases q with
      | zero => simp [hkey]
      | succ q => simp [ih, hkey]
    | some key =>
      dsimp only
      split_ifs with hseen
      · cases q with
        | zero => simp [hkey, hseen]
        | succ q =>
          rw [List.getElem?_cons_succ, List.getElem?_cons_succ, ih, List.take_succ_cons,
            List.filterMap_cons, hkey]
          congr 1
          funext entry
          congr 1
          simp only [List.mem_cons, eq_iff_iff]
          constructor
          · rintro ⟨other, hother, h | h⟩
            · exact ⟨other, hother, .inl h⟩
            · exact ⟨other, hother, .inr (.inr h)⟩
          · rintro ⟨other, hother, h | rfl | h⟩
            · exact ⟨other, hother, .inl h⟩
            · exact ⟨other, hother, .inl hseen⟩
            · exact ⟨other, hother, .inr h⟩
      · cases q with
        | zero => simp [hkey, hseen]
        | succ q =>
          rw [List.getElem?_cons_succ, List.getElem?_cons_succ, ih, List.take_succ_cons,
            List.filterMap_cons, hkey]
          congr 1
          funext entry
          congr 1
          simp only [List.mem_cons, eq_iff_iff]
          constructor
          · rintro ⟨other, hother, (rfl | h) | h⟩
            · exact ⟨other, hother, .inr (.inl rfl)⟩
            · exact ⟨other, hother, .inl h⟩
            · exact ⟨other, hother, .inr (.inr h)⟩
          · rintro ⟨other, hother, h | rfl | h⟩
            · exact ⟨other, hother, .inl (.inr h)⟩
            · exact ⟨other, hother, .inl (.inl rfl)⟩
            · exact ⟨other, hother, .inr h⟩

end Loop

section Copies

variable {messages : History} {config : ToolCallLimitConfig} {bases : ℕ → Units} {i j : ℕ}
  {raw raw' : JsonValue} {search : Units × Units}

/-- The handle and the query of a `search_tool_output` call. -/
def searchOf (raw : JsonValue) : Option (Units × Units) :=
  if isCall raw ∧ callId raw ≠ [] ∧ stringOf raw "name" = some (units "search_tool_output") then
    parseToolOutputSearchArgs (stringOf raw "arguments")
  else none

/-- A call that has been removed as a duplicate. -/
def RemovedAsDuplicate (messages : History) (config : ToolCallLimitConfig) (bases : ℕ → Units)
    (j : ℕ) : Prop :=
  ∃ entry ∈ (trimmedEntries messages config bases).1,
    entry.callIndex = some j ∧ entry.removalReason = some .dedupe

/-- A search that is removed as a duplicate leaves another of its handle and query in the result,
and of the searches with one handle and query the result has the newest. -/
def KeepsLastCopy (messages : History) (config : ToolCallLimitConfig) (bases : ℕ → Units) : Prop :=
  (∀ j raw search, RemovedAsDuplicate messages config bases j → messages[j]? = some raw →
    searchOf raw = some search →
      ∃ i raw', i ≠ j ∧ messages[i]? = some raw' ∧ searchOf raw' = some search ∧
        Retained messages config bases i) ∧
  ∀ i j raw raw' search, i < j → messages[i]? = some raw → messages[j]? = some raw' →
    searchOf raw = some search → searchOf raw' = some search →
      Retained messages config bases i → Retained messages config bases j

theorem searchOf_call (h : searchOf raw = some search) : isCall raw ∧ callId raw ≠ [] ∧
    stringOf raw "name" = some (units "search_tool_output") := by
  unfold searchOf at h
  split_ifs at h with hcall
  exact hcall

theorem searchOf_args (h : searchOf raw = some search) :
    parseToolOutputSearchArgs (stringOf raw "arguments") = some search := by
  unfold searchOf at h
  rwa [if_pos (searchOf_call h)] at h

/-- Searches with one handle and query have one key. -/
theorem duplicateKey_of_searchOf (h : searchOf raw = some search) :
    duplicateKey raw =
      if search.1 = [] ∨ search.2 = [] then none else some (search.1 ++ 124 :: search.2) := by
  have hcall := searchOf_call h
  unfold duplicateKey searchKey
  rw [if_pos ⟨hcall.1, hcall.2.1⟩, if_pos hcall.2.2, searchOf_args h]

theorem exists_search {key : Units} (h : duplicateKey raw = some key) :
    ∃ search, searchOf raw = some search := by
  unfold duplicateKey at h
  split_ifs at h with hcall
  unfold searchKey at h
  split_ifs at h with hname
  unfold searchOf
  rw [if_pos ⟨hcall.1, hcall.2, hname⟩]
  split at h
  · next handle query heq => exact ⟨(handle, query), heq⟩
  · cases h

theorem dedupeKey_eq {entry : ToolCallEntry} (hsource : Sourced messages entry)
    (hi : entry.callIndex = some i) (hraw : messages[i]? = some raw) :
    dedupeKey entry = duplicateKey raw := by
  obtain ⟨item, hitem, hcall, _, hid, hname, hargs⟩ := hsource.call i hi
  rw [hraw] at hitem
  cases hitem
  unfold dedupeKey duplicateKey
  rw [if_pos ⟨hcall, hid⟩, hname, hargs]

/-- The place of a call's entry among the entries. -/
theorem exists_place (hraw : messages[i]? = some raw) (hcall : isCall raw) (hid : callId raw ≠ []) :
    ∃ (p : ℕ) (entry : ToolCallEntry), (collectEntries messages)[p]? = some entry ∧
      entry.callIndex = some i := by
  obtain ⟨entry, hentry, hindex⟩ :=
    mem_callIndexes.mp ((collected messages).complete i raw hraw hcall hid)
  obtain ⟨p, hp⟩ := List.mem_iff_getElem?.mp hentry
  exact ⟨p, entry, hp, hindex⟩

/-- Entries stand in the order of their calls. -/
theorem callIndex_lt {entries : List ToolCallEntry} {p q : ℕ} {entry entry' : ToolCallEntry}
    (h : (entries.filterMap ToolCallEntry.callIndex).Pairwise (· < ·))
    (hp : entries[p]? = some entry) (hq : entries[q]? = some entry') (hpq : p < q)
    (hi : entry.callIndex = some i) (hj : entry'.callIndex = some j) : i < j := by
  rw [List.pairwise_filterMap] at h
  obtain ⟨hplt, hpeq⟩ := List.getElem?_eq_some_iff.mp hp
  obtain ⟨hqlt, hqeq⟩ := List.getElem?_eq_some_iff.mp hq
  have hpair := List.pairwise_iff_getElem.mp h p q hplt hqlt hpq
  rw [hpeq, hqeq] at hpair
  exact hpair i hi j hj

/-- The calls that are no duplicates. -/
theorem mem_ordered_iff (hdedupe : config.dedupeToolOutputSearch = true) {p : ℕ}
    {entry : ToolCallEntry} (hp : (collectEntries messages)[p]? = some entry)
    (hi : entry.callIndex = some i) : i ∈ ordered messages config ↔
      ¬ ∃ key, dedupeKey entry = some key ∧
        key ∈ ((collectEntries messages).take p).filterMap dedupeKey := by
  have hdeduped : dedupedEntries messages config = dedupeEntries [] (collectEntries messages) := by
    unfold dedupedEntries
    rw [if_pos hdedupe]
  have hplace := dedupeEntries_getElem? [] (collectEntries messages) p
  rw [← hdeduped, hp, Option.map_some] at hplace
  have hfresh := ((collected messages).sourced entry (List.mem_of_getElem? hp)).fresh
  rw [mem_ordered]
  constructor
  · rintro ⟨other, hother, hindex, hnone⟩ ⟨key, hkey, hmem⟩
    rw [if_pos ⟨key, hkey, .inr hmem⟩] at hplace
    have hsame := entry_unique (deduped_pairwise messages config) hother
      (List.mem_of_getElem? hplace) hindex hi
    rw [hsame] at hnone
    cases hnone
  · intro hnone
    rw [if_neg] at hplace
    · exact ⟨entry, List.mem_of_getElem? hplace, hi, hfresh⟩
    · rintro ⟨key, hkey, hmem | hmem⟩
      · cases hmem
      · exact hnone ⟨key, hkey, hmem⟩

theorem removed_of_not_ordered (hdedupe : config.dedupeToolOutputSearch = true)
    (hraw : messages[j]? = some raw) (hcall : isCall raw) (hid : callId raw ≠ [])
    (hnot : j ∉ ordered messages config) : RemovedAsDuplicate messages config bases j := by
  obtain ⟨k, round, htrimmed, _⟩ := trimmedEntries_eq messages config bases
  obtain ⟨q, entry, hq, hindex⟩ := exists_place hraw hcall hid
  have hduplicate := (not_iff_not.mpr (mem_ordered_iff hdedupe hq hindex)).mp hnot
  rw [not_not] at hduplicate
  obtain ⟨key, hkey, hmem⟩ := hduplicate
  have hplace := dedupeEntries_getElem? [] (collectEntries messages) q
  rw [hq, Option.map_some, if_pos ⟨key, hkey, .inr hmem⟩] at hplace
  have hdeduped : { entry with removalReason := some RemovalReason.dedupe } ∈
      dedupedEntries messages config := by
    unfold dedupedEntries
    rw [if_pos hdedupe]
    exact List.mem_of_getElem? hplace
  unfold RemovedAsDuplicate
  rw [htrimmed, cutEntries_eq]
  refine ⟨_, List.mem_map_of_mem hdeduped, ?_, ?_⟩
  · rw [markOne_callIndex, markOne_callIndex]
    exact hindex
  · rw [markOne_reason (i := j), if_neg, markOne_reason (i := j), if_neg]
    · exact fun h => hnot (List.mem_of_mem_take h)
    · exact hindex
    · exact fun h => hnot (List.mem_of_mem_drop (List.mem_of_mem_take h))
    · rw [markOne_callIndex]
      exact hindex

theorem ordered_of_nodup (hnodup : (messages.filterMap duplicateKey).Nodup)
    (hraw : messages[i]? = some raw) (hcall : isCall raw) (hid : callId raw ≠ []) :
    i ∈ ordered messages config := by
  have hsame : dedupedEntries messages config = collectEntries messages := by
    unfold dedupedEntries
    split_ifs
    · apply dedupeEntries_self
      · change ((collectFrom emptyCollection 0 messages).entries.filterMap dedupeKey).Nodup
        rw [(collected messages).keys]
        exact hnodup
      · intro key _ hmem
        cases hmem
    · rfl
  obtain ⟨p, entry, hp, hindex⟩ := exists_place hraw hcall hid
  have hmem := List.mem_of_getElem? hp
  rw [mem_ordered, hsame]
  exact ⟨entry, hmem, hindex, ((collected messages).sourced entry hmem).fresh⟩

/-- A removed duplicate is none of the calls that are cut. -/
theorem not_ordered_of_removed (h : RemovedAsDuplicate messages config bases j) :
    j ∉ ordered messages config := by
  obtain ⟨k, round, htrimmed, _⟩ := trimmedEntries_eq messages config bases
  obtain ⟨entry, hentry, hindex, hreason⟩ := h
  rw [htrimmed, cutEntries_eq] at hentry
  obtain ⟨first, hfirst, rfl⟩ := List.mem_map.mp hentry
  rw [markOne_callIndex, markOne_callIndex] at hindex
  rw [markOne_reason (by rw [markOne_callIndex, hindex]), markOne_reason hindex] at hreason
  intro hmem
  obtain ⟨other, hother, hother', hnone⟩ := mem_ordered.mp hmem
  rw [entry_unique (deduped_pairwise messages config) hfirst hother hindex hother', hnone] at hreason
  split_ifs at hreason
  · cases hreason
  · cases hreason

/-- A call and an output, from the texts of their fields. -/
def sampleItem (fields : List (String × String)) : JsonValue :=
  .object (fields.map fun entry => field entry.1 (text entry.2))

def sampleCall (id name args : String) : JsonValue :=
  sampleItem [("type", "function_call"), ("call_id", id), ("name", name), ("arguments", args)]

def sampleOutput (id : String) : JsonValue :=
  sampleItem [("type", "function_call_output"), ("call_id", id), ("output", "done")]

def sampleSearch : String := "\x7b\"handle\":\"h\",\"query\":\"q\"\x7d"

/-- The search of `c` is a duplicate of the one of `a`. -/
def repeatedSearch : History :=
  [sampleCall "a" "search_tool_output" sampleSearch, sampleOutput "a",
    sampleCall "b" "bash" "ls", sampleOutput "b",
    sampleCall "c" "search_tool_output" sampleSearch, sampleOutput "c"]

def oneCallConfig : ToolCallLimitConfig := ⟨.finite 1, .finite 2, .finite 40, true, none⟩

def sampleBases (_ : ℕ) : Units := units "msg_tool_summary_0_a"

end Copies

end Piclaw.ToolCallLimit
