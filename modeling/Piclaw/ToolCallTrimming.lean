import Piclaw.ToolCallEntries

/-!
# Which calls are trimmed

After the duplicates, the limit and the budget together remove a first part of the remaining calls
in the order of the history, and nothing but the reasons of the entries changes. The messages that
result are the retained items in their order, with a summary among them.
-/

namespace Piclaw.ToolCallLimit

open CanonicalText

section Marking

variable {entries : List ToolCallEntry} {entry : ToolCallEntry} {reason : RemovalReason}

def clear (entry : ToolCallEntry) : ToolCallEntry := { entry with removalReason := none }

/-- Sets the reason of the calls at some indexes. -/
def markOne (reason : RemovalReason) (indexes : List ℕ) (entry : ToolCallEntry) : ToolCallEntry :=
  match entry.callIndex with
  | some i => if i ∈ indexes then { entry with removalReason := some reason } else entry
  | none => entry

theorem markAll_eq (reason : RemovalReason) (indexes : List ℕ) (entries : List ToolCallEntry) :
    markAll reason indexes entries = entries.map (markOne reason indexes) := by
  unfold markAll
  induction indexes generalizing entries with
  | nil =>
    conv_lhs => rw [List.foldl_nil, ← List.map_id entries]
    apply List.map_congr_left
    intro entry _
    unfold markOne
    cases entry.callIndex <;> rfl
  | cons i indexes ih =>
    rw [List.foldl_cons, ih, List.map_map]
    apply List.map_congr_left
    intro entry _
    unfold markOne mark
    cases hindex : entry.callIndex with
    | none => simp [hindex]
    | some j =>
      by_cases hj : j = i
      · subst hj
        by_cases hmem : j ∈ indexes <;> simp [hindex, hmem]
      · have hne : ¬ (some j = some i) := fun h => hj (Option.some.inj h)
        simp [hindex, hj]

theorem clear_markOne (reason : RemovalReason) (indexes : List ℕ) (entry : ToolCallEntry) :
    clear (markOne reason indexes entry) = clear entry := by
  unfold markOne
  split
  · split_ifs <;> rfl
  · rfl

theorem clear_markAll (reason : RemovalReason) (indexes : List ℕ) (entries : List ToolCallEntry) :
    (markAll reason indexes entries).map clear = entries.map clear := by
  rw [markAll_eq, List.map_map]
  exact List.map_congr_left fun entry _ => clear_markOne reason indexes entry

theorem dedupeEntries_cons (seen : List Units) (entry : ToolCallEntry)
    (entries : List ToolCallEntry) : dedupeEntries seen (entry :: entries) =
      match dedupeKey entry with
      | none => entry :: dedupeEntries seen entries
      | some key =>
        if key ∈ seen then
          { entry with removalReason := some .dedupe } :: dedupeEntries seen entries
        else entry :: dedupeEntries (key :: seen) entries := rfl

theorem clear_dedupeEntries (seen : List Units) (entries : List ToolCallEntry) :
    (dedupeEntries seen entries).map clear = entries.map clear := by
  induction entries generalizing seen with
  | nil => rfl
  | cons entry entries ih =>
    rw [dedupeEntries_cons]
    split
    · rw [List.map_cons, ih, List.map_cons]
    · split_ifs
      · rw [List.map_cons, ih, List.map_cons]
        rfl
      · rw [List.map_cons, ih, List.map_cons]

theorem trimToBudget_eq (messages : History) (config : ToolCallLimitConfig) (most : ConfigNumber)
    (bases : ℕ → Units) (round : ℕ) (entries : List ToolCallEntry) (remaining : List ℕ) :
    ∃ k, k ≤ remaining.length ∧
      trimToBudget messages config most bases round entries remaining =
        (markAll .budget (remaining.take k) entries, round + k + 1) ∧
      (k = remaining.length ∨ most.atLeast (estimateAzureRequestTokens (buildTrimmedMessages messages
        (markAll .budget (remaining.take k) entries) config (bases (round + k))))) ∧
      ∀ j < k, ¬ most.atLeast (estimateAzureRequestTokens (buildTrimmedMessages messages
        (markAll .budget (remaining.take j) entries) config (bases (round + j)))) := by
  induction remaining generalizing round entries with
  | nil =>
    refine ⟨0, le_rfl, ?_, .inl rfl, fun j hj => absurd hj (Nat.not_lt_zero j)⟩
    unfold trimToBudget
    dsimp only
    split_ifs <;> rfl
  | cons oldest remaining ih =>
    unfold trimToBudget
    dsimp only
    split_ifs with hfits
    · exact ⟨0, Nat.zero_le _, rfl, .inr hfits, fun j hj => absurd hj (Nat.not_lt_zero j)⟩
    · obtain ⟨k, hk, heq, hend, hbefore⟩ := ih (round + 1) (entries.map (mark .budget oldest))
      refine ⟨k + 1, Nat.succ_le_succ hk, ?_, ?_, ?_⟩
      · rw [heq, Nat.add_right_comm round 1 k, Nat.add_assoc round k 1]
        rfl
      · rcases hend with hend | hend
        · exact .inl (by rw [hend, List.length_cons])
        · right
          rw [Nat.add_right_comm, Nat.add_assoc] at hend
          exact hend
      · intro j hj
        cases j with
        | zero => exact hfits
        | succ j =>
          have hstep := hbefore j (Nat.lt_of_succ_lt_succ hj)
          rw [Nat.add_right_comm, Nat.add_assoc] at hstep
          exact hstep

end Marking

section Trimmed

variable {messages : History} {config : ToolCallLimitConfig} {bases : ℕ → Units} {i j : ℕ}

/-- The calls that the limit and the budget choose from. -/
def ordered (messages : History) (config : ToolCallLimitConfig) : List ℕ :=
  orderedCalls (dedupedEntries messages config)

def overLimit (messages : History) (config : ToolCallLimitConfig) : ℕ :=
  limitCount (ordered messages config) config.limit

/-- The entries when the limit has removed its calls and the budget those up to `k`. -/
def cutEntries (messages : History) (config : ToolCallLimitConfig) (k : ℕ) : List ToolCallEntry :=
  markAll .budget (((ordered messages config).drop (overLimit messages config)).take k)
    (markAll .limit ((ordered messages config).take (overLimit messages config))
      (dedupedEntries messages config))

/-- The token budget, where there is one, is met when it removes `k` calls. -/
def BudgetMet (messages : History) (config : ToolCallLimitConfig) (bases : ℕ → Units) (k : ℕ) :
    Prop :=
  ∀ most, config.maxEstimatedTokens = some most → most.above 0 = true →
    most.atLeast (estimateAzureRequestTokens (buildTrimmedMessages messages
      (cutEntries messages config k) config (bases k))) = true

/-- The least number of calls with which the budget is met, or all of them. -/
structure IsBudgetCount (messages : History) (config : ToolCallLimitConfig) (bases : ℕ → Units)
    (k : ℕ) : Prop where
  le : k ≤ (ordered messages config).length - overLimit messages config
  met : k = (ordered messages config).length - overLimit messages config ∨
    BudgetMet messages config bases k
  least : ∀ j < k, ¬ BudgetMet messages config bases j

theorem IsBudgetCount.unique {k k' : ℕ} (h : IsBudgetCount messages config bases k)
    (h' : IsBudgetCount messages config bases k') : k = k' := by
  have hnotlt : ∀ {a b : ℕ}, IsBudgetCount messages config bases a →
      IsBudgetCount messages config bases b → ¬ a < b := by
    intro a b ha hb hlt
    rcases ha.met with heq | hmet
    · exact absurd hb.le (by omega)
    · exact hb.least a hlt hmet
  exact le_antisymm (not_lt.mp (hnotlt h' h)) (not_lt.mp (hnotlt h h'))

/-- The entries after trimming, and the summary id of the last round. -/
theorem trimmedEntries_eq (messages : History) (config : ToolCallLimitConfig) (bases : ℕ → Units) :
    ∃ k round, trimmedEntries messages config bases = (cutEntries messages config k, round) ∧
      IsBudgetCount messages config bases k ∧
      ∀ most, config.maxEstimatedTokens = some most → most.above 0 → round = k + 1 := by
  have hnobudget : (∀ most, config.maxEstimatedTokens = some most → most.above 0 = false) →
      IsBudgetCount messages config bases 0 := by
    intro hnone
    refine ⟨Nat.zero_le _, .inr ?_, fun j hj => absurd hj (Nat.not_lt_zero j)⟩
    intro most heq habove
    rw [hnone most heq] at habove
    cases habove
  unfold trimmedEntries
  dsimp only
  cases hmost : config.maxEstimatedTokens with
  | none =>
    refine ⟨0, 0, rfl, hnobudget ?_, ?_⟩
    · intro most heq
      rw [hmost] at heq
      cases heq
    · intro most heq
      cases heq
  | some most =>
    dsimp only
    split_ifs with habove
    · obtain ⟨k, hk, heq, hend, hbefore⟩ := trimToBudget_eq messages config most bases 0
        (markAll .limit ((ordered messages config).take (overLimit messages config))
          (dedupedEntries messages config))
        ((ordered messages config).drop (overLimit messages config))
      simp only [Nat.zero_add] at heq hend hbefore
      rw [List.length_drop] at hk hend
      refine ⟨k, k + 1, heq, ⟨hk, ?_, ?_⟩, fun _ _ _ => rfl⟩
      · rcases hend with hend | hend
        · exact .inl hend
        · right
          intro most' heq' _
          rw [hmost] at heq'
          cases heq'
          exact hend
      · intro j hj hmet
        exact hbefore j hj (hmet most hmost habove)
    · refine ⟨0, 0, rfl, hnobudget ?_, ?_⟩
      · intro most' heq
        rw [hmost] at heq
        cases heq
        exact Bool.eq_false_iff.mpr habove
      · intro most' heq habove'
        cases heq
        exact absurd habove' habove

theorem clear_cutEntries (messages : History) (config : ToolCallLimitConfig) (k : ℕ) :
    (cutEntries messages config k).map clear = (collectEntries messages).map clear := by
  unfold cutEntries dedupedEntries
  rw [clear_markAll, clear_markAll]
  dsimp only
  split_ifs
  · exact clear_dedupeEntries _ _
  · rfl

theorem sourced_of_mem {k : ℕ} {entry : ToolCallEntry}
    (h : entry ∈ cutEntries messages config k) : Sourced messages (clear entry) := by
  have hmem : clear entry ∈ (collectEntries messages).map clear := by
    rw [← clear_cutEntries messages config k]
    exact List.mem_map_of_mem h
  obtain ⟨first, hfirst, heq⟩ := List.mem_map.mp hmem
  have hsource := (collected messages).sourced first hfirst
  rw [← heq]
  exact ⟨rfl, hsource.call, hsource.orphan, hsource.output, hsource.reasoning⟩

theorem filterMap_clear {α : Type} {entries entries' : List ToolCallEntry}
    (h : entries.map clear = entries'.map clear) (g : ToolCallEntry → Option α)
    (hg : ∀ entry, g (clear entry) = g entry) : entries.filterMap g = entries'.filterMap g := by
  have hmap : ∀ l : List ToolCallEntry, l.filterMap g = (l.map clear).filterMap g := by
    intro l
    rw [List.filterMap_map]
    exact List.filterMap_congr fun entry _ => (hg entry).symm
  rw [hmap, h, ← hmap]

theorem callIndexes_cut (messages : History) (config : ToolCallLimitConfig) (k : ℕ) :
    (cutEntries messages config k).filterMap ToolCallEntry.callIndex =
      (collectEntries messages).filterMap ToolCallEntry.callIndex :=
  filterMap_clear (clear_cutEntries messages config k) _ fun _ => rfl

theorem clear_dedupedEntries (messages : History) (config : ToolCallLimitConfig) :
    (dedupedEntries messages config).map clear = (collectEntries messages).map clear := by
  unfold dedupedEntries
  dsimp only
  split_ifs
  · exact clear_dedupeEntries _ _
  · rfl

theorem callIndexes_deduped (messages : History) (config : ToolCallLimitConfig) :
    (dedupedEntries messages config).filterMap ToolCallEntry.callIndex =
      (collectEntries messages).filterMap ToolCallEntry.callIndex :=
  filterMap_clear (clear_dedupedEntries messages config) _ fun _ => rfl

/-- Two entries of one call are the same. -/
theorem entry_unique {entries : List ToolCallEntry} {entry entry' : ToolCallEntry}
    (h : (entries.filterMap ToolCallEntry.callIndex).Pairwise (· < ·)) (he : entry ∈ entries)
    (he' : entry' ∈ entries) (hi : entry.callIndex = some i) (hi' : entry'.callIndex = some i) :
    entry = entry' := by
  induction entries with
  | nil => cases he
  | cons first entries ih =>
    have hnotin : ∀ other ∈ entries, first.callIndex = some i → other.callIndex ≠ some i := by
      intro other hother hfirst hsame
      rw [List.filterMap_cons, hfirst] at h
      exact absurd ((List.pairwise_cons.mp h).1 i (mem_callIndexes.mpr ⟨other, hother, hsame⟩))
        (lt_irrefl i)
    have htail : (entries.filterMap ToolCallEntry.callIndex).Pairwise (· < ·) := by
      rw [List.filterMap_cons] at h
      cases hfirst : first.callIndex with
      | none => rwa [hfirst] at h
      | some n =>
        rw [hfirst] at h
        exact (List.pairwise_cons.mp h).2
    rcases List.mem_cons.mp he with rfl | hlater
    · rcases List.mem_cons.mp he' with rfl | hlater'
      · rfl
      · exact absurd hi' (hnotin entry' hlater' hi)
    · rcases List.mem_cons.mp he' with rfl | hlater'
      · exact absurd hi (hnotin entry hlater hi')
      · exact ih htail hlater hlater'

theorem deduped_pairwise (messages : History) (config : ToolCallLimitConfig) :
    ((dedupedEntries messages config).filterMap ToolCallEntry.callIndex).Pairwise (· < ·) := by
  rw [callIndexes_deduped]
  exact (collected messages).ordered

theorem cut_pairwise (messages : History) (config : ToolCallLimitConfig) (k : ℕ) :
    ((cutEntries messages config k).filterMap ToolCallEntry.callIndex).Pairwise (· < ·) := by
  rw [callIndexes_cut]
  exact (collected messages).ordered

theorem ordered_pairwise (messages : History) (config : ToolCallLimitConfig) :
    (ordered messages config).Pairwise (· < ·) := by
  have hsub : ((dedupedEntries messages config).filter fun entry =>
      entry.removalReason.isNone).filterMap ToolCallEntry.callIndex |>.Pairwise (· < ·) :=
    (deduped_pairwise messages config).sublist (List.Sublist.filterMap _ List.filter_sublist)
  unfold ordered orderedCalls
  rw [(hsub.imp fun h => le_of_lt h).insertionSort_eq]
  exact hsub

theorem mem_ordered : i ∈ ordered messages config ↔
    ∃ entry ∈ dedupedEntries messages config,
      entry.callIndex = some i ∧ entry.removalReason = none := by
  unfold ordered orderedCalls
  rw [List.mem_insertionSort, mem_callIndexes]
  constructor
  · rintro ⟨entry, hentry, hi⟩
    obtain ⟨hmem, hnone⟩ := List.mem_filter.mp hentry
    exact ⟨entry, hmem, hi, Option.isNone_iff_eq_none.mp hnone⟩
  · rintro ⟨entry, hmem, hi, hnone⟩
    exact ⟨entry, List.mem_filter.mpr ⟨hmem, Option.isNone_iff_eq_none.mpr hnone⟩, hi⟩

/-- In an increasing list what comes before an element of a front belongs to it. -/
theorem mem_take_of_lt {l : List ℕ} {k : ℕ} (h : l.Pairwise (· < ·)) (hi : i ∈ l)
    (hj : j ∈ l.take k) (hij : i < j) : i ∈ l.take k := by
  rw [← List.take_append_drop k l] at h hi
  rcases List.mem_append.mp hi with hi | hi
  · exact hi
  · exact absurd ((List.pairwise_append.mp h).2.2 j hj i hi) (by omega)

/-- The calls that the limit and the budget remove. -/
def cutCalls (messages : History) (config : ToolCallLimitConfig) (k : ℕ) : List ℕ :=
  (ordered messages config).take (overLimit messages config + k)

theorem cutCalls_eq (messages : History) (config : ToolCallLimitConfig) (k : ℕ) :
    cutCalls messages config k = (ordered messages config).take (overLimit messages config) ++
      ((ordered messages config).drop (overLimit messages config)).take k :=
  List.take_add

/-- The reason of an entry after trimming. -/
theorem cutEntries_eq (messages : History) (config : ToolCallLimitConfig) (k : ℕ) :
    cutEntries messages config k = (dedupedEntries messages config).map fun entry =>
      markOne .budget (((ordered messages config).drop (overLimit messages config)).take k)
        (markOne .limit ((ordered messages config).take (overLimit messages config)) entry) := by
  unfold cutEntries
  rw [markAll_eq, markAll_eq, List.map_map]
  rfl

theorem markOne_reason {reason : RemovalReason} {indexes : List ℕ} {entry : ToolCallEntry}
    (hi : entry.callIndex = some i) : (markOne reason indexes entry).removalReason =
      if i ∈ indexes then some reason else entry.removalReason := by
  unfold markOne
  rw [hi]
  dsimp only
  split_ifs <;> rfl

theorem markOne_callIndex {reason : RemovalReason} {indexes : List ℕ} {entry : ToolCallEntry} :
    (markOne reason indexes entry).callIndex = entry.callIndex := by
  unfold markOne
  split
  · split_ifs <;> rfl
  · rfl

/-- A call is trimmed when it is a duplicate or one of the calls that are cut. -/
theorem cut_removed_iff {k : ℕ} {entry : ToolCallEntry} (h : entry ∈ cutEntries messages config k)
    (hi : entry.callIndex = some i) : entry.removalReason.isSome = true ↔
      i ∉ ordered messages config ∨ i ∈ cutCalls messages config k := by
  rw [cutEntries_eq] at h
  obtain ⟨first, hfirst, rfl⟩ := List.mem_map.mp h
  rw [markOne_callIndex, markOne_callIndex] at hi
  rw [markOne_reason (by rw [markOne_callIndex, hi]), markOne_reason hi, cutCalls_eq,
    List.mem_append]
  have hordered : i ∈ ordered messages config ↔ first.removalReason = none := by
    rw [mem_ordered]
    constructor
    · rintro ⟨other, hother, hindex, hnone⟩
      rw [entry_unique (deduped_pairwise messages config) hfirst hother hi hindex, hnone]
    · exact fun hnone => ⟨first, hfirst, hi, hnone⟩
  by_cases hbudget : i ∈ ((ordered messages config).drop (overLimit messages config)).take k
  · simp [hbudget]
  · by_cases hlimit : i ∈ (ordered messages config).take (overLimit messages config)
    · simp [hbudget, hlimit]
    · simp [hbudget, hlimit, hordered, Option.isSome_iff_ne_none]

end Trimmed

section Layout

variable {messages : History} {config : ToolCallLimitConfig} {bases : ℕ → Units} {i : ℕ}
  {removed : List ℕ}

theorem retainFrom_map {α β : Type} (g : α → β) (removed : List ℕ) (index : ℕ) (items : List α) :
    retainFrom removed index (items.map g) = (retainFrom removed index items).map g := by
  induction items generalizing index with
  | nil => rfl
  | cons item items ih =>
    simp only [List.map_cons, retainFrom]
    split_ifs <;> simp [ih]

theorem map_insertIdx {α β : Type} (g : α → β) (items : List α) (n : ℕ) (x : α) :
    (items.insertIdx n x).map g = (items.map g).insertIdx n (g x) := by
  induction items generalizing n with
  | nil => cases n <;> rfl
  | cons item items ih =>
    cases n with
    | zero => rfl
    | succ n => simp [List.insertIdx_succ_cons, ih]

theorem replaceRemoved_map {α β : Type} (g : α → β) (removed : List ℕ) (summary : α)
    (items : List α) :
    replaceRemoved removed (g summary) (items.map g) = (replaceRemoved removed summary items).map g := by
  unfold replaceRemoved
  rw [retainFrom_map, map_insertIdx, List.length_map]

theorem retainFrom_range (removed : List ℕ) (index n : ℕ) :
    retainFrom removed index (List.range' index n) =
      (List.range' index n).filter (· ∉ removed) := by
  induction n generalizing index with
  | zero => rfl
  | succ n ih =>
    rw [List.range'_succ, retainFrom, ih, List.filter_cons]
    by_cases h : index ∈ removed <;> simp [h]

/-- The indexes of the items that stay. -/
def keptIndexes (removed : List ℕ) (n : ℕ) : List ℕ := (List.range n).filter (· ∉ removed)

theorem retainFrom_indexes (removed : List ℕ) (n : ℕ) :
    retainFrom removed 0 ((List.range n).map some) = (keptIndexes removed n).map some := by
  rw [retainFrom_map, List.range_eq_range', retainFrom_range]
  unfold keptIndexes
  rw [List.range_eq_range']

/-- Where the summary stands: before it are the kept items below the first removed one. -/
def summaryPlace (removed : List ℕ) (n : ℕ) : ℕ :=
  ((List.range (removed.foldl min n)).filter (· ∉ removed)).length

/-- The indexes of the resulting messages in the history; the summary has none. -/
def layout (messages : History) (config : ToolCallLimitConfig) (bases : ℕ → Units) :
    List (Option ℕ) :=
  let entries := (trimmedEntries messages config bases).1
  let indexes := (List.range messages.length).map some
  if hasRemoved entries then replaceRemoved (removeIndexes entries) none indexes else indexes

/-- The item at a place of the layout. -/
def itemAt (messages : History) (summary : JsonValue) : Option ℕ → JsonValue
  | some i => messages.getD i .null
  | none => summary

theorem map_itemAt (messages : History) (summary : JsonValue) :
    ((List.range messages.length).map some).map (itemAt messages summary) = messages := by
  rw [List.map_map]
  apply List.ext_getElem
  · simp
  · intro i hi hi'
    simp [itemAt, hi']

theorem foldl_min (l : List ℕ) (n : ℕ) : l.foldl min n ≤ n ∧ ∀ i ∈ l, l.foldl min n ≤ i := by
  induction l generalizing n with
  | nil => simp
  | cons k l ih =>
    obtain ⟨hstart, hall⟩ := ih (min n k)
    rw [List.foldl_cons]
    refine ⟨by omega, ?_⟩
    intro i hi
    rcases List.mem_cons.mp hi with rfl | hi
    · omega
    · exact hall i hi

theorem layout_eq (messages : History) (config : ToolCallLimitConfig) (bases : ℕ → Units) :
    layout messages config bases =
      let entries := (trimmedEntries messages config bases).1
      let kept := keptIndexes (removeIndexes entries) messages.length
      if hasRemoved entries then
        (kept.map some).insertIdx (summaryPlace (removeIndexes entries) messages.length) none
      else (List.range messages.length).map some := by
  unfold layout
  dsimp only
  split_ifs
  · unfold replaceRemoved
    dsimp only
    rw [retainFrom_indexes, List.length_map, List.length_range]
    rfl
  · rfl

/-- The resulting messages are the items of the layout, with one summary. -/
theorem messages_layout (messages : History) (config : ToolCallLimitConfig) (bases : ℕ → Units) :
    ∃ summary, (applyToolCallLimit messages config bases).messages =
      (layout messages config bases).map (itemAt messages summary) := by
  obtain ⟨entries, round, htrimmed⟩ : ∃ entries round,
      trimmedEntries messages config bases = (entries, round) := ⟨_, _, rfl⟩
  refine ⟨summaryMessage (bases round) (buildSummaryText entries config), ?_⟩
  unfold applyToolCallLimit layout
  rw [htrimmed]
  dsimp only
  by_cases hremoved : hasRemoved entries = true
  · rw [if_pos hremoved, if_pos hremoved, ← replaceRemoved_map, map_itemAt]
    simp only [buildTrimmedMessages, if_pos hremoved, itemAt]
  · rw [if_neg hremoved, if_neg hremoved, map_itemAt]

/-- An item of the history that is in the result. -/
def Retained (messages : History) (config : ToolCallLimitConfig) (bases : ℕ → Units) (i : ℕ) :
    Prop := some i ∈ layout messages config bases

theorem hasRemoved_iff {entries : List ToolCallEntry} :
    hasRemoved entries = true ↔ ∃ entry ∈ entries, entry.removalReason.isSome = true :=
  List.any_eq_true

theorem removeIndexes_nil {entries : List ToolCallEntry} (h : ¬ hasRemoved entries = true) :
    removeIndexes entries = [] := by
  unfold removeIndexes
  dsimp only
  have hnone : entries.filter (fun entry => entry.removalReason.isSome) = [] := by
    rw [List.filter_eq_nil_iff]
    intro entry hentry hsome
    exact h (hasRemoved_iff.mpr ⟨entry, hentry, hsome⟩)
  rw [hnone]
  rfl

theorem mem_insertIdx_some {l : List ℕ} {n : ℕ} : some i ∈ (l.map some).insertIdx n none ↔ i ∈ l := by
  constructor
  · intro h
    rcases List.eq_or_mem_of_mem_insertIdx h with h | h
    · cases h
    · simpa using h
  · intro h
    have hmem : some i ∈ l.map some := List.mem_map_of_mem h
    by_cases hn : n ≤ (l.map some).length
    · exact (List.mem_insertIdx hn).mpr (.inr hmem)
    · rw [List.insertIdx_of_length_lt (by omega)]
      exact hmem

theorem retained_iff : Retained messages config bases i ↔
    i < messages.length ∧ i ∉ removeIndexes (trimmedEntries messages config bases).1 := by
  unfold Retained
  rw [layout_eq]
  dsimp only
  split_ifs with h
  · rw [mem_insertIdx_some]
    simp [keptIndexes]
  · rw [removeIndexes_nil h]
    simp

end Layout

section Calls

variable {messages : History} {config : ToolCallLimitConfig} {bases : ℕ → Units} {i j k : ℕ}
  {raw : JsonValue}

theorem exists_entry (hraw : messages[i]? = some raw) (hcall : isCall raw) (hid : callId raw ≠ [])
    (config : ToolCallLimitConfig) (k : ℕ) :
    ∃ entry ∈ cutEntries messages config k, entry.callIndex = some i := by
  rw [← mem_callIndexes, callIndexes_cut]
  exact (collected messages).complete i raw hraw hcall hid

theorem mem_removeIndexes {entries : List ToolCallEntry} : i ∈ removeIndexes entries ↔
    ∃ entry ∈ entries, entry.removalReason.isSome = true ∧
      (entry.callIndex = some i ∨ entry.outputIndex = some i ∨ (entry.reasoningIndex = some i ∧
        ∀ kept ∈ entries, kept.removalReason = none → kept.reasoningIndex ≠ some i)) := by
  unfold removeIndexes
  simp only [List.mem_flatMap, List.mem_filter, List.mem_append, Option.mem_toList,
    List.mem_filterMap, decide_eq_true_eq, Option.isNone_iff_eq_none]
  constructor
  · rintro ⟨entry, ⟨hentry, hsome⟩, (h | h) | ⟨h, hkept⟩⟩
    · exact ⟨entry, hentry, hsome, .inl h⟩
    · exact ⟨entry, hentry, hsome, .inr (.inl h)⟩
    · refine ⟨entry, hentry, hsome, .inr (.inr ⟨h, ?_⟩)⟩
      intro kept hmem hnone hsame
      exact hkept ⟨kept, ⟨hmem, hnone⟩, hsame⟩
  · rintro ⟨entry, hentry, hsome, h | h | ⟨h, hkept⟩⟩
    · exact ⟨entry, ⟨hentry, hsome⟩, .inl (.inl h)⟩
    · exact ⟨entry, ⟨hentry, hsome⟩, .inl (.inr h)⟩
    · refine ⟨entry, ⟨hentry, hsome⟩, .inr ⟨h, ?_⟩⟩
      rintro ⟨kept, ⟨hmem, hnone⟩, hsame⟩
      exact hkept kept hmem hnone hsame

/-- A call is retained when it is none of the duplicates and none of the calls that are cut. -/
theorem retained_call (hraw : messages[i]? = some raw) (hcall : isCall raw) (hid : callId raw ≠ [])
    {round : ℕ} (htrimmed : trimmedEntries messages config bases =
      (cutEntries messages config k, round)) :
    Retained messages config bases i ↔
      i ∈ ordered messages config ∧ i ∉ cutCalls messages config k := by
  obtain ⟨entry, hentry, hindex⟩ := exists_entry hraw hcall hid config k
  have hremoved := cut_removed_iff hentry hindex
  rw [retained_iff, htrimmed, mem_removeIndexes]
  have hlt : i < messages.length := (List.getElem?_eq_some_iff.mp hraw).1
  have hkind : ∀ {other : JsonValue}, messages[i]? = some other → isCall other := by
    intro other hother
    rw [hraw] at hother
    cases hother
    exact hcall
  constructor
  · rintro ⟨_, hnot⟩
    by_contra hout
    refine hnot ⟨entry, hentry, hremoved.mpr ?_, .inl hindex⟩
    by_contra hin
    push Not at hin
    exact hout hin
  · rintro ⟨hin, hnotcut⟩
    refine ⟨hlt, ?_⟩
    rintro ⟨other, hother, hsome, h | h | ⟨h, _⟩⟩
    · rcases (cut_removed_iff hother h).mp hsome with h | h
      · exact h hin
      · exact hnotcut h
    · obtain ⟨item, hitem, hkindo, _⟩ := (sourced_of_mem hother).output i h
      exact (hkind hitem).not_output hkindo
    · obtain ⟨item, hitem, hkindr⟩ := (sourced_of_mem hother).reasoning i h
      exact (hkind hitem).not_reasoning hkindr

/-- Among the calls that are no duplicates the oldest are removed first. -/
theorem retained_newer (hi : i ∈ ordered messages config) (hij : i < j)
    (hnotcut : i ∉ cutCalls messages config k) : j ∉ cutCalls messages config k :=
  fun hcut => hnotcut (mem_take_of_lt (ordered_pairwise messages config) hi hcut hij)

end Calls

end Piclaw.ToolCallLimit
