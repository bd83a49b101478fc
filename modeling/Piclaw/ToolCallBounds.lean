import Piclaw.ToolCallDuplicates

/-!
# The bounds of a trimmed history

In a history whose calls have ids of their own and at most one later output each, an output's entry
is its call's, so that both stay or go together; the limit bounds the calls that stay, and the loop
of the budget ends within it or without a call.
-/

namespace Piclaw.ToolCallLimit

open CanonicalText

section Pairs

variable {messages : History} {c : Collection} {raw : JsonValue}

/-- Distinct call ids, and at most one output for each call, after it. -/
structure WellFormed (messages : History) : Prop where
  ids : ∀ (i : ℕ) raw, messages[i]? = some raw → isCall raw → callId raw ≠ []
  distinct : ∀ (i j : ℕ) raw raw', messages[i]? = some raw → messages[j]? = some raw' → isCall raw →
    isCall raw' → callId raw = callId raw' → i = j
  after : ∀ (i j : ℕ) raw raw', messages[i]? = some raw → messages[j]? = some raw' → isCall raw →
    isOutput raw' → outputId raw' = callId raw → i < j
  single : ∀ (i j j' : ℕ) raw raw' raw'', messages[i]? = some raw → messages[j]? = some raw' →
    messages[j']? = some raw'' → isCall raw → isOutput raw' → isOutput raw'' →
      outputId raw' = callId raw → outputId raw'' = callId raw → j = j'

theorem WellFormed.front (h : WellFormed (messages ++ [raw])) : WellFormed messages where
  ids i raw' hraw := h.ids i raw' (getElem?_snoc hraw)
  distinct i j raw' raw'' hraw hraw' := h.distinct i j raw' raw'' (getElem?_snoc hraw)
    (getElem?_snoc hraw')
  after i j raw' raw'' hraw hraw' := h.after i j raw' raw'' (getElem?_snoc hraw)
    (getElem?_snoc hraw')
  single i j j' raw₁ raw₂ raw₃ h₁ h₂ h₃ := h.single i j j' raw₁ raw₂ raw₃ (getElem?_snoc h₁)
    (getElem?_snoc h₂) (getElem?_snoc h₃)

/-- Each call id has one entry, and a call's entry knows its output. -/
structure Wired (messages : History) (c : Collection) : Prop where
  nodup : (c.entries.map ToolCallEntry.callId).Nodup
  missing : ∀ id, c.find id = none → ∀ entry ∈ c.entries, entry.callId ≠ id
  orphan : ∀ entry ∈ c.entries, entry.callIndex = none → ∃ j, entry.outputIndex = some j
  outputs : ∀ (i j : ℕ) raw raw', messages[i]? = some raw → messages[j]? = some raw' → isCall raw →
    isOutput raw' → outputId raw' = callId raw → ∀ entry ∈ c.entries,
      entry.callIndex = some i → entry.outputIndex = some j

theorem lt_of_getElem? {α : Type} {l : List α} {x : α} {i : ℕ} (h : l[i]? = some x) :
    i < l.length := (List.getElem?_eq_some_iff.mp h).1

/-- An item of a history with one more is that one or one of the history. -/
theorem getElem?_snoc_cases {α : Type} {front : List α} {x y : α} {i : ℕ}
    (h : (front ++ [x])[i]? = some y) : front[i]? = some y ∨ (i = front.length ∧ x = y) := by
  by_cases hlt : i < front.length
  · rw [List.getElem?_append_left hlt] at h
    exact .inl h
  · have hi := lt_of_getElem? h
    rw [List.length_append, List.length_singleton] at hi
    have heq : i = front.length := by omega
    subst heq
    rw [getElem?_snoc_length] at h
    exact .inr ⟨rfl, Option.some.inj h⟩

theorem eq_of_callId {entries : List ToolCallEntry} {entry entry' : ToolCallEntry}
    (h : (entries.map ToolCallEntry.callId).Nodup) (he : entry ∈ entries) (he' : entry' ∈ entries)
    (hid : entry.callId = entry'.callId) : entry = entry' :=
  List.inj_on_of_nodup_map h he he' hid

theorem Wired.snoc_same (h : Wired messages c) (houtput : ¬ isOutput raw)
    (hcall : ¬ isCall raw) (reasoningItems : List ReasoningEntry) :
    Wired (messages ++ [raw]) { c with reasoningItems := reasoningItems } where
  nodup := h.nodup
  missing := h.missing
  orphan := h.orphan
  outputs i j item item' hitem hitem' hkind hkind' hid entry hentry hindex := by
    rcases getElem?_snoc_cases hitem with hitem | ⟨_, rfl⟩
    · rcases getElem?_snoc_cases hitem' with hitem' | ⟨_, rfl⟩
      · exact h.outputs i j item item' hitem hitem' hkind hkind' hid entry hentry hindex
      · exact absurd hkind' houtput
    · exact absurd hkind hcall

theorem Wired.add (h : Wired messages c) (hc : Collected messages c)
    {entry : ToolCallEntry} (hfresh : ∀ other ∈ c.entries, other.callId ≠ entry.callId)
    (horphan : entry.callIndex = none → ∃ j, entry.outputIndex = some j)
    (houtputs : ∀ (i j : ℕ) item item', (messages ++ [raw])[i]? = some item →
      (messages ++ [raw])[j]? = some item' → isCall item → isOutput item' →
        outputId item' = callId item → entry.callIndex = some i → entry.outputIndex = some j)
    (hold : ∀ (i : ℕ) item, messages[i]? = some item → isCall item → isOutput raw →
      outputId raw ≠ callId item) : Wired (messages ++ [raw]) (c.add entry) where
  nodup := by
    change ((c.entries ++ [entry]).map _).Nodup
    rw [List.map_append, List.nodup_append]
    refine ⟨h.nodup, List.nodup_singleton _, ?_⟩
    intro id hid id' hid'
    obtain ⟨other, hother, rfl⟩ := List.mem_map.mp hid
    rw [List.map_singleton, List.mem_singleton] at hid'
    rw [hid']
    exact hfresh other hother
  missing id hnone other hother := by
    rw [Collection.find_add] at hnone
    split_ifs at hnone with hid
    rcases List.mem_append.mp hother with hother | hother
    · exact h.missing id hnone other hother
    · rw [List.mem_singleton.mp hother]
      exact hid
  orphan other hother hnone := by
    rcases List.mem_append.mp hother with hother | hother
    · exact h.orphan other hother hnone
    · rw [List.mem_singleton.mp hother] at hnone ⊢
      exact horphan hnone
  outputs i j item item' hitem hitem' hkind hkind' hid other hother hindex := by
    rcases List.mem_append.mp hother with hother | hother
    · obtain ⟨item'', hitem'', hkind'', _⟩ := (hc.sourced other hother).call i hindex
      have hsame : item'' = item := by
        have heq := @getElem?_snoc _ messages raw item'' i hitem''
        rw [hitem] at heq
        exact (Option.some.inj heq).symm
      subst hsame
      rcases getElem?_snoc_cases hitem' with hitem' | ⟨_, rfl⟩
      · exact h.outputs i j item'' item' hitem'' hitem' hkind hkind' hid other hother hindex
      · exact absurd hid (hold i item'' hitem'' hkind hkind')
    · rw [List.mem_singleton.mp hother] at hindex ⊢
      exact houtputs i j item item' hitem hitem' hkind hkind' hid hindex

theorem wired {messages : History} (hwell : WellFormed messages) :
    Wired messages (collectFrom emptyCollection 0 messages) := by
  have hboth : Collected messages (collectFrom emptyCollection 0 messages) ∧
      (WellFormed messages → Wired messages (collectFrom emptyCollection 0 messages)) := by
    refine ⟨collected messages, ?_⟩
    clear hwell
    induction messages using List.reverseRecOn with
    | nil =>
      intro _
      refine ⟨?_, ?_, ?_, ?_⟩ <;> simp [collectFrom, emptyCollection]
    | append_singleton front raw ih =>
      intro hwell
      have h := ih hwell.front
      have hc := collected front
      rw [collectFrom_append, Nat.zero_add]
      have hstep := collectItem_step (collectFrom emptyCollection 0 front) raw front.length
      change Wired _ (collectItem _ raw front.length)
      revert h hc hstep
      generalize collectFrom emptyCollection 0 front = c
      generalize collectItem c raw front.length = c'
      intro h hc hstep
      have hself : (front ++ [raw])[front.length]? = some raw := getElem?_snoc_length _ _
      cases hstep with
      | other hcall hreasoning houtput =>
        have hnotcall : ¬ isCall raw := fun hkind => hcall ⟨hkind, hwell.ids _ raw hself hkind⟩
        by_cases hkind : isOutput raw
        · -- an output without an id belongs to no call
          have hnil : outputId raw = [] := not_not.mp fun hne => houtput ⟨hkind, hne⟩
          refine ⟨h.nodup, h.missing, h.orphan, ?_⟩
          intro i j item item' hitem hitem' hki hkj hid entry hentry hindex
          rcases getElem?_snoc_cases hitem with hitem | ⟨_, rfl⟩
          · rcases getElem?_snoc_cases hitem' with hitem' | ⟨_, rfl⟩
            · exact h.outputs i j item item' hitem hitem' hki hkj hid entry hentry hindex
            · exact absurd (hid.symm.trans hnil) (hwell.ids i item (getElem?_snoc hitem) hki)
          · exact absurd hki hnotcall
        · exact h.snoc_same hkind hnotcall c.reasoningItems
      | reasoning hkind =>
        exact h.snoc_same (fun houtput => houtput.not_reasoning hkind)
          (fun hcall => hcall.not_reasoning hkind) _
      | call hkind hid =>
        have hcbase : Collected front { c with reasoningItems := pairedItems c raw } := by
          refine ⟨hc.sourced, hc.ordered, hc.complete, ?_, hc.keys, hc.found⟩
          intro r hr
          unfold pairedItems pairAt at hr
          split at hr
          · obtain ⟨entry, hentry, rfl⟩ := List.mem_map.mp hr
            have hsame : ∀ i, (pair i entry).index = entry.index := by
              intro i
              unfold pair
              split_ifs <;> rfl
            rw [hsame]
            exact hc.reasoned entry hentry
          · exact hc.reasoned r hr
        have hbase : Wired front { c with reasoningItems := pairedItems c raw } :=
          ⟨h.nodup, h.missing, h.orphan, h.outputs⟩
        refine hbase.add hcbase ?_ ?_ ?_ ?_
        · intro other hother hsame
          have hsource := hc.sourced other hother
          cases hindex : other.callIndex with
          | some i =>
            obtain ⟨item, hitem, hcall, hidi, _⟩ := hsource.call i hindex
            have heq := hwell.distinct i front.length item raw (getElem?_snoc hitem) hself hcall hkind
              (hidi.trans hsame)
            have hlt := lt_of_getElem? hitem
            omega
          | none =>
            obtain ⟨j, hj⟩ := h.orphan other hother hindex
            obtain ⟨item, hitem, hout, hidj⟩ := hsource.output j hj
            have hlt := hwell.after front.length j raw item hself (getElem?_snoc hitem) hkind hout
              (hidj.trans hsame)
            have hlt' := lt_of_getElem? hitem
            omega
        · intro hnone
          cases hnone
        · intro i j item item' hitem hitem' hki hkj hidij hindex
          cases hindex
          have heq : raw = item := by
            rw [hself] at hitem
            exact Option.some.inj hitem
          subst heq
          have hlt := hwell.after _ j raw item' hself hitem' hki hkj hidij
          have hlt' := lt_of_getElem? hitem'
          rw [List.length_append, List.length_singleton] at hlt'
          omega
        · intro i item hitem hki hout
          exact absurd hout hkind.not_output
      | @output hkind hid position hfind =>
        obtain ⟨owner, howner, hownerId⟩ := hc.found _ _ hfind
        have hids : (c.entries.modify position (withOutput raw front.length)).map
            ToolCallEntry.callId = c.entries.map ToolCallEntry.callId := by
          apply map_modify_of_eq
          intro entry
          rfl
        refine ⟨hids.symm ▸ h.nodup, ?_, ?_, ?_⟩
        · intro id hnone entry hentry
          rcases mem_modify hentry with hentry | ⟨found, hfound, rfl⟩
          · exact h.missing id hnone entry hentry
          · exact h.missing id hnone found (List.mem_of_getElem? hfound)
        · intro entry hentry hnone
          rcases mem_modify hentry with hentry | ⟨found, hfound, rfl⟩
          · exact h.orphan entry hentry hnone
          · exact ⟨front.length, rfl⟩
        · intro i j item item' hitem hitem' hki hkj hidij entry hentry hindex
          have hitem : front[i]? = some item := by
            rcases getElem?_snoc_cases hitem with hitem | ⟨_, rfl⟩
            · exact hitem
            · exact absurd hkind hki.not_output
          have hmem := hentry
          rcases mem_modify hentry with hentry | ⟨found, hfound, rfl⟩
          · rcases getElem?_snoc_cases hitem' with hitem' | ⟨hj, rfl⟩
            · exact h.outputs i j item item' hitem hitem' hki hkj hidij entry hentry hindex
            · -- the entry of the call is the one that has been changed
              subst hj
              obtain ⟨item'', hitem'', _, hidi, _⟩ := (hc.sourced entry hentry).call i hindex
              rw [hitem] at hitem''
              cases hitem''
              have hchanged : withOutput raw front.length owner ∈
                  c.entries.modify position (withOutput raw front.length) := by
                apply List.mem_of_getElem? (i := position)
                rw [List.getElem?_modify, howner]
                simp
              rw [eq_of_callId (hids.symm ▸ h.nodup) hmem hchanged
                (hidi.symm.trans (hidij.symm.trans hownerId.symm))]
              rfl
          · rw [howner] at hfound
            cases hfound
            obtain ⟨item'', hitem'', hki'', hidi, _⟩ :=
              (hc.sourced owner (List.mem_of_getElem? howner)).call i hindex
            rw [hitem] at hitem''
            cases hitem''
            have heq := hwell.single i j front.length item item' raw (getElem?_snoc hitem) hitem' hself
              hki hkj hkind hidij (hownerId.symm.trans hidi.symm)
            rw [heq]
            rfl
      | orphan hkind hid hfind =>
        refine h.add hc ?_ (fun _ => ⟨front.length, rfl⟩) ?_ ?_
        · intro other hother
          exact h.missing _ hfind other hother
        · intro i j item item' _ _ _ _ _ hindex
          cases hindex
        · intro i item hitem hki _ hsame
          obtain ⟨entry, hentry, hindex⟩ := mem_callIndexes.mp (hc.complete i item hitem hki
            (hwell.ids i item (getElem?_snoc hitem) hki))
          obtain ⟨item', hitem', _, hidi, _⟩ := (hc.sourced entry hentry).call i hindex
          rw [hitem] at hitem'
          cases hitem'
          exact h.missing _ hfind entry hentry (hidi.symm.trans hsame.symm)
  exact hboth.2 hwell

end Pairs

section Sizes

variable {messages : History} {config : ToolCallLimitConfig}

theorem length_joined (separator : ℕ) {texts texts' : List Units}
    (h : texts.map List.length = texts'.map List.length) :
    ([separator].intercalate texts).length = ([separator].intercalate texts').length := by
  induction texts generalizing texts' with
  | nil =>
    rw [List.map_nil, eq_comm, List.map_eq_nil_iff] at h
    rw [h]
  | cons text texts ih =>
    cases texts' with
    | nil => cases h
    | cons text' texts' =>
      rw [List.map_cons, List.map_cons, List.cons.injEq] at h
      have hrest := ih h.2
      cases texts with
      | nil =>
        cases texts' with
        | nil => simpa [List.intercalate] using h.1
        | cons _ _ => cases h.2
      | cons next texts =>
        cases texts' with
        | nil => cases h.2
        | cons next' texts' =>
          simp only [List.intercalate, List.intersperse_cons_cons, List.flatten_cons, List.length_append,
            List.length_singleton] at hrest ⊢
          rw [h.1, hrest]

theorem length_enclosed (opening closing : ℕ) {texts texts' : List Units}
    (h : texts.map List.length = texts'.map List.length) :
    (enclosed opening closing texts).length = (enclosed opening closing texts').length := by
  unfold enclosed
  rw [List.length_cons, List.length_cons, List.length_append, List.length_append, length_joined 44 h]

theorem stringifyItems_eq (items : List JsonValue) :
    stringifyItems items = items.map stringify := by
  induction items with
  | nil => rfl
  | cons item items ih => rw [stringifyItems, ih, List.map_cons]

/-- The size of a summary is that of its text and its id. -/
theorem length_summaryMessage {base base' : Units} (summaryText : Units)
    (h : (quote (summaryIdOf base)).length = (quote (summaryIdOf base')).length) :
    (stringify (summaryMessage base summaryText)).length =
      (stringify (summaryMessage base' summaryText)).length := by
  unfold summaryMessage
  rw [stringify, stringify]
  apply length_enclosed
  simp only [field, stringifyEntries, List.map_cons, List.map_nil, List.length_append,
    List.length_cons, stringify, h]

/-- The estimate of a trimmed history does not depend on the summary's id. -/
theorem estimate_bases {base base' : Units} (entries : List ToolCallEntry)
    (h : (quote (summaryIdOf base)).length = (quote (summaryIdOf base')).length) :
    estimateAzureRequestTokens (buildTrimmedMessages messages entries config base) =
      estimateAzureRequestTokens (buildTrimmedMessages messages entries config base') := by
  unfold buildTrimmedMessages
  split_ifs
  · unfold estimateAzureRequestTokens
    have hlengths : ∀ base : Units, (stringifyItems (replaceRemoved (removeIndexes entries)
        (summaryMessage base (buildSummaryText entries config)) messages)).map List.length =
          replaceRemoved (removeIndexes entries)
            (stringify (summaryMessage base (buildSummaryText entries config))).length
            (messages.map fun item => (stringify item).length) := by
      intro base
      rw [stringifyItems_eq, List.map_map, ← replaceRemoved_map]
      rfl
    rw [stringify, stringify, length_enclosed 91 93 ((hlengths base).trans _)]
    rw [hlengths base', length_summaryMessage _ h]
  · rfl

theorem ConfigNumber.atLeast_excess {limit : ConfigNumber} {n : ℕ} (h : limit.above 0 = true) :
    limit.atLeast (n - if limit.above 0 && limit.below n then limit.excess n else 0) = true := by
  rw [h, Bool.true_and]
  cases limit with
  | notANumber => cases h
  | infinite negative => simpa [above, atLeast, below] using h
  | finite x =>
    simp only [below, excess, atLeast, decide_eq_true_eq]
    have hpos : 0 < x := by simpa [above] using h
    split_ifs with hbelow
    · have hceil : (n : ℚ) - x ≤ (⌈(n : ℚ) - x⌉.toNat : ℚ) := by
        have hle := Int.le_ceil ((n : ℚ) - x)
        have htoNat : (⌈(n : ℚ) - x⌉ : ℤ) ≤ (⌈(n : ℚ) - x⌉.toNat : ℤ) := Int.self_le_toNat _
        exact hle.trans (by exact_mod_cast htoNat)
      rcases Nat.le_total ⌈(n : ℚ) - x⌉.toNat n with hle | hle
      · rw [Nat.cast_sub hle]
        linarith
      · rw [Nat.sub_eq_zero_of_le hle, Nat.cast_zero]
        exact hpos.le
    · rw [Nat.sub_zero]
      exact not_lt.mp hbelow

theorem ConfigNumber.atLeast_mono {x : ConfigNumber} {m n : ℕ} (h : x.atLeast n = true)
    (hmn : m ≤ n) : x.atLeast m = true := by
  cases x with
  | notANumber => cases h
  | infinite negative => exact h
  | finite x =>
    simp only [atLeast, decide_eq_true_eq] at h ⊢
    exact le_trans (by exact_mod_cast hmn) h

end Sizes

section Soundness

variable {messages : History} {config : ToolCallLimitConfig} {bases : ℕ → Units} {i j k : ℕ}

/-- The calls of a history. -/
def callsOf (messages : History) : List ℕ :=
  (List.range messages.length).filter fun i => messages[i]?.any fun raw => decide (isCall raw)

/-- The calls that are in the result. -/
def retainedCalls (messages : History) (config : ToolCallLimitConfig) (bases : ℕ → Units) :
    List ℕ :=
  (callsOf messages).filter fun i => some i ∈ layout messages config bases

/-- A call that the limit or the budget has removed. -/
def RemovedAsOldest (messages : History) (config : ToolCallLimitConfig) (bases : ℕ → Units)
    (j : ℕ) : Prop :=
  ∃ entry ∈ (trimmedEntries messages config bases).1, entry.callIndex = some j ∧
    (entry.removalReason = some .limit ∨ entry.removalReason = some .budget)

/-- What trimming promises of its result. -/
structure SoundlyTrimmed (messages : History) (config : ToolCallLimitConfig)
    (bases : ℕ → Units) : Prop where
  items : ∃ summary, (applyToolCallLimit messages config bases).messages =
    (layout messages config bases).map (itemAt messages summary)
  order : ((layout messages config bases).filterMap id).Pairwise (· < ·)
  summaries : (layout messages config bases).count none =
    if (applyToolCallLimit messages config bases).toolCallRemoved = 0 then 0 else 1
  complete : (applyToolCallLimit messages config bases).toolCallRemoved = 0 →
    (applyToolCallLimit messages config bases).messages = messages
  pairs : ∀ (i j : ℕ) raw raw', messages[i]? = some raw → messages[j]? = some raw' →
    isCall raw → isOutput raw' → outputId raw' = callId raw →
      (Retained messages config bases i ↔ Retained messages config bases j)
  others : ∀ (i : ℕ) raw, messages[i]? = some raw → ¬ isCall raw → ¬ isOutput raw →
    ¬ isReasoning raw → Retained messages config bases i
  limit : config.limit.above 0 →
    config.limit.atLeast (retainedCalls messages config bases).length
  budget : ∀ most, config.maxEstimatedTokens = some most → most.above 0 →
    most.atLeast (applyToolCallLimit messages config bases).estimatedTokensAfterTrim ∨
      retainedCalls messages config bases = []
  total : (applyToolCallLimit messages config bases).toolCallTotal = (callsOf messages).length
  kept : (applyToolCallLimit messages config bases).toolCallKept =
    (retainedCalls messages config bases).length
  counts : (applyToolCallLimit messages config bases).toolCallKept +
    (applyToolCallLimit messages config bases).toolCallRemoved =
      (applyToolCallLimit messages config bases).toolCallTotal
  oldest : ∀ (i j : ℕ) raw, messages[i]? = some raw → isCall raw → i < j →
    RemovedAsOldest messages config bases j → ¬ Retained messages config bases i

theorem mem_callsOf : i ∈ callsOf messages ↔ ∃ raw, messages[i]? = some raw ∧ isCall raw := by
  unfold callsOf
  rw [List.mem_filter, List.mem_range, Option.any_eq_true]
  constructor
  · rintro ⟨_, raw, hraw, hcall⟩
    exact ⟨raw, hraw, of_decide_eq_true hcall⟩
  · rintro ⟨raw, hraw, hcall⟩
    exact ⟨lt_of_getElem? hraw, raw, hraw, decide_eq_true hcall⟩

theorem nodup_callsOf (messages : History) : (callsOf messages).Nodup := List.nodup_range.filter _

theorem filterMap_insertIdx_none (l : List (Option ℕ)) (n : ℕ) :
    (l.insertIdx n none).filterMap id = l.filterMap id := by
  induction l generalizing n with
  | nil => cases n <;> rfl
  | cons x l ih =>
    cases n with
    | zero => rfl
    | succ n =>
      rw [List.insertIdx_succ_cons, List.filterMap_cons, List.filterMap_cons, ih]

theorem count_insertIdx_none {l : List (Option ℕ)} {n : ℕ} (h : n ≤ l.length) :
    (l.insertIdx n none).count none = l.count none + 1 := by
  induction l generalizing n with
  | nil =>
    rw [Nat.le_zero.mp h]
    rfl
  | cons x l ih =>
    cases n with
    | zero => simp
    | succ n =>
      rw [List.insertIdx_succ_cons, List.count_cons, List.count_cons, ih (Nat.le_of_succ_le_succ h)]
      omega

theorem summaryPlace_le (removed : List ℕ) (n : ℕ) :
    summaryPlace removed n ≤ (keptIndexes removed n).length := by
  unfold summaryPlace keptIndexes
  exact ((List.range_sublist.mpr (foldl_min removed n).1).filter _).length_le

/-- Only calls are removed. -/
theorem callIndex_of_removed {entry : ToolCallEntry} (h : entry ∈ cutEntries messages config k)
    (hremoved : entry.removalReason.isSome = true) : ∃ i, entry.callIndex = some i := by
  cases hindex : entry.callIndex with
  | some i => exact ⟨i, rfl⟩
  | none =>
    exfalso
    rw [cutEntries_eq] at h
    obtain ⟨first, hfirst, rfl⟩ := List.mem_map.mp h
    rw [markOne_callIndex, markOne_callIndex] at hindex
    have hsame : ∀ reason indexes, markOne reason indexes first = first := by
      intro reason indexes
      unfold markOne
      rw [hindex]
    rw [hsame, hsame] at hremoved
    obtain ⟨p, hp⟩ := List.mem_iff_getElem?.mp hfirst
    unfold dedupedEntries at hp
    dsimp only at hp
    split_ifs at hp
    · rw [dedupeEntries_getElem?, Option.map_eq_some_iff] at hp
      obtain ⟨source, hsource, heq⟩ := hp
      have hsourced := (collected messages).sourced source (List.mem_of_getElem? hsource)
      split_ifs at heq with hkey
      · obtain ⟨key, hkey, _⟩ := hkey
        rw [← heq] at hindex
        unfold dedupeKey searchKey at hkey
        rw [(hsourced.orphan hindex).1] at hkey
        simp at hkey
      · rw [← heq, hsourced.fresh] at hremoved
        cases hremoved
    · have hsourced := (collected messages).sourced first (List.mem_of_getElem? hp)
      rw [hsourced.fresh] at hremoved
      cases hremoved

theorem removedCalls_eq_zero {entries : List ToolCallEntry}
    (h : ∀ entry ∈ entries, entry.removalReason.isSome = true → ∃ i, entry.callIndex = some i) :
    (removedCalls entries).length = 0 ↔ ¬ hasRemoved entries = true := by
  rw [hasRemoved_iff, List.length_eq_zero_iff]
  unfold removedCalls
  rw [List.filter_eq_nil_iff]
  constructor
  · rintro hnone ⟨entry, hentry, hremoved⟩
    obtain ⟨i, hi⟩ := h entry hentry hremoved
    exact hnone entry hentry (by rw [hremoved, hi]; rfl)
  · intro hnone entry hentry hboth
    exact hnone ⟨entry, hentry, (Bool.and_eq_true _ _ ▸ hboth).1⟩

theorem callCount_split (entries : List ToolCallEntry) :
    ((entries.filter fun entry => entry.removalReason.isNone).filterMap
      ToolCallEntry.callIndex).length + (removedCalls entries).length = callCount entries := by
  unfold removedCalls callCount
  induction entries with
  | nil => rfl
  | cons entry entries ih =>
    cases hreason : entry.removalReason <;> cases hindex : entry.callIndex <;>
      simp [hreason, hindex] <;> omega

theorem callCount_eq (entries : List ToolCallEntry) :
    callCount entries = (entries.filterMap ToolCallEntry.callIndex).length := by
  unfold callCount
  induction entries with
  | nil => rfl
  | cons entry entries ih =>
    cases hindex : entry.callIndex <;> simp [hindex, ih]

/-- The fields of the result that count calls and tokens. -/
theorem result_fields {entries : List ToolCallEntry} {round : ℕ}
    (htrimmed : trimmedEntries messages config bases = (entries, round)) :
    (applyToolCallLimit messages config bases).toolCallTotal = callCount (collectEntries messages) ∧
      (applyToolCallLimit messages config bases).toolCallRemoved =
        (if hasRemoved entries then (removedCalls entries).length else 0) ∧
      (applyToolCallLimit messages config bases).toolCallKept =
        callCount (collectEntries messages) -
          (if hasRemoved entries then (removedCalls entries).length else 0) ∧
      (applyToolCallLimit messages config bases).estimatedTokensAfterTrim =
        estimateAzureRequestTokens (buildTrimmedMessages messages entries config (bases round)) := by
  unfold applyToolCallLimit
  rw [htrimmed]
  dsimp only
  split_ifs with hremoved
  · exact ⟨rfl, rfl, rfl, rfl⟩
  · refine ⟨rfl, rfl, rfl, ?_⟩
    unfold buildTrimmedMessages
    rw [if_neg hremoved]

theorem exists_collected {entry : ToolCallEntry}
    (h : entry ∈ cutEntries messages config k) : ∃ first ∈ collectEntries messages,
      clear first = clear entry := by
  have hmem : clear entry ∈ (collectEntries messages).map clear := by
    rw [← clear_cutEntries messages config k]
    exact List.mem_map_of_mem h
  exact List.mem_map.mp hmem

theorem cut_callId_nodup (hwell : WellFormed messages) :
    ((cutEntries messages config k).map ToolCallEntry.callId).Nodup := by
  have hids : ∀ entries : List ToolCallEntry,
      entries.map ToolCallEntry.callId = (entries.map clear).map ToolCallEntry.callId := by
    intro entries
    rw [List.map_map]
    rfl
  rw [hids, clear_cutEntries, ← hids]
  exact (wired hwell).nodup

theorem mem_retainedCalls {round : ℕ} (hwell : WellFormed messages)
    (htrimmed : trimmedEntries messages config bases = (cutEntries messages config k, round)) :
    i ∈ retainedCalls messages config bases ↔
      i ∈ ordered messages config ∧ i ∉ cutCalls messages config k := by
  unfold retainedCalls
  rw [List.mem_filter, mem_callsOf, decide_eq_true_eq]
  constructor
  · rintro ⟨⟨raw, hraw, hcall⟩, hkept⟩
    exact (retained_call hraw hcall (hwell.ids i raw hraw hcall) htrimmed).mp hkept
  · intro hin
    obtain ⟨entry, hentry, hindex, _⟩ := mem_ordered.mp hin.1
    have hmem : i ∈ (collectEntries messages).filterMap ToolCallEntry.callIndex := by
      rw [← callIndexes_deduped messages config]
      exact mem_callIndexes.mpr ⟨entry, hentry, hindex⟩
    obtain ⟨first, hfirst, hfirst'⟩ := mem_callIndexes.mp hmem
    obtain ⟨raw, hraw, hcall, _, hid, _⟩ := ((collected messages).sourced first hfirst).call i hfirst'
    exact ⟨⟨raw, hraw, hcall⟩, (retained_call hraw hcall hid htrimmed).mpr hin⟩

theorem nodup_retainedCalls : (retainedCalls messages config bases).Nodup :=
  (nodup_callsOf messages).filter _

/-- The retained calls are those whose entries have no reason. -/
theorem length_retainedCalls {round : ℕ} (hwell : WellFormed messages)
    (htrimmed : trimmedEntries messages config bases = (cutEntries messages config k, round)) :
    (retainedCalls messages config bases).length =
      (((cutEntries messages config k).filter fun entry =>
        entry.removalReason.isNone).filterMap ToolCallEntry.callIndex).length := by
  have hnodup : (((cutEntries messages config k).filter fun entry =>
      entry.removalReason.isNone).filterMap ToolCallEntry.callIndex).Nodup := by
    have hpair := (cut_pairwise messages config k).sublist
      (List.Sublist.filterMap ToolCallEntry.callIndex (List.filter_sublist (p := fun entry =>
        entry.removalReason.isNone)))
    exact hpair.imp fun h => ne_of_lt h
  apply List.Perm.length_eq
  rw [List.perm_ext_iff_of_nodup nodup_retainedCalls hnodup]
  intro i
  rw [mem_retainedCalls hwell htrimmed, mem_callIndexes]
  constructor
  · intro hin
    obtain ⟨entry, hentry, hindex, _⟩ := mem_ordered.mp hin.1
    have hmem : i ∈ (cutEntries messages config k).filterMap ToolCallEntry.callIndex := by
      rw [callIndexes_cut, ← callIndexes_deduped messages config]
      exact mem_callIndexes.mpr ⟨entry, hentry, hindex⟩
    obtain ⟨cut, hcut, hcut'⟩ := mem_callIndexes.mp hmem
    refine ⟨cut, List.mem_filter.mpr ⟨hcut, ?_⟩, hcut'⟩
    rw [← Option.not_isSome, Bool.not_eq_true', Bool.eq_false_iff]
    intro hsome
    rcases (cut_removed_iff hcut hcut').mp hsome with h | h
    · exact h hin.1
    · exact hin.2 h
  · rintro ⟨entry, hentry, hindex⟩
    obtain ⟨hmem, hnone⟩ := List.mem_filter.mp hentry
    by_contra hout
    have hsome := (cut_removed_iff hmem hindex).mpr (by
      by_contra hin
      push Not at hin
      exact hout hin)
    rw [Option.isNone_iff_eq_none.mp hnone] at hsome
    cases hsome

/-- The limit and the budget leave the calls behind those that are cut. -/
theorem length_retainedCalls_le {round : ℕ} (hwell : WellFormed messages)
    (htrimmed : trimmedEntries messages config bases = (cutEntries messages config k, round)) :
    (retainedCalls messages config bases).length ≤
      (ordered messages config).length - (overLimit messages config + k) := by
  rw [← List.length_drop]
  apply List.Subperm.length_le
  apply List.subperm_of_subset nodup_retainedCalls
  intro i hi
  obtain ⟨hin, hnot⟩ := (mem_retainedCalls hwell htrimmed).mp hi
  rw [← List.take_append_drop (overLimit messages config + k) (ordered messages config)] at hin
  rcases List.mem_append.mp hin with hin | hin
  · exact absurd hin hnot
  · exact hin

theorem retained_pair (hwell : WellFormed messages) {raw raw' : JsonValue}
    (hraw : messages[i]? = some raw) (hraw' : messages[j]? = some raw') (hcall : isCall raw)
    (houtput : isOutput raw') (hid : outputId raw' = callId raw) :
    Retained messages config bases i ↔ Retained messages config bases j := by
  obtain ⟨k, round, htrimmed, _⟩ := trimmedEntries_eq messages config bases
  obtain ⟨entry, hentry, hindex⟩ := exists_entry hraw hcall (hwell.ids i raw hraw hcall) config k
  obtain ⟨first, hfirst, hsame⟩ := exists_collected hentry
  have hfirst' : first.callIndex = some i := by
    rw [show first.callIndex = (clear first).callIndex from rfl, hsame]
    exact hindex
  have hout : entry.outputIndex = some j := by
    rw [show entry.outputIndex = (clear entry).outputIndex from rfl, ← hsame]
    exact (wired hwell).outputs i j raw raw' hraw hraw' hcall houtput hid first hfirst hfirst'
  have hkind : ∀ {other : JsonValue}, messages[j]? = some other → isOutput other := by
    intro other hother
    rw [hraw'] at hother
    cases hother
    exact houtput
  have hlt := lt_of_getElem? hraw
  have hlt' := lt_of_getElem? hraw'
  rw [retained_iff, retained_iff, htrimmed]
  have hiff : ∀ {n : ℕ}, (n ∈ removeIndexes (cutEntries messages config k) →
      entry.removalReason.isSome = true) → (entry.removalReason.isSome = true →
        n ∈ removeIndexes (cutEntries messages config k)) →
      (n ∉ removeIndexes (cutEntries messages config k) ↔ ¬ entry.removalReason.isSome = true) := by
    intro n h h'
    exact not_iff_not.mpr ⟨h, h'⟩
  have hi : i ∉ removeIndexes (cutEntries messages config k) ↔
      ¬ entry.removalReason.isSome = true := by
    apply hiff
    · intro hmem
      obtain ⟨other, hother, hsome, h | h | ⟨h, _⟩⟩ := mem_removeIndexes.mp hmem
      · rwa [entry_unique (cut_pairwise messages config k) hentry hother hindex h]
      · obtain ⟨item, hitem, hkindo, _⟩ := (sourced_of_mem hother).output i h
        rw [hraw] at hitem
        cases hitem
        exact absurd hkindo hcall.not_output
      · obtain ⟨item, hitem, hkindr⟩ := (sourced_of_mem hother).reasoning i h
        rw [hraw] at hitem
        cases hitem
        exact absurd hkindr hcall.not_reasoning
    · exact fun hsome => mem_removeIndexes.mpr ⟨entry, hentry, hsome, .inl hindex⟩
  have hj : j ∉ removeIndexes (cutEntries messages config k) ↔
      ¬ entry.removalReason.isSome = true := by
    apply hiff
    · intro hmem
      obtain ⟨other, hother, hsome, h | h | ⟨h, _⟩⟩ := mem_removeIndexes.mp hmem
      · obtain ⟨item, hitem, hkindc, _⟩ := (sourced_of_mem hother).call j h
        exact absurd (hkind hitem) hkindc.not_output
      · obtain ⟨item, hitem, _, hidj⟩ := (sourced_of_mem hother).output j h
        rw [hraw'] at hitem
        cases hitem
        obtain ⟨item', hitem', _, hidi, _⟩ := (sourced_of_mem hentry).call i hindex
        rw [hraw] at hitem'
        cases hitem'
        rwa [eq_of_callId (cut_callId_nodup hwell) hentry hother
          (hidi.symm.trans (hid.symm.trans hidj))]
      · obtain ⟨item, hitem, hkindr⟩ := (sourced_of_mem hother).reasoning j h
        exact absurd hkindr (hkind hitem).not_reasoning
    · exact fun hsome => mem_removeIndexes.mpr ⟨entry, hentry, hsome, .inr (.inl hout)⟩
  rw [hi, hj]
  exact ⟨fun h => ⟨hlt', h.2⟩, fun h => ⟨hlt, h.2⟩⟩

theorem retained_other {raw : JsonValue} (hraw : messages[i]? = some raw)
    (hcall : ¬ isCall raw) (houtput : ¬ isOutput raw) (hreasoning : ¬ isReasoning raw) :
    Retained messages config bases i := by
  obtain ⟨k, round, htrimmed, _⟩ := trimmedEntries_eq messages config bases
  rw [retained_iff, htrimmed]
  refine ⟨lt_of_getElem? hraw, ?_⟩
  intro hmem
  obtain ⟨other, hother, _, h | h | ⟨h, _⟩⟩ := mem_removeIndexes.mp hmem
  · obtain ⟨item, hitem, hkind, _⟩ := (sourced_of_mem hother).call i h
    rw [hraw] at hitem
    cases hitem
    exact hcall hkind
  · obtain ⟨item, hitem, hkind, _⟩ := (sourced_of_mem hother).output i h
    rw [hraw] at hitem
    cases hitem
    exact houtput hkind
  · obtain ⟨item, hitem, hkind⟩ := (sourced_of_mem hother).reasoning i h
    rw [hraw] at hitem
    cases hitem
    exact hreasoning hkind

/-- Of a call that goes with the limit or the budget, every older call goes too. -/
theorem older_removed {raw : JsonValue} (hraw : messages[i]? = some raw)
    (hcall : isCall raw) (hid : callId raw ≠ []) (hij : i < j)
    (hremoved : RemovedAsOldest messages config bases j) : ¬ Retained messages config bases i := by
  obtain ⟨k, round, htrimmed, _⟩ := trimmedEntries_eq messages config bases
  rw [retained_call hraw hcall hid htrimmed]
  rintro ⟨hin, hnotcut⟩
  obtain ⟨entry, hentry, hindex, hreason⟩ := hremoved
  rw [htrimmed] at hentry
  have hcut : j ∈ cutCalls messages config k := by
    have hsome : entry.removalReason.isSome = true := by
      rcases hreason with h | h <;> rw [h] <;> rfl
    rcases (cut_removed_iff hentry hindex).mp hsome with hnot | hcut
    · -- a call that is neither remaining nor cut is a duplicate
      exfalso
      rw [cutEntries_eq] at hentry
      obtain ⟨first, hfirst, rfl⟩ := List.mem_map.mp hentry
      rw [markOne_callIndex, markOne_callIndex] at hindex
      rw [markOne_reason (by rw [markOne_callIndex, hindex]), markOne_reason hindex] at hreason
      rw [if_neg fun h => hnot (List.mem_of_mem_drop (List.mem_of_mem_take h)),
        if_neg fun h => hnot (List.mem_of_mem_take h)] at hreason
      obtain ⟨p, hp⟩ := List.mem_iff_getElem?.mp hfirst
      unfold dedupedEntries at hp
      dsimp only at hp
      split_ifs at hp
      · rw [dedupeEntries_getElem?, Option.map_eq_some_iff] at hp
        obtain ⟨source, hsource, heq⟩ := hp
        have hfresh := ((collected messages).sourced source (List.mem_of_getElem? hsource)).fresh
        split_ifs at heq
        · rw [← heq] at hreason
          rcases hreason with h | h <;> cases h
        · rw [← heq, hfresh] at hreason
          rcases hreason with h | h <;> cases h
      · rw [((collected messages).sourced first (List.mem_of_getElem? hp)).fresh] at hreason
        rcases hreason with h | h <;> cases h
    · exact hcut
  exact retained_newer hin hij hnotcut hcut

theorem wellFormed_search : WellFormed (repeatedSearch.take 2) where
  ids i raw hraw hcall := by
    match i with
    | 0 => cases hraw; decide +kernel
    | 1 => cases hraw; exact absurd hcall (by decide +kernel)
    | n + 2 => cases hraw
  distinct i j raw raw' hraw hraw' hcall hcall' _ := by
    match i, j with
    | 0, 0 => rfl
    | 1, _ => cases hraw; exact absurd hcall (by decide +kernel)
    | _, 1 => cases hraw'; exact absurd hcall' (by decide +kernel)
    | n + 2, _ => cases hraw
    | _, n + 2 => cases hraw'
  after i j raw raw' hraw hraw' hcall houtput _ := by
    match i, j with
    | 0, 1 => decide
    | 1, _ => cases hraw; exact absurd hcall (by decide +kernel)
    | _, 0 => cases hraw'; exact absurd houtput (by decide +kernel)
    | n + 2, _ => cases hraw
    | _, n + 2 => cases hraw'
  single i j j' raw raw' raw'' _ hraw' hraw'' _ houtput houtput' _ _ := by
    match j, j' with
    | 1, 1 => rfl
    | 0, _ => cases hraw'; exact absurd houtput (by decide +kernel)
    | _, 0 => cases hraw''; exact absurd houtput' (by decide +kernel)
    | n + 2, _ => cases hraw'
    | _, n + 2 => cases hraw''

end Soundness

end Piclaw.ToolCallLimit
