import Piclaw.ContextPrune

/-!
# Pruned results stay retrievable

What the flush captures is the text of a result in the branch. Where the results of a recorded call
have one text and both appends of a recorded batch take effect, the live index is the one that
reconstruction makes, and it holds the text of every result that is dropped.
-/

namespace Piclaw
namespace ContextPrune
variable {β : Type}

def toolResults (branch : List (Entry β)) : List (Message β) :=
  branch.filterMap fun
    | .message m _ => if m.role = .toolResult then some m else none
    | _ => none

/-- The results of the call in the branch have the same text. -/
def OneText (branch : List (Entry β)) (id : String) : Prop :=
  ∀ m ∈ toolResults branch, ∀ m' ∈ toolResults branch,
    m.toolCallId = some id → m'.toolCallId = some id → textOf m.content = textOf m'.content

/-- The captured text is the text of a result in the branch. -/
def Captured (branch : List (Entry β)) (tc : CapturedToolCall β) : Prop :=
  ∃ m ∈ toolResults branch, m.toolCallId = some tc.toolCallId ∧ textOf m.content = tc.resultText

section Branches
variable {branch : List (Entry β)} {m : Message β} {id : String}

theorem mem_toolResults : m ∈ toolResults branch ↔
    ∃ timestamp, Entry.message m timestamp ∈ branch ∧ m.role = .toolResult := by
  unfold toolResults
  rw [List.mem_filterMap]
  constructor
  · rintro ⟨entry, hmem, hentry⟩
    cases entry with
    | message m' timestamp =>
      dsimp only at hentry
      split_ifs at hentry with hrole
      cases hentry
      exact ⟨timestamp, hmem, hrole⟩
    | _ => cases hentry
  · rintro ⟨timestamp, hmem, hrole⟩
    exact ⟨_, hmem, if_pos hrole⟩

theorem toolResults_append (first rest : List (Entry β)) :
    toolResults (first ++ rest) = toolResults first ++ toolResults rest :=
  List.filterMap_append

theorem Captured.append {tc : CapturedToolCall β} (h : Captured branch tc)
    (rest : List (Entry β)) : Captured (branch ++ rest) tc := by
  obtain ⟨m, hmem, h⟩ := h
  refine ⟨m, ?_, h⟩
  rw [toolResults_append]
  exact List.mem_append_left _ hmem

end Branches

section Capturing
variable {branch : List (Entry β)}

theorem get_resultMap {m : Message β} {id : String} (h : (resultMap branch).get id = some m) :
    m ∈ toolResults branch ∧ m.toolCallId = some id := by
  suffices hall : ∀ id m, (resultMap branch).get id = some m →
      m ∈ toolResults branch ∧ m.toolCallId = some id from hall id m h
  unfold resultMap
  refine List.foldlRecOn (motive := fun (results : OrderedMap String (Message β)) =>
    ∀ id m, results.get id = some m → m ∈ toolResults branch ∧ m.toolCallId = some id)
    branch _ ?_ ?_
  · intro id m hget
    cases hget
  · intro results hresults entry hentry id m hget
    cases entry with
    | message m' timestamp =>
      dsimp only at hget
      split_ifs at hget with hrole
      · cases hid : m'.toolCallId with
        | none =>
          rw [hid] at hget
          exact hresults id m hget
        | some id' =>
          rw [hid] at hget
          dsimp only at hget
          split_ifs at hget with hempty
          · exact hresults id m hget
          · by_cases hsame : id = id'
            · rw [hsame, OrderedMap.get_set_self] at hget
              cases hget
              rw [hsame]
              exact ⟨mem_toolResults.mpr ⟨timestamp, hentry, hrole⟩, hid⟩
            · rw [OrderedMap.get_set_of_ne _ _ hsame] at hget
              exact hresults id m hget
      · exact hresults id m hget
    | _ => exact hresults id m hget

/-- A ready call is captured with the text that the map of results holds for it. -/
theorem captured_captureBatch {message : Message β} {turnIndex timestamp group : ℕ}
    {isSummarized : String → Bool} {excluded : List String} {tc : CapturedToolCall β}
    (hready : tc.toolCallId ∈
      (readyToPrune (resultMap branch) isSummarized excluded message).map Block.callId)
    (htc : tc ∈ (captureBatch message
      (((readyToPrune (resultMap branch) isSummarized excluded message).map Block.callId).filterMap
        (resultMap branch).get) turnIndex timestamp group).toolCalls) : Captured branch tc := by
  obtain ⟨ready, hmem, hcall⟩ := List.mem_map.mp hready
  have hfound := (List.mem_filter.mp hmem).2
  rw [Bool.and_eq_true] at hfound
  obtain ⟨m, hm⟩ := Option.isSome_iff_exists.mp hfound.2
  unfold captureBatch at htc
  obtain ⟨block, -, rfl⟩ := List.mem_map.mp (List.mem_filter.mp htc).1
  have hid : (captureToolCall (((readyToPrune (resultMap branch) isSummarized excluded
      message).map Block.callId).filterMap (resultMap branch).get) block).toolCallId =
      block.callId := rfl
  rw [hid] at hcall hready
  unfold captureToolCall Captured
  dsimp only
  generalize hfind : List.find? (fun result => decide (result.toolCallId = some block.callId))
    (((readyToPrune (resultMap branch) isSummarized excluded message).map
      Block.callId).filterMap (resultMap branch).get) = found
  cases found with
  | none =>
    have hnone := List.find?_eq_none.mp hfind m (List.mem_filterMap.mpr ⟨_, hready, by
      rw [← hcall]
      exact hm⟩)
    rw [(get_resultMap hm).2, hcall] at hnone
    exact absurd (decide_eq_true rfl) hnone
  | some m' =>
    have hsame : m'.toolCallId = some block.callId := by
      simpa using List.find?_some hfind
    obtain ⟨id', -, hget⟩ := List.mem_filterMap.mp (List.mem_of_find?_eq_some hfind)
    exact ⟨m', (get_resultMap hget).1, hsame, rfl⟩

theorem captured_captureUnindexed {isSummarized : String → Bool}
    {excluded : List String} :
    ∀ batch ∈ captureUnindexedBatchesFromSession branch isSummarized excluded,
      ∀ tc ∈ batch.toolCalls, Captured branch tc := by
  have hfold : ∀ (l : List (Entry β)) (scan : CaptureScan β),
      (∀ batch ∈ scan.batches, ∀ tc ∈ batch.toolCalls, Captured branch tc) →
      ∀ batch ∈ (l.foldl (scanEntry (resultMap branch) isSummarized excluded) scan).batches,
        ∀ tc ∈ batch.toolCalls, Captured branch tc := by
    intro l
    induction l with
    | nil =>
      intro scan hscan
      exact hscan
    | cons entry l ih =>
      intro scan hscan
      rw [List.foldl_cons]
      refine ih _ ?_
      cases entry with
      | message m timestamp =>
        unfold scanEntry
        dsimp only
        cases m.role with
        | assistant =>
          dsimp only
          intro batch hbatch
          split_ifs at hbatch
          · exact hscan batch hbatch
          · rcases List.mem_append.mp hbatch with hold | hnew
            · exact hscan batch hold
            · rw [List.mem_singleton.mp hnew]
              intro tc htc
              obtain ⟨hin, hready⟩ := List.mem_filter.mp htc
              exact captured_captureBatch (of_decide_eq_true hready) hin
        | _ => exact hscan
      | _ => exact hscan
  refine hfold branch ⟨0, 0, []⟩ ?_
  intro batch hbatch
  cases hbatch

theorem mem_groupBatches {batches : List (CapturedBatch β)} :
    ∀ batch ∈ groupBatchesByAgentMessage batches, ∀ tc ∈ batch.toolCalls,
      ∃ batch' ∈ batches, tc ∈ batch'.toolCalls := by
  induction batches using groupBatchesByAgentMessage.induct with
  | case1 =>
    intro batch hbatch
    rw [groupBatchesByAgentMessage] at hbatch
    cases hbatch
  | case2 batch =>
    intro batch' hbatch tc htc
    rw [groupBatchesByAgentMessage] at hbatch
    exact ⟨batch', hbatch, htc⟩
  | case3 current batch rest hgroup ih =>
    intro batch' hbatch tc htc
    rw [groupBatchesByAgentMessage, if_pos hgroup] at hbatch
    obtain ⟨found, hfound, hin⟩ := ih batch' hbatch tc htc
    rcases List.mem_cons.mp hfound with rfl | hrest
    · rcases List.mem_append.mp hin with hcurrent | hnext
      · exact ⟨current, List.mem_cons_self, hcurrent⟩
      · exact ⟨batch, List.mem_cons_of_mem _ List.mem_cons_self, hnext⟩
    · exact ⟨found, List.mem_cons_of_mem _ (List.mem_cons_of_mem _ hrest), hin⟩
  | case4 current batch rest hgroup ih =>
    intro batch' hbatch tc htc
    rw [groupBatchesByAgentMessage, if_neg hgroup] at hbatch
    rcases List.mem_cons.mp hbatch with rfl | hrest
    · exact ⟨batch', List.mem_cons_self, htc⟩
    · obtain ⟨found, hfound, hin⟩ := ih batch' hrest tc htc
      exact ⟨found, List.mem_cons_of_mem _ hfound, hin⟩

end Capturing

section Records
open ToolCallIndexer

theorem get_addRecords {index : OrderedMap String (ToolCallRecord β)}
    {records : List (ToolCallRecord β)} {id : String} {record : ToolCallRecord β}
    (h : (addRecords index records).get id = some record) :
    (record ∈ records ∧ record.toolCallId = id) ∨ index.get id = some record := by
  induction records generalizing index with
  | nil => exact .inr h
  | cons first records ih =>
    rcases ih h with ⟨hmem, hid⟩ | hget
    · exact .inl ⟨List.mem_cons_of_mem _ hmem, hid⟩
    · by_cases hsame : id = first.toolCallId
      · rw [hsame, OrderedMap.get_set_self] at hget
        cases hget
        exact .inl ⟨List.mem_cons_self, hsame.symm⟩
      · rw [OrderedMap.get_set_of_ne _ _ hsame] at hget
        exact .inr hget

theorem isSome_addRecords {index : OrderedMap String (ToolCallRecord β)}
    {records : List (ToolCallRecord β)} {id : String}
    (h : (index.get id).isSome ∨ ∃ record ∈ records, record.toolCallId = id) :
    ((addRecords index records).get id).isSome := by
  induction records generalizing index with
  | nil =>
    rcases h with hsome | ⟨record, hmem, -⟩
    · exact hsome
    · cases hmem
  | cons first records ih =>
    refine ih ?_
    by_cases hsame : id = first.toolCallId
    · left
      rw [hsame, OrderedMap.get_set_self]
      rfl
    · rcases h with hsome | ⟨record, hmem, hid⟩
      · left
        rw [OrderedMap.get_set_of_ne _ _ hsame]
        exact hsome
      · rcases List.mem_cons.mp hmem with rfl | hrest
        · exact absurd hid.symm hsame
        · exact .inr ⟨record, hrest, hid⟩

theorem reconstruct_append (branch rest : List (Entry β)) :
    reconstructFromSession (branch ++ rest) =
      rest.foldl readEntry (reconstructFromSession branch) :=
  List.foldl_append

theorem mem_summarizedToolCallIds_append {branch rest : List (Entry β)} {id : String} :
    id ∈ summarizedToolCallIds (branch ++ rest) ↔
      id ∈ summarizedToolCallIds branch ∨ id ∈ rest.flatMap Entry.summarizedToolCalls := by
  unfold summarizedToolCallIds
  rw [List.mem_eraseDups, List.mem_eraseDups, List.flatMap_append, List.mem_append]

theorem toolCallIds_allocatedRefs (x : ToolCallIndexer β) (batch : CapturedBatch β) :
    (x.allocatedRefs batch).map (·.toolCallId) = batch.toolCalls.map (·.toolCallId) := by
  unfold allocatedRefs buildShortToolCallRefs
  rw [List.map_map]
  exact List.zipIdx_map_fst 0 (batch.toolCalls.map (·.toolCallId))

end Records

namespace Session
variable {s : Session β}

/-- A result of the branch that pruning or the compaction input drops can be read in the index that
reconstruction makes. -/
def Retrievable (s : Session β) : Prop :=
  ∀ compactToolArgs messages, ∀ m ∈ messages, m ∈ toolResults s.branch →
    (m ∉ pruneMessages messages s.indexer ∨
      m ∉ (sanitizeContextPruneCompactionMessages compactToolArgs messages s.branch).messages) →
    ∃ id record, m.toolCallId = some id ∧
      (ToolCallIndexer.reconstructFromSession s.branch).index.get id = some record ∧
      record.resultText = textOf m.content

/-- The live records and aliases are those of the branch. -/
def Current (s : Session β) : Prop :=
  s.indexer.index = (ToolCallIndexer.reconstructFromSession s.branch).index ∧
    s.indexer.aliasToToolCallId =
      (ToolCallIndexer.reconstructFromSession s.branch).aliasToToolCallId

/-- The results of a call have one text when it is recorded and afterwards, and both appends of a
recorded batch take effect. -/
def Careful (s : Session β) : Event β → Prop
  | .appendMessage message timestamp =>
    ∀ id, (s.indexer.index.get id).isSome → OneText (s.branch ++ [.message message timestamp]) id
  | .summarized (some text) summary index _ _ =>
    ∀ flush batch rest, s.flush = some flush → flush.batches = batch :: rest →
      s.oversized batch text = false → summary = .appended ∧ index = .appended ∧
        ∀ tc ∈ batch.toolCalls, OneText s.branch tc.toolCallId
  | _ => True

structure Kept (s : Session β) : Prop where
  current : s.Current
  recorded : ∀ id record, s.indexer.index.get id = some record → OneText s.branch id ∧
    ∃ m ∈ toolResults s.branch, m.toolCallId = some id ∧ textOf m.content = record.resultText
  referenced : ∀ id ∈ summarizedToolCallIds s.branch, (s.indexer.index.get id).isSome
  captured : ∀ flush, s.flush = some flush → ∀ batch ∈ flush.batches, ∀ tc ∈ batch.toolCalls,
    Captured s.branch tc

section Dropping

theorem not_mem_pruneMessages {messages : List (Message β)} {indexer : ToolCallIndexer β}
    {m : Message β} (hmem : m ∈ messages) (h : m ∉ pruneMessages messages indexer) :
    ∃ id, m.toolCallId = some id ∧ (indexer.index.get id).isSome := by
  unfold pruneMessages at h
  rw [List.mem_filter, not_and] at h
  have hdropped := h hmem
  rw [Bool.not_eq_true, Bool.not_eq_false', Bool.and_eq_true] at hdropped
  cases hid : m.toolCallId with
  | none =>
    rw [hid] at hdropped
    cases hdropped.2
  | some id =>
    rw [hid] at hdropped
    exact ⟨id, rfl, (Bool.and_eq_true _ _ ▸ hdropped.2).2⟩

theorem not_mem_sanitize {compactToolArgs : Option β → String} {messages : List (Message β)}
    {branch : List (Entry β)} {m : Message β} (hmem : m ∈ messages) (hrole : m.role = .toolResult)
    (h : m ∉ (sanitizeContextPruneCompactionMessages compactToolArgs messages branch).messages) :
    ∃ id, m.toolCallId = some id ∧ id ∈ summarizedToolCallIds branch := by
  by_contra hno
  apply h
  have hkept : resultSummarized (summarizedToolCallIds branch) m = false := by
    unfold resultSummarized
    cases hid : m.toolCallId with
    | none => rw [Bool.and_false]
    | some id =>
      have hnot : id ∉ summarizedToolCallIds branch := fun hin => hno ⟨id, hid, hin⟩
      simp [hnot]
  have hsame : replaceToolCalls compactToolArgs branch m = m := by
    unfold replaceToolCalls
    rw [if_neg (by rw [hrole]; exact fun hr => by cases hr)]
  obtain ⟨i, hi⟩ := List.mem_iff_getElem?.mp hmem
  unfold sanitizeContextPruneCompactionMessages
  refine List.mem_map.mpr ⟨(m, i), List.mem_filter.mpr ⟨?_, ?_⟩, hsame⟩
  · exact List.mem_zipIdx_iff_getElem?.mpr hi
  · rw [hkept]
    rfl

theorem Kept.retrievable (hs : s.Kept) : s.Retrievable := by
  intro compactToolArgs messages m hmem hbranch hdropped
  obtain ⟨timestamp, -, hrole⟩ := mem_toolResults.mp hbranch
  have hindexed : ∃ id, m.toolCallId = some id ∧ (s.indexer.index.get id).isSome := by
    rcases hdropped with hpruned | hsanitized
    · exact not_mem_pruneMessages hmem hpruned
    · obtain ⟨id, hid, hin⟩ := not_mem_sanitize hmem hrole hsanitized
      exact ⟨id, hid, hs.referenced id hin⟩
  obtain ⟨id, hid, hsome⟩ := hindexed
  obtain ⟨record, hrecord⟩ := Option.isSome_iff_exists.mp hsome
  obtain ⟨hone, m', hm', hid', htext⟩ := hs.recorded id record hrecord
  refine ⟨id, record, hid, ?_, ?_⟩
  · rw [← hs.current.1]
    exact hrecord
  · rw [← htext]
    exact hone m' hm' m hbranch hid' hid

end Dropping

section Steps

/-- The state of the flush and its result are not read by anything but the flush. -/
theorem Kept.withFlush (hs : s.Kept) (flush : Option (Flush β)) (result : Option FlushResult)
    (hflush : ∀ f, flush = some f → ∀ batch ∈ f.batches, ∀ tc ∈ batch.toolCalls,
      Captured s.branch tc) : Kept { s with flush, result } :=
  ⟨hs.current, hs.recorded, hs.referenced, hflush⟩

theorem Kept.finish (hs : s.Kept) (result : FlushResult) : (s.finish result).Kept :=
  hs.withFlush none (some result) (by intro f hf; cases hf)

theorem Kept.nextBatch (hs : s.Kept) {flush : Flush β} {aborted : Bool}
    (hflush : ∀ batch ∈ flush.batches, ∀ tc ∈ batch.toolCalls, Captured s.branch tc) :
    (s.nextBatch flush aborted).Kept := by
  unfold Session.nextBatch
  by_cases hempty : flush.batches = []
  · rw [if_pos hempty]
    exact hs.finish _
  rw [if_neg hempty]
  split_ifs
  · exact hs.finish _
  · refine hs.withFlush (some flush) s.result ?_
    intro f hf
    cases hf
    exact hflush

theorem Kept.flushPending (hs : s.Kept) {aborted modelRuntime : Bool} :
    (s.flushPending aborted modelRuntime).Kept := by
  unfold Session.flushPending
  split_ifs
  · exact hs.withFlush s.flush _ hs.captured
  · exact hs.withFlush s.flush _ hs.captured
  · exact hs.withFlush s.flush _ hs.captured
  · exact hs.finish _
  · refine hs.nextBatch ?_
    intro batch hbatch tc htc
    obtain ⟨found, hfound, hin⟩ := mem_groupBatches batch hbatch tc htc
    exact captured_captureUnindexed found (List.mem_filter.mp hfound).1 tc hin

theorem Kept.appendMessage (hs : s.Kept) {message : Message β} {timestamp : ℕ}
    (hone : ∀ id, (s.indexer.index.get id).isSome →
      OneText (s.branch ++ [.message message timestamp]) id) :
    Kept { s with branch := s.branch ++ [.message message timestamp] } := by
  constructor
  · unfold Current
    dsimp only
    rw [reconstruct_append]
    exact hs.current
  · intro id record hget
    obtain ⟨-, m, hm, hid, htext⟩ := hs.recorded id record hget
    refine ⟨hone id (by rw [hget]; rfl), m, ?_, hid, htext⟩
    dsimp only
    rw [toolResults_append]
    exact List.mem_append_left _ hm
  · intro id hin
    rcases mem_summarizedToolCallIds_append.mp hin with hold | hnew
    · exact hs.referenced id hold
    · cases hnew
  · intro flush hflush batch hbatch tc htc
    exact (hs.captured flush hflush batch hbatch tc htc).append _

theorem Kept.reconstruct (hs : s.Kept) :
    Kept { s with indexer := .reconstructFromSession s.branch } := by
  refine ⟨⟨rfl, rfl⟩, ?_, ?_, hs.captured⟩
  · intro id record hget
    dsimp only at hget
    rw [← hs.current.1] at hget
    exact hs.recorded id record hget
  · intro id hin
    dsimp only
    rw [← hs.current.1]
    exact hs.referenced id hin

theorem branch_record (s : Session β) (batch : CapturedBatch β) (summaryText : String) :
    (s.record batch summaryText .appended .appended).1.branch =
      s.branch ++ [.summary
        (summaryText ++ formatSummaryToolCallRefs (s.indexer.allocatedRefs batch))
        (makeSummaryDetails batch (s.indexer.allocatedRefs batch)),
        .index (ToolCallIndexer.buildIndexEntry batch)] := by
  unfold Session.record
  exact List.append_assoc _ _ _

/-- Both appends of a batch took effect. -/
theorem Kept.record (hs : s.Kept) {batch : CapturedBatch β} {summaryText : String}
    (hbatch : ∀ tc ∈ batch.toolCalls, Captured s.branch tc)
    (hone : ∀ tc ∈ batch.toolCalls, OneText s.branch tc.toolCallId) :
    (s.record batch summaryText .appended .appended).1.Kept := by
  have hbranch := s.branch_record batch summaryText
  have hindex : (s.record batch summaryText .appended .appended).1.indexer.index =
      ToolCallIndexer.addRecords s.indexer.index (ToolCallIndexer.buildIndexEntry batch) := rfl
  have hresults : toolResults (s.record batch summaryText .appended .appended).1.branch =
      toolResults s.branch := by
    rw [hbranch, toolResults_append]
    exact List.append_nil _
  have hmem : ∀ tc ∈ batch.toolCalls, ∃ r ∈ ToolCallIndexer.buildIndexEntry batch,
      r.toolCallId = tc.toolCallId := by
    intro tc htc
    exact ⟨_, List.mem_map_of_mem htc, rfl⟩
  constructor
  · unfold Current
    rw [hbranch, reconstruct_append]
    constructor
    · rw [hindex, hs.current.1]
      rfl
    · change ToolCallIndexer.addAliases s.indexer.aliasToToolCallId _ = _
      rw [hs.current.2]
      rfl
  · intro id record hget
    unfold OneText
    rw [hresults]
    rw [hindex] at hget
    rcases get_addRecords hget with ⟨hnew, hid⟩ | hold
    · obtain ⟨tc, htc, rfl⟩ := List.mem_map.mp hnew
      obtain ⟨m, hm, hcall, htext⟩ := hbatch tc htc
      rw [← hid]
      exact ⟨hone tc htc, m, hm, hcall, htext⟩
    · exact hs.recorded id record hold
  · intro id hin
    rw [hindex]
    apply isSome_addRecords
    rw [hbranch, mem_summarizedToolCallIds_append] at hin
    rcases hin with hold | hnew
    · exact .inl (hs.referenced id hold)
    · right
      obtain ⟨entry, hentry, hid⟩ := List.mem_flatMap.mp hnew
      rcases List.mem_cons.mp hentry with rfl | hentry
      · have hrefs : id ∈ batch.toolCalls.map (·.toolCallId) := by
          rw [← toolCallIds_allocatedRefs s.indexer batch]
          exact hid
        obtain ⟨tc, htc, rfl⟩ := List.mem_map.mp hrefs
        exact hmem tc htc
      · rw [List.mem_singleton.mp hentry] at hid
        exact List.mem_map.mp (List.mem_filter.mp hid).1
  · intro flush hflush batch' hbatch' tc htc
    rw [hbranch]
    exact (hs.captured flush hflush batch' hbatch' tc htc).append _

theorem Kept.allocateSummaryRefs (hs : s.Kept) (batch : CapturedBatch β) :
    Kept { s with indexer := s.indexer.allocateSummaryRefs batch } :=
  ⟨hs.current, hs.recorded, hs.referenced, hs.captured⟩

theorem kept_step (hs : s.Kept) {event : Event β} (hcareful : s.Careful event) :
    (s.step event).Kept := by
  cases event with
  | appendMessage message timestamp => exact hs.appendMessage hcareful
  | reconstruct => exact hs.reconstruct
  | flushPending aborted modelRuntime => exact hs.flushPending
  | summarizerThrew aborted =>
    unfold step
    dsimp only
    split_ifs
    · exact hs.finish _
    · exact hs.finish _
    · exact hs
  | summarized summaryText summary index aborted abortedNext =>
    unfold step
    dsimp only
    cases hflush : s.flush with
    | none => exact hs
    | some flush =>
      dsimp only
      cases hbatches : flush.batches with
      | nil => exact hs
      | cons batch rest =>
        cases summaryText with
        | none => exact hs.finish _
        | some text =>
          have hcaptured := hs.captured flush hflush
          rw [hbatches] at hcaptured
          have hrest : ∀ b ∈ rest, ∀ tc ∈ b.toolCalls, Captured s.branch tc :=
            fun b hb => hcaptured b (List.mem_cons_of_mem _ hb)
          dsimp only
          unfold Session.summarized
          dsimp only
          cases hsize : s.oversized batch text with
          | true => exact (hs.allocateSummaryRefs batch).nextBatch hrest
          | false =>
            obtain ⟨rfl, rfl, hone⟩ := hcareful flush batch rest hflush hbatches hsize
            have hrecorded : (s.record batch text .appended .appended).1.Kept :=
              hs.record (hcaptured batch List.mem_cons_self) hone
            refine hrecorded.nextBatch ?_
            intro b hb tc htc
            rw [s.branch_record]
            exact (hrest b hb tc htc).append _

theorem kept_initial : (initial : Session β).Kept := by
  refine ⟨⟨rfl, rfl⟩, ?_, ?_, ?_⟩
  · intro id record h
    cases h
  · intro id h
    cases h
  · intro flush h
    cases h

end Steps

/-- In a careful run every dropped result of the branch can be read in the reconstructed index, and
the live records and aliases are the reconstructed ones. -/
theorem pruned_results_retrievable (events : List (Event β))
    (hcareful : Relational.Along step Careful initial events) :
    (Relational.run step initial events).Retrievable ∧
      (Relational.run step initial events).Current := by
  have hkept : (Relational.run step initial events).Kept := by
    refine Relational.run_invariant ?_ kept_initial hcareful
    intro s event hs h
    exact kept_step hs h
  exact ⟨hkept.retrievable, hkept.current⟩

section Calls

def call (id : String) : Message Unit :=
  ⟨.assistant, some [.toolCall (some id) none (some "bash") none], none, false⟩

def output (id text : String) : Message Unit :=
  ⟨.toolResult, some [.text text], some id, false⟩

def longOutput : String := String.ofList (List.replicate 200 'a')

/-- One call, pruned, and the call of another turn. -/
def prunedCall : List (Event Unit) :=
  [.appendMessage (call "c1") 0, .appendMessage (output "c1" longOutput) 0,
    .flushPending false true, .summarized (some "a listing") .appended .appended false false,
    .appendMessage (call "c2") 1, .appendMessage (output "c2" "done") 1]

theorem oneText_of_distinct {branch : List (Entry Unit)} {id : String} {m m' : Message Unit}
    (hresults : toolResults branch = [m, m']) (hne : m.toolCallId ≠ m'.toolCallId) :
    OneText branch id := by
  intro x hx y hy hxid hyid
  have hsame : x.toolCallId = y.toolCallId := hxid.trans hyid.symm
  rw [hresults, List.mem_pair] at hx hy
  rcases hx with rfl | rfl
  · rcases hy with rfl | rfl
    · rfl
    · exact absurd hsame hne
  · rcases hy with rfl | rfl
    · exact absurd hsame.symm hne
    · rfl

theorem oneText_of_single {branch : List (Entry Unit)} {id : String} {m : Message Unit}
    (hresults : toolResults branch = [m]) : OneText branch id := by
  intro x hx y hy _ _
  rw [hresults, List.mem_singleton] at hx hy
  rw [hx, hy]

theorem pruned_results_retrievable_prunedCall :
    (Relational.run step initial prunedCall).Retrievable ∧
      (Relational.run step initial prunedCall).Current := by
  refine pruned_results_retrievable prunedCall ⟨?_, ?_, trivial, ?_, ?_, ?_, trivial⟩
  · intro id h
    cases h
  · intro id h
    cases h
  · intro flush batch rest _ _ _
    exact ⟨rfl, rfl, fun tc _ => @oneText_of_single _ _ (output "c1" longOutput)
      (by decide +kernel)⟩
  · intro id _
    exact @oneText_of_single _ _ (output "c1" longOutput) (by decide +kernel)
  · intro id _
    exact @oneText_of_distinct _ _ (output "c1" longOutput) (output "c2" "done")
      (by decide +kernel) (by decide +kernel)

/-- The id of a pruned call comes back in a later turn with another result. -/
def repeatedCall : List (Event Unit) :=
  [.appendMessage (call "c1") 0, .appendMessage (output "c1" longOutput) 0,
    .flushPending false true, .summarized (some "a listing") .appended .appended false false,
    .appendMessage (call "c1") 1, .appendMessage (output "c1" "done") 1]

theorem repeated_call_lost :
    ¬ ∀ events : List (Event Unit), (Relational.run step initial events).Retrievable ∧
      (Relational.run step initial events).Current := by
  intro h
  have hrun : output "c1" "done" ∈ toolResults (Relational.run step initial repeatedCall).branch ∧
      output "c1" "done" ∉ pruneMessages [output "c1" "done"]
        (Relational.run step initial repeatedCall).indexer ∧
      ((ToolCallIndexer.reconstructFromSession
        (Relational.run step initial repeatedCall).branch).index.get "c1").map (·.resultText) ≠
        some "done" := by
    decide +kernel
  obtain ⟨id, record, hid, hget, htext⟩ := (h repeatedCall).1 (fun _ => "{}")
    [output "c1" "done"] (output "c1" "done") List.mem_cons_self hrun.1 (.inl hrun.2.1)
  cases hid
  apply hrun.2.2
  rw [hget, Option.map_some, htext]
  rfl

end Calls

end Session
end ContextPrune
end Piclaw
