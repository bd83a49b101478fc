import Piclaw.NoteContext

/-!
# The lines and blocks of a source

A run of whole lines decodes to a text that encodes to its bytes; the blocks tile the lines, and a
selection neither begins nor ends within a fence.
-/

namespace Piclaw.NoteContext

open NoteChunks Tilings Utf8Decoding

section Bytes

/-- The bytes of a character are an ASCII byte or none is. -/
theorem encodeChar_bytes (c : Char) :
    encodeChar c = [c.toNat] ∨ ∀ b ∈ encodeChar c, 0x80 ≤ b := by
  unfold encodeChar
  split_ifs with hascii htwo hthree
  · exact .inl rfl
  all_goals
    right
    intro b hb
    simp only [List.mem_cons, List.not_mem_nil, or_false] at hb
    omega

/-- Bytes that end with a line feed are those of characters. -/
theorem encode_split (t : Text) (front rest : Bytes) (h : encode t = front ++ rest)
    (hfeed : front = [] ∨ front.getLast? = some 10) :
    ∃ t' t'', t = t' ++ t'' ∧ front = encode t' ∧ rest = encode t'' := by
  induction t generalizing front with
  | nil =>
    have hnil : front = [] ∧ rest = [] := List.append_eq_nil_iff.mp h.symm
    exact ⟨[], [], rfl, hnil.1, hnil.2⟩
  | cons c t ih =>
    by_cases hempty : front = []
    · exact ⟨[], c :: t, rfl, hempty, by rw [h, hempty]; rfl⟩
    have hlast : front.getLast? = some 10 := hfeed.resolve_left hempty
    have hcons : encode (c :: t) = encodeChar c ++ encode t := rfl
    rw [hcons] at h
    rcases List.append_eq_append_iff.mp h with ⟨front', hfront, hrest⟩ | ⟨middle, hchar, _⟩
    · have hfeed' : front' = [] ∨ front'.getLast? = some 10 := by
        rcases eq_or_ne front' [] with hnil | hne
        · exact .inl hnil
        · right
          rwa [hfront, List.getLast?_append_of_ne_nil _ hne] at hlast
      obtain ⟨t', t'', rfl, hfront', hrest'⟩ := ih front' hrest hfeed'
      exact ⟨c :: t', t'', rfl, by rw [hfront, hfront']; rfl, hrest'⟩
    · have hmem : 10 ∈ front := List.mem_of_getLast? hlast
      rcases encodeChar_bytes c with hascii | hlarge
      · -- the only byte of the character is the front
        rw [hascii] at hchar
        cases front with
        | nil => exact absurd rfl hempty
        | cons b front =>
          have hsame : [c.toNat] = b :: (front ++ middle) := hchar
          have hparts := List.cons.inj hsame
          have hnil := List.append_eq_nil_iff.mp hparts.2.symm
          refine ⟨[c], t, rfl, ?_, ?_⟩
          · rw [hnil.1, ← hparts.1]
            simp [encode, hascii]
          · have hboth : encodeChar c ++ encode t = b :: front ++ rest := h
            rw [hascii, hnil.1, ← hparts.1] at hboth
            exact (List.cons.inj hboth).2.symm
      · have hbyte := hlarge 10 (by rw [hchar]; exact List.mem_append_left _ hmem)
        omega

theorem decode_lines {bytes : Bytes} {text : Text} (h : encode text = bytes) {first stop : ℕ}
    (hfirst : bytes.take first = [] ∨ (bytes.take first).getLast? = some 10)
    (hstop : (bytes.take stop).getLast? = some 10 ∨ bytes.length ≤ stop) :
    encode (decode ((bytes.take stop).drop first)) = (bytes.take stop).drop first := by
  obtain ⟨upTo, hupTo⟩ : ∃ upTo, bytes.take stop = encode upTo := by
    rcases hstop with hfeed | hend
    · obtain ⟨t', _, _, hfront, _⟩ := encode_split text (bytes.take stop) (bytes.drop stop)
        (by rw [List.take_append_drop, h]) (.inr hfeed)
      exact ⟨t', hfront⟩
    · exact ⟨text, by rw [List.take_of_length_le hend, h]⟩
  by_cases hle : first ≤ stop
  · have hprefix : (bytes.take stop).take first = bytes.take first := by
      rw [List.take_take, Nat.min_eq_left hle]
    obtain ⟨_, t'', _, _, hrest⟩ := encode_split upTo (bytes.take first)
      ((bytes.take stop).drop first) (by rw [← hprefix, List.take_append_drop, hupTo]) hfirst
    rw [hrest, decode_encode]
  · rw [List.drop_eq_nil_of_le (le_trans (List.length_take_le _ _) (by omega))]
    rfl

/-- A line lies between line feeds, of which `number` come before it. -/
structure LineOf (bytes : Bytes) (number : ℕ) (line : SourceLine) : Prop where
  range : line.first < line.stop ∧ line.stop ≤ bytes.length
  start : bytes.take line.first = [] ∨ (bytes.take line.first).getLast? = some 10
  stop : (bytes.take line.stop).getLast? = some 10 ∨ bytes.length ≤ line.stop
  before : (bytes.take line.first).count 10 = number
  within : (bytes.take (line.stop - 1)).count 10 = number

theorem cutLines_at (front current bytes : Bytes)
    (hfront : front = [] ∨ front.getLast? = some 10) (hcurrent : 10 ∉ current) (i : ℕ)
    (line : SourceLine) (h : (cutLines front.length current bytes)[i]? = some line) :
    LineOf (front ++ current ++ bytes) (front.count 10 + i) line := by
  have hnone : current.count 10 = 0 := List.count_eq_zero.mpr hcurrent
  induction bytes generalizing front current i with
  | nil =>
    unfold cutLines at h
    split_ifs at h with hempty
    · cases h
    · cases i with
      | succ i => cases h
      | zero =>
        cases h
        have hpos := List.length_pos_iff.mpr hempty
        rw [List.append_nil]
        constructor
        · change front.length < front.length + current.length ∧ front.length + current.length ≤ _
          rw [List.length_append]
          omega
        · rw [List.take_left]
          exact hfront
        · right
          rw [List.length_append]
        · rw [List.take_left]
          rfl
        · have htake : (front ++ current).take (front.length + current.length - 1) =
              front ++ current.take (current.length - 1) := by
            rw [show front.length + current.length - 1 =
              front.length + (current.length - 1) by omega, List.take_length_add_append]
          have hsub : (current.take (current.length - 1)).count 10 = 0 :=
            List.count_eq_zero.mpr fun hmem => hcurrent (List.mem_of_mem_take hmem)
          change ((front ++ current).take (front.length + current.length - 1)).count 10 = _
          rw [htake, List.count_append, hsub]
  | cons b bytes ih =>
    unfold cutLines at h
    split_ifs at h with hfeed
    · subst hfeed
      have hall : front ++ current ++ 10 :: bytes = front ++ (current ++ [10]) ++ bytes := by simp
      cases i with
      | zero =>
        cases h
        constructor
        · change front.length < front.length + (current ++ [10]).length ∧ _ ≤ _
          simp only [List.length_append, List.length_cons, List.length_nil]
          omega
        · rw [List.append_assoc, List.take_left]
          exact hfront
        · left
          change ((front ++ current ++ 10 :: bytes).take
            (front.length + (current ++ [10]).length)).getLast? = some 10
          rw [hall, ← List.length_append, List.take_left, ← List.append_assoc,
            List.getLast?_concat]
        · rw [List.append_assoc, List.take_left]
          rfl
        · change ((front ++ current ++ 10 :: bytes).take
            (front.length + (current ++ [10]).length - 1)).count 10 = _
          rw [List.length_append, List.length_singleton,
            show front.length + (current.length + 1) - 1 = (front ++ current).length by
              rw [List.length_append]
              omega, List.take_left, List.count_append, hnone]
      | succ i =>
        have hrest := ih (front ++ (current ++ [10])) [] (by
            right
            rw [← List.append_assoc, List.getLast?_concat]) (by simp) i (by
            rw [List.length_append]
            exact h) rfl
        rw [List.append_nil] at hrest
        rw [hall]
        have hcount : (front ++ (current ++ [10])).count 10 + i = front.count 10 + (i + 1) := by
          rw [List.count_append, List.count_append, hnone]
          simp
          omega
        rwa [hcount] at hrest
    · have hstep := ih front (current ++ [b]) hfront
        (by simp [hcurrent, Ne.symm hfeed]) i h
        (List.count_eq_zero.mpr (by simp [hcurrent, Ne.symm hfeed]))
      rwa [show front ++ (current ++ [b]) ++ bytes = front ++ current ++ b :: bytes by simp]
        at hstep

end Bytes

section Blocks

theorem fencedTexts_le (fence : Fence) (rest : List Text) :
    fencedTexts fence rest ≤ rest.length := by
  induction rest with
  | nil => exact le_rfl
  | cons text rest ih =>
    unfold fencedTexts
    rw [List.length_cons]
    split_ifs <;> omega

theorem paragraphTexts_le (rest : List Text) : paragraphTexts rest ≤ rest.length := by
  induction rest with
  | nil => exact le_rfl
  | cons text rest ih =>
    unfold paragraphTexts
    rw [List.length_cons]
    split_ifs <;> omega

theorem blockAt_range (index : ℕ) (text : Text) (rest : List Text) :
    (blockAt index text rest).first = index ∧ index ≤ (blockAt index text rest).last ∧
      (blockAt index text rest).last ≤ index + rest.length := by
  unfold blockAt
  cases fenceOpenIn text with
  | some fence =>
    have hle := fencedTexts_le fence rest
    exact ⟨rfl, Nat.le_add_right _ _, Nat.add_le_add_left hle _⟩
  | none =>
    dsimp only
    split_ifs with hblank hheading hunder
    · have hle := (List.takeWhile_sublist isBlankText (l := rest)).length_le
      exact ⟨rfl, Nat.le_add_right _ _, Nat.add_le_add_left hle _⟩
    · exact ⟨rfl, le_rfl, Nat.le_add_right _ _⟩
    · have hpos : 0 < rest.length := by
        cases rest with
        | nil => cases hunder
        | cons next rest => exact Nat.succ_pos _
      exact ⟨rfl, Nat.le_succ _, Nat.add_le_add_left hpos _⟩
    · have hle := paragraphTexts_le rest
      exact ⟨rfl, Nat.le_add_right _ _, Nat.add_le_add_left hle _⟩

theorem sourceBlocks_tiles (texts : List Text) (fuel index : ℕ)
    (hfuel : texts.length ≤ index + fuel) (hindex : index ≤ texts.length) :
    Tiles SourceBlock.first SourceBlock.last index texts.length
      (sourceBlocks texts fuel index) := by
  induction fuel generalizing index with
  | zero => exact show index = texts.length by omega
  | succ fuel ih =>
    unfold sourceBlocks
    cases hdrop : texts.drop index with
    | nil =>
      have hlength := congrArg List.length hdrop
      rw [List.length_drop, List.length_nil] at hlength
      exact show index = texts.length by omega
    | cons text rest =>
      have hlength := congrArg List.length hdrop
      rw [List.length_drop, List.length_cons] at hlength
      obtain ⟨hfirst, hle, hlast⟩ := blockAt_range index text rest
      exact ⟨hfirst, by omega, ih _ (by omega) (by omega)⟩

theorem plainTexts_length (lines : List SourceLine) :
    (plainTexts lines).length = lines.length := by
  cases lines with
  | nil => rfl
  | cons line lines => simp [plainTexts]

/-- What `readSource` makes of bytes. -/
structure SourceOf (bytes : Bytes) (source : SourceState) : Prop where
  same : source.bytes = bytes
  decoded : ∃ text, encode text = bytes
  cut : source.lines = cutLines 0 [] bytes
  tiled : Tiles SourceBlock.first SourceBlock.last 0 source.lines.length source.blocks

theorem readSource_spec {bytes : Bytes} {source : SourceState}
    (h : readSource bytes = .source source) : SourceOf bytes source := by
  unfold readSource at h
  split_ifs at h with hnul hdecode
  by_cases hunsupported : unsupported (cutLines 0 [] bytes) = true
  · rw [if_pos hunsupported] at h
    cases h
  rw [if_neg hunsupported] at h
  cases h
  refine ⟨rfl, ?_, rfl, ?_⟩
  · obtain ⟨text, htext⟩ := Option.ne_none_iff_exists'.mp hdecode
    unfold decodeFatal at htext
    split_ifs at htext with hvalid
    exact ⟨decode bytes, hvalid⟩
  · have htiles := sourceBlocks_tiles (plainTexts (cutLines 0 [] bytes))
      (plainTexts (cutLines 0 [] bytes)).length 0 (by omega) (Nat.zero_le _)
    change Tiles SourceBlock.first SourceBlock.last 0 (cutLines 0 [] bytes).length _
    rw [← plainTexts_length]
    exact htiles

theorem SourceOf.line {bytes : Bytes} {source : SourceState} (h : SourceOf bytes source) {i : ℕ}
    (hi : i < source.lines.length) : LineOf bytes i (source.lineAt i) := by
  have hget : (cutLines ([] : Bytes).length [] bytes)[i]? = some (source.lineAt i) := by
    change (cutLines 0 [] bytes)[i]? = _
    rw [← h.cut, List.getElem?_eq_getElem hi]
    unfold SourceState.lineAt
    rw [List.getD_eq_getElem _ _ hi]
  have hline := cutLines_at [] [] bytes (.inl rfl) (by simp) i _ hget
  simpa using hline

end Blocks

section Fences

variable {blocks : List SourceBlock} {n : ℕ}

/-- No fence is cut before line `i`. -/
def StartOk (blocks : List SourceBlock) (i : ℕ) : Prop :=
  ∀ block ∈ blocks, block.kind = .fence → ¬(block.first < i ∧ i ≤ block.last)

/-- No fence is cut behind line `j`. -/
def EndOk (blocks : List SourceBlock) (j : ℕ) : Prop :=
  ∀ block ∈ blocks, block.kind = .fence → ¬(block.first ≤ j ∧ j < block.last)

theorem startOk_first (h : Tiles SourceBlock.first SourceBlock.last 0 n blocks)
    {block : SourceBlock} (hblock : block ∈ blocks) : StartOk blocks block.first := by
  rintro other hother _ ⟨hlt, hle⟩
  have hrange := (tiles_mem h hblock).2.1
  obtain rfl := tiles_unique h hother hblock ⟨le_of_lt hlt, hle⟩ ⟨le_rfl, hrange⟩
  omega

theorem endOk_last (h : Tiles SourceBlock.first SourceBlock.last 0 n blocks)
    {block : SourceBlock} (hblock : block ∈ blocks) : EndOk blocks block.last := by
  rintro other hother _ ⟨hle, hlt⟩
  have hrange := (tiles_mem h hblock).2.1
  obtain rfl := tiles_unique h hother hblock ⟨hle, le_of_lt hlt⟩ ⟨hrange, le_rfl⟩
  omega

theorem startOk_startLine (h : Tiles SourceBlock.first SourceBlock.last 0 n blocks)
    {block : SourceBlock} (hblock : block ∈ blocks) {line : ℕ}
    (hline : block.first ≤ line ∧ line ≤ block.last) : StartOk blocks (startLine block line) := by
  unfold startLine
  split_ifs with hfence
  · exact startOk_first h hblock
  · rintro other hother hkind ⟨hlt, hle⟩
    obtain rfl := tiles_unique h hother hblock ⟨le_of_lt hlt, hle⟩ hline
    exact hfence hkind

theorem endOk_endLine (h : Tiles SourceBlock.first SourceBlock.last 0 n blocks)
    {block : SourceBlock} (hblock : block ∈ blocks) {line : ℕ}
    (hline : block.first ≤ line ∧ line ≤ block.last) : EndOk blocks (endLine block line) := by
  unfold endLine
  split_ifs with hfence
  · exact endOk_last h hblock
  · rintro other hother hkind ⟨hle, hlt⟩
    obtain rfl := tiles_unique h hother hblock ⟨hle, le_of_lt hlt⟩ hline
    exact hfence hkind

theorem startOk_max {low first : ℕ} (hlow : StartOk blocks low) (hfirst : StartOk blocks first) :
    StartOk blocks (max low first) := by
  rcases Nat.le_total low first with hle | hle
  · rwa [Nat.max_eq_right hle]
  · rwa [Nat.max_eq_left hle]

theorem endOk_min {high last : ℕ} (hhigh : EndOk blocks high) (hlast : EndOk blocks last) :
    EndOk blocks (min high last) := by
  rcases Nat.le_total high last with hle | hle
  · rwa [Nat.min_eq_left hle]
  · rwa [Nat.min_eq_right hle]

end Fences

section Selections

variable {source : SourceState} {candidate : NoteContextMatch} {first last n : ℕ}

theorem blockIndex_spec (h : Tiles SourceBlock.first SourceBlock.last 0 n source.blocks)
    (line : ℕ) (hline : line < n) :
    blockIndex source line < source.blocks.length ∧
      source.blocks.getD (blockIndex source line) default ∈ source.blocks ∧
      (source.blocks.getD (blockIndex source line) default).first ≤ line ∧
      line ≤ (source.blocks.getD (blockIndex source line) default).last := by
  obtain ⟨block, hblock, hrange⟩ := tiles_covers h (Nat.zero_le line) hline
  have hlt : blockIndex source line < source.blocks.length :=
    List.findIdx_lt_length_of_exists ⟨block, hblock, by simpa using hrange⟩
  have hfound := List.findIdx_getElem (w := hlt)
  rw [List.getD_eq_getElem _ _ hlt]
  simp only [Bool.and_eq_true, decide_eq_true_eq] at hfound
  exact ⟨hlt, List.getElem_mem hlt, hfound⟩

/-- A selection holds the matched lines, lies within the chunk and cuts no fence. -/
structure Selects (source : SourceState) (candidate : NoteContextMatch) (first last : ℕ) :
    Prop where
  from_chunk : candidate.lineStart - 1 ≤ first ∧ first ≤ candidate.matchLineStart - 1
  to_chunk : candidate.matchLineEnd - 1 ≤ last ∧ last ≤ candidate.lineEnd - 1
  start : StartOk source.blocks first
  stop : EndOk source.blocks last

theorem mem_of_nearest {blocks : List SourceBlock} {block : SourceBlock}
    (h : nearest blocks = some block) : block ∈ blocks := List.mem_of_find?_eq_some h

theorem widenStart_spec {low : ℕ} (high last : ℕ) (hlow : StartOk source.blocks low)
    (h : Tiles SourceBlock.first SourceBlock.last 0 n source.blocks) (hfirst : low ≤ first)
    (hstart : StartOk source.blocks first) {before : Option SourceBlock}
    (hbefore : ∀ block, before = some block → block ∈ source.blocks ∧ block.last ≤ first) :
    low ≤ widenStart source low high first last before ∧
      widenStart source low high first last before ≤ first ∧
      StartOk source.blocks (widenStart source low high first last before) := by
  cases before with
  | none => exact ⟨hfirst, le_rfl, hstart⟩
  | some block =>
    obtain ⟨hmem, hlt⟩ := hbefore block rfl
    have hrange := (tiles_mem h hmem).2.1
    dsimp only [widenStart]
    split_ifs
    · exact ⟨le_max_left _ _, max_le hfirst (by omega), startOk_max hlow (startOk_first h hmem)⟩
    · exact ⟨hfirst, le_rfl, hstart⟩

theorem widenEnd_spec {high : ℕ} (low first : ℕ) (hhigh : EndOk source.blocks high)
    (h : Tiles SourceBlock.first SourceBlock.last 0 n source.blocks) (hlast : last ≤ high)
    (hstop : EndOk source.blocks last) {after : Option SourceBlock}
    (hafter : ∀ block, after = some block → block ∈ source.blocks ∧ last ≤ block.first) :
    last ≤ widenEnd source low high first last after ∧
      widenEnd source low high first last after ≤ high ∧
      EndOk source.blocks (widenEnd source low high first last after) := by
  cases after with
  | none => exact ⟨le_rfl, hlast, hstop⟩
  | some block =>
    obtain ⟨hmem, hlt⟩ := hafter block rfl
    have hrange := (tiles_mem h hmem).2.1
    dsimp only [widenEnd]
    split_ifs
    · exact ⟨le_min hlast (by omega), min_le_left _ _, endOk_min hhigh (endOk_last h hmem)⟩
    · exact ⟨le_rfl, hlast, hstop⟩

/-- A block before another one ends before it begins. -/
theorem take_before (h : Tiles SourceBlock.first SourceBlock.last 0 n source.blocks) {k : ℕ}
    (hk : k < source.blocks.length) {block : SourceBlock}
    (hblock : block ∈ (source.blocks.take k).reverse) :
    block ∈ source.blocks ∧ block.last < (source.blocks.getD k default).first := by
  have hmem : block ∈ source.blocks.take k := List.mem_reverse.mp hblock
  refine ⟨List.mem_of_mem_take hmem, ?_⟩
  have hpairs := tiles_pairwise h
  rw [← List.take_append_drop k source.blocks] at hpairs
  rw [List.getD_eq_getElem _ _ hk]
  refine (List.pairwise_append.mp hpairs).2.2 block hmem _ ?_
  rw [List.drop_eq_getElem_cons hk]
  exact List.mem_cons_self

theorem drop_after (h : Tiles SourceBlock.first SourceBlock.last 0 n source.blocks) {k : ℕ}
    (hk : k < source.blocks.length) {block : SourceBlock}
    (hblock : block ∈ source.blocks.drop (k + 1)) :
    block ∈ source.blocks ∧ (source.blocks.getD k default).last < block.first := by
  refine ⟨List.mem_of_mem_drop hblock, ?_⟩
  have hpairs := tiles_pairwise h
  rw [← List.take_append_drop k source.blocks, List.drop_eq_getElem_cons hk] at hpairs
  rw [List.getD_eq_getElem _ _ hk]
  exact (List.pairwise_cons.mp (List.pairwise_append.mp hpairs).2.1).1 block hblock

theorem selectContext_spec
    (h : Tiles SourceBlock.first SourceBlock.last 0 n source.blocks)
    (hlines : candidate.lineStart ≤ candidate.matchLineStart ∧
      candidate.matchLineStart ≤ candidate.matchLineEnd ∧
      candidate.matchLineEnd ≤ candidate.lineEnd)
    (hhigh : candidate.lineEnd - 1 < n) (hlow : StartOk source.blocks (candidate.lineStart - 1))
    (hend : EndOk source.blocks (candidate.lineEnd - 1))
    (hselect : selectContext source candidate = some (first, last)) :
    Selects source candidate first last := by
  unfold selectContext at hselect
  dsimp only at hselect
  obtain ⟨hstartIndex, hstartMem, hstartRange⟩ :=
    blockIndex_spec h (candidate.matchLineStart - 1) (by omega)
  obtain ⟨hendIndex, hendMem, hendRange⟩ :=
    blockIndex_spec h (candidate.matchLineEnd - 1) (by omega)
  have hbefore : ∀ block,
      nearest (source.blocks.take (blockIndex source (candidate.matchLineStart - 1))).reverse =
        some block → block ∈ source.blocks ∧
        block.last < (source.blocks.getD (blockIndex source (candidate.matchLineStart - 1))
          default).first :=
    fun block hblock => take_before h hstartIndex (mem_of_nearest hblock)
  have hafter : ∀ block,
      nearest (source.blocks.drop (blockIndex source (candidate.matchLineEnd - 1) + 1)) =
        some block → block ∈ source.blocks ∧
        (source.blocks.getD (blockIndex source (candidate.matchLineEnd - 1)) default).last <
          block.first :=
    fun block hblock => drop_after h hendIndex (mem_of_nearest hblock)
  generalize hstartBlock : source.blocks.getD (blockIndex source (candidate.matchLineStart - 1))
    default = startBlock at *
  generalize hendBlock : source.blocks.getD (blockIndex source (candidate.matchLineEnd - 1))
    default = endBlock at *
  have hstartLine : startBlock.first ≤ startLine startBlock (candidate.matchLineStart - 1) ∧
      startLine startBlock (candidate.matchLineStart - 1) ≤ candidate.matchLineStart - 1 := by
    unfold startLine
    split_ifs <;> omega
  have hendLine : candidate.matchLineEnd - 1 ≤ endLine endBlock (candidate.matchLineEnd - 1) ∧
      endLine endBlock (candidate.matchLineEnd - 1) ≤ endBlock.last := by
    unfold endLine
    split_ifs <;> omega
  by_cases hfits : (!fitting source (candidate.lineStart - 1) (candidate.lineEnd - 1)
      (startLine startBlock (candidate.matchLineStart - 1))
      (endLine endBlock (candidate.matchLineEnd - 1))) = true
  · rw [if_pos hfits] at hselect
    cases hselect
  rw [if_neg hfits] at hselect
  have hfits' : candidate.lineStart - 1 ≤ startLine startBlock (candidate.matchLineStart - 1) ∧
      endLine endBlock (candidate.matchLineEnd - 1) ≤ candidate.lineEnd - 1 := by
    simp only [Bool.not_eq_true', Bool.not_eq_false, fitting, Bool.and_eq_true,
      decide_eq_true_eq] at hfits
    exact hfits.1
  generalize fitting source (candidate.lineStart - 1) (candidate.lineEnd - 1)
    (max (candidate.lineStart - 1) startBlock.first)
    (min (candidate.lineEnd - 1) endBlock.last) = whole at hselect
  -- the selection before it is widened
  have hcore : ∃ first' last', first' = (if whole = true then
        max (candidate.lineStart - 1) startBlock.first
      else startLine startBlock (candidate.matchLineStart - 1)) ∧
      last' = (if whole = true then min (candidate.lineEnd - 1) endBlock.last
        else endLine endBlock (candidate.matchLineEnd - 1)) ∧
      (candidate.lineStart - 1 ≤ first' ∧ startBlock.first ≤ first' ∧
        first' ≤ candidate.matchLineStart - 1) ∧
      (candidate.matchLineEnd - 1 ≤ last' ∧ last' ≤ endBlock.last ∧
        last' ≤ candidate.lineEnd - 1) ∧
      StartOk source.blocks first' ∧ EndOk source.blocks last' := by
    refine ⟨_, _, rfl, rfl, ?_⟩
    split_ifs
    · exact ⟨⟨le_max_left _ _, le_max_right _ _, max_le (by omega) (by omega)⟩,
        ⟨le_min (by omega) (by omega), min_le_right _ _, min_le_left _ _⟩,
        startOk_max hlow (startOk_first h hstartMem), endOk_min hend (endOk_last h hendMem)⟩
    · exact ⟨⟨by omega, by omega, by omega⟩, ⟨by omega, by omega, by omega⟩,
        startOk_startLine h hstartMem hstartRange, endOk_endLine h hendMem hendRange⟩
  obtain ⟨first', last', hfirst', hlast', hfirstRange, hlastRange, hfirstOk, hlastOk⟩ := hcore
  rw [← hfirst', ← hlast'] at hselect
  cases hselect
  obtain ⟨hwideLow, hwideFirst, hwideStart⟩ := widenStart_spec (candidate.lineEnd - 1) last' hlow h
    hfirstRange.1 hfirstOk fun block hblock =>
      ⟨(hbefore block hblock).1, by have := (hbefore block hblock).2; omega⟩
  obtain ⟨hwideLast, hwideHigh, hwideStop⟩ := widenEnd_spec (candidate.lineStart - 1)
    (widenStart source (candidate.lineStart - 1) (candidate.lineEnd - 1) first' last'
      (nearest (source.blocks.take (blockIndex source (candidate.matchLineStart - 1))).reverse))
    hend h hlastRange.2.2 hlastOk fun block hblock =>
      ⟨(hafter block hblock).1, by have := (hafter block hblock).2; omega⟩
  exact ⟨⟨hwideLow, by omega⟩, ⟨by omega, hwideHigh⟩, hwideStart, hwideStop⟩

end Selections

end Piclaw.NoteContext
