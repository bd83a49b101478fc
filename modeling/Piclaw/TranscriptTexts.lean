import Piclaw.TranscriptRecords

/-!
# A transcript as one text

How the text of the written messages splits into lines, and what trimming it does: the last
content loses the white space behind it, which its record does not hold.
-/

namespace Piclaw
namespace Transcript
open TextRuns

section Splitting

theorem splitLines_append (a b : Chars) :
    splitLines (a ++ '\n' :: b) = splitLines a ++ splitLines b :=
  List.splitOn_append_cons_self a b

theorem splitLines_of_not_mem {text : Chars} (h : '\n' ∉ text) : splitLines text = [text] :=
  List.splitOn_eq_singleton h

theorem splitLines_ne_nil (text : Chars) : splitLines text ≠ [] := List.splitOn_ne_nil '\n' text

theorem not_mem_of_mem_splitLines {text line : Chars} (h : line ∈ splitLines text) :
    '\n' ∉ line := by
  induction text generalizing line with
  | nil =>
    rw [List.mem_singleton.mp h]
    exact List.not_mem_nil
  | cons c text ih =>
    unfold splitLines at h ih
    rw [List.splitOn_cons_eq_if_modifyHead] at h
    split_ifs at h with hc
    · rcases List.mem_cons.mp h with rfl | h
      · exact List.not_mem_nil
      · exact ih h
    · cases hsplit : text.splitOn '\n' with
      | nil => exact absurd hsplit (List.splitOn_ne_nil _ _)
      | cons first rest =>
        rw [hsplit] at h ih
        rw [List.modifyHead_cons] at h
        rcases List.mem_cons.mp h with rfl | h
        · intro hmem
          rcases List.mem_cons.mp hmem with rfl | hmem
          · exact hc (by decide)
          · exact ih List.mem_cons_self hmem
        · exact ih (List.mem_cons_of_mem _ h)

theorem joinLines_concat {lines : List Chars} {line : Chars} (h : lines ≠ []) :
    joinLines (lines ++ [line]) = joinLines lines ++ '\n' :: line := by
  unfold joinLines
  induction lines with
  | nil => exact absurd rfl h
  | cons first lines ih =>
    cases lines with
    | nil => simp
    | cons second lines =>
      rw [List.cons_append, List.cons_append, List.intercalate_cons_cons,
        List.intercalate_cons_cons, ← List.cons_append, ih (List.cons_ne_nil _ _)]
      simp

theorem joinLines_splitLines (text : Chars) : joinLines (splitLines text) = text :=
  List.intercalate_splitOn '\n'

theorem splitLines_joinLines {lines : List Chars} (h : ∀ line ∈ lines, '\n' ∉ line)
    (hne : lines ≠ []) : splitLines (joinLines lines) = lines :=
  List.splitOn_intercalate '\n' h hne

theorem not_mem_indent {line : Chars} (h : '\n' ∉ line) : '\n' ∉ indent line := by
  unfold indent
  simpa using h

theorem splitLines_indentText (content : Chars) :
    splitLines (indentText content) = (splitLines content).map indent := by
  unfold indentText
  refine splitLines_joinLines ?_ ?_
  · intro line hline
    obtain ⟨line', hline', rfl⟩ := List.mem_map.mp hline
    exact not_mem_indent (not_mem_of_mem_splitLines hline')
  · intro hnil
    exact splitLines_ne_nil content (List.map_eq_nil_iff.mp hnil)

theorem Block.Headed.mem_header {b : Block} (h : b.Headed) {c : Char} (hc : c ∈ b.header)
    (htrimmed : isTrimmed c = true) : c = ' ' := by
  have hcases : c ∈ b.sender ∨ c = ' ' ∨ c = '@' ∨ c = ' ' ∨ c ∈ b.time ∨ c = ':' := by
    unfold Block.header at hc
    simpa using hc
  rcases hcases with hc | hc | rfl | hc | hc | rfl
  · exact h.sender.spaces c hc htrimmed
  · exact hc
  · exact absurd htrimmed (by decide)
  · exact hc
  · exact h.time.spaces c hc htrimmed
  · exact absurd htrimmed (by decide)

theorem Block.Headed.not_mem_header {b : Block} (h : b.Headed) {c : Char}
    (htrimmed : isTrimmed c = true) (hne : c ≠ ' ') : c ∉ b.header :=
  fun hc => hne (h.mem_header hc htrimmed)

theorem Block.Headed.splitLines_written {b : Block} (h : b.Headed) :
    splitLines b.written = b.lines := by
  have hheader := splitLines_of_not_mem (h.not_mem_header (c := '\n') (by decide) (by decide))
  unfold Block.written formatBody Block.lines Block.bodyLines
  split_ifs
  · exact hheader
  · rw [splitLines_append, hheader, splitLines_indentText]
    rfl

def writtenBlocks (blocks : List Block) : Chars :=
  sectionBreak.intercalate (blocks.map Block.written)

theorem writtenBlocks_cons_cons (b c : Block) (rest : List Block) :
    writtenBlocks (b :: c :: rest) =
      b.written ++ '\n' :: ([] ++ '\n' :: writtenBlocks (c :: rest)) := by
  unfold writtenBlocks
  rw [List.map_cons, List.map_cons, List.intercalate_cons_cons]
  simp [sectionBreak]

theorem splitLines_writtenBlocks {blocks : List Block} (hne : blocks ≠ [])
    (h : ∀ b ∈ blocks, b.Headed) : splitLines (writtenBlocks blocks) = transcriptLines blocks := by
  induction blocks with
  | nil => exact absurd rfl hne
  | cons b blocks ih =>
    have hb := (h b List.mem_cons_self).splitLines_written
    cases blocks with
    | nil => exact (congrArg splitLines List.intercalate_singleton).trans hb
    | cons c rest =>
      rw [writtenBlocks_cons_cons, splitLines_append, splitLines_append, hb,
        ih (List.cons_ne_nil _ _) (fun d hd => h d (List.mem_cons_of_mem _ hd))]
      rfl

end Splitting

section Trimming

def indentCharacter (c : Char) : Chars := if c = '\n' then ['\n', ' ', ' '] else [c]

theorem indentText_eq (content : Chars) :
    indentText content = ' ' :: ' ' :: content.flatMap indentCharacter := by
  induction content with
  | nil => rfl
  | cons c content ih =>
    unfold indentText joinLines splitLines at ih ⊢
    rw [List.splitOn_cons_eq_if_modifyHead, List.flatMap_cons]
    unfold indentCharacter at ih ⊢
    cases hsplit : content.splitOn '\n' with
    | nil => exact absurd hsplit (List.splitOn_ne_nil _ _)
    | cons first rest =>
      rw [hsplit, List.map_cons] at ih
      by_cases hc : c = '\n'
      · rw [if_pos (by simp [hc]), if_pos hc, List.map_cons, List.map_cons,
          List.intercalate_cons_cons, ih]
        rfl
      · rw [if_neg (by simp [hc]), if_neg hc, List.modifyHead_cons, List.map_cons]
        unfold indent at ih ⊢
        rw [List.intercalate_cons_cons_left, List.intercalate_cons_cons_left] at ih ⊢
        rw [List.intercalate_cons_cons_left, (List.cons.inj (List.cons.inj ih).2).2]
        rfl

theorem flatMap_indentCharacter_trimmed {text : Chars} (h : ∀ c ∈ text, isTrimmed c = true) :
    ∀ c ∈ text.flatMap indentCharacter, isTrimmed c = true := by
  intro c hc
  obtain ⟨d, hd, hcd⟩ := List.mem_flatMap.mp hc
  unfold indentCharacter at hcd
  split_ifs at hcd
  · have hcases : c = '\n' ∨ c = ' ' := by simpa using hcd
    rcases hcases with rfl | rfl
    · decide
    · decide
  · rw [List.mem_singleton.mp hcd]
    exact h d hd

/-- Trimming the end of a written message trims the end of its content. -/
theorem formatBody_trimEnd {header content : Chars}
    (hheader : header.rdropWhile isTrimmed = header) :
    (formatBody header content).rdropWhile isTrimmed =
      formatBody header (content.rdropWhile isTrimmed) := by
  obtain ⟨tail, hcontent, htail⟩ := exists_rdropWhile_append isTrimmed content
  generalize hkept : content.rdropWhile isTrimmed = kept at hcontent
  by_cases hempty : kept = []
  · rw [hempty, List.nil_append] at hcontent
    rw [hempty]
    unfold formatBody
    rw [if_pos rfl]
    split_ifs with hnil
    · exact hheader
    · rw [rdropWhile_append_of_all, hheader]
      intro c hc
      rw [indentText_eq, hcontent] at hc
      have hcases : c = '\n' ∨ c = ' ' ∨ c = ' ' ∨ c ∈ tail.flatMap indentCharacter := by
        simpa only [List.mem_cons] using hc
      rcases hcases with rfl | rfl | rfl | hc
      · decide
      · decide
      · decide
      · exact flatMap_indentCharacter_trimmed htail c hc
  · have hlast := List.rdropWhile_last_not isTrimmed content (by rw [hkept]; exact hempty)
    have hfull : content ≠ [] := by
      intro hnil
      rw [hnil, List.rdropWhile_nil] at hkept
      exact hempty hkept.symm
    simp only [hkept] at hlast
    have hsplit : kept = kept.dropLast ++ [kept.getLast hempty] :=
      (List.dropLast_append_getLast hempty).symm
    have hcharacter : indentCharacter (kept.getLast hempty) = [kept.getLast hempty] := by
      unfold indentCharacter
      rw [if_neg]
      intro hnewline
      rw [hnewline] at hlast
      exact hlast (by decide)
    have hkeptText : header ++ '\n' :: indentText kept =
        (header ++ '\n' :: ' ' :: ' ' :: kept.dropLast.flatMap indentCharacter) ++
          [kept.getLast hempty] := by
      rw [indentText_eq]
      nth_rewrite 1 [hsplit]
      rw [List.flatMap_append, List.flatMap_singleton, hcharacter]
      simp
    have htext : header ++ '\n' :: indentText content =
        (header ++ '\n' :: indentText kept) ++ tail.flatMap indentCharacter := by
      rw [indentText_eq, indentText_eq, hcontent, List.flatMap_append]
      simp
    unfold formatBody
    rw [if_neg hempty, if_neg hfull, htext,
      rdropWhile_append_of_all (flatMap_indentCharacter_trimmed htail), hkeptText]
    exact List.rdropWhile_concat_neg _ _ _ hlast

theorem clean_concat {line : Chars} {c : Char} (hc : isTrimmed c = true) :
    clean (line ++ [c]) = clean line ∨ clean (line ++ [c]) = clean line ++ [c] := by
  have hblank : blank (line ++ [c]) = blank line := by
    unfold blank
    rw [List.all_append, List.all_cons, hc]
    simp
  unfold clean
  rw [hblank]
  split_ifs
  · exact .inl rfl
  · exact .inr rfl

theorem joinLines_concat_append (lines : List Chars) (line tail : Chars) :
    joinLines (lines ++ [line ++ tail]) = joinLines (lines ++ [line]) ++ tail := by
  cases lines with
  | nil => simp [joinLines]
  | cons first lines =>
    rw [joinLines_concat (List.cons_ne_nil _ _), joinLines_concat (List.cons_ne_nil _ _)]
    simp

/-- White space behind a content is not part of its text. -/
theorem bodyText_concat {content : Chars} {c : Char} (hc : isTrimmed c = true) :
    bodyText (content ++ [c]) = bodyText content := by
  have hstrip : ∀ text : Chars, trimText (text ++ [c]) = trimText text :=
    fun text => stripEnds_append_of_all (by simpa using hc)
  unfold bodyText
  by_cases hnewline : c = '\n'
  · have hlines : splitLines (content ++ [c]) = splitLines content ++ [[]] := by
      rw [hnewline]
      exact splitLines_append content []
    have hne : (splitLines content).map clean ≠ [] :=
      fun hnil => splitLines_ne_nil content (List.map_eq_nil_iff.mp hnil)
    rw [hlines, List.map_append, List.map_singleton, joinLines_concat hne]
    have hclean : clean [] = [] := rfl
    rw [hclean, ← hnewline]
    exact hstrip _
  · obtain ⟨lines, line, hsplit⟩ : ∃ lines line, splitLines content = lines ++ [line] :=
      ⟨_, _, (List.dropLast_append_getLast (splitLines_ne_nil content)).symm⟩
    have hparts : ∀ l ∈ lines ++ [line], '\n' ∉ l := by
      intro l hl
      rw [← hsplit] at hl
      exact not_mem_of_mem_splitLines hl
    have hlines : splitLines (content ++ [c]) = lines ++ [line ++ [c]] := by
      have htext : content ++ [c] = joinLines (lines ++ [line ++ [c]]) := by
        rw [joinLines_concat_append, ← hsplit, joinLines_splitLines]
      rw [htext, splitLines_joinLines]
      · intro l hl
        rcases List.mem_append.mp hl with hl | hl
        · exact hparts l (List.mem_append_left _ hl)
        · rw [List.mem_singleton.mp hl]
          intro hmem
          rcases List.mem_append.mp hmem with hmem | hmem
          · exact hparts line (by simp) hmem
          · exact hnewline (List.mem_singleton.mp hmem).symm
      · simp
    rw [hlines, hsplit, List.map_append, List.map_append, List.map_singleton, List.map_singleton]
    rcases @clean_concat line c hc with hclean | hclean
    · rw [hclean]
    · rw [hclean, joinLines_concat_append]
      exact hstrip _

theorem bodyText_trimEnd (content : Chars) :
    bodyText (content.rdropWhile isTrimmed) = bodyText content := by
  obtain ⟨tail, hcontent, htail⟩ := exists_rdropWhile_append isTrimmed content
  have hstrip : ∀ kept tail : Chars, (∀ c ∈ tail, isTrimmed c = true) →
      bodyText (kept ++ tail) = bodyText kept := by
    intro kept tail
    induction tail generalizing kept with
    | nil =>
      intro _
      rw [List.append_nil]
    | cons c tail ih =>
      intro h
      have hsplit : kept ++ c :: tail = (kept ++ [c]) ++ tail := by simp
      rw [hsplit, ih (kept ++ [c]) fun d hd => h d (List.mem_cons_of_mem _ hd)]
      exact bodyText_concat (h c List.mem_cons_self)
  have h := hstrip (content.rdropWhile isTrimmed) tail htail
  rw [← hcontent] at h
  exact h.symm

/-- The blocks with the white space behind the last content removed. -/
def trimLast : List Block → List Block
  | [] => []
  | [b] => [{ b with content := b.content.rdropWhile isTrimmed }]
  | b :: c :: rest => b :: trimLast (c :: rest)

theorem trimLast_headed {blocks : List Block} (h : ∀ b ∈ blocks, b.Headed) :
    ∀ b ∈ trimLast blocks, b.Headed := by
  induction blocks with
  | nil => exact h
  | cons b blocks ih =>
    have hb := h b List.mem_cons_self
    cases blocks with
    | nil =>
      intro b' hb'
      rw [List.mem_singleton.mp hb']
      exact ⟨hb.sender, hb.time, hb.unmarked, hb.channel, hb.chat⟩
    | cons c rest =>
      intro b' hb'
      rcases List.mem_cons.mp hb' with rfl | hb'
      · exact hb
      · exact ih (fun d hd => h d (List.mem_cons_of_mem _ hd)) b' hb'

theorem map_record_trimLast (blocks : List Block) :
    (trimLast blocks).map Block.record = blocks.map Block.record := by
  induction blocks with
  | nil => rfl
  | cons b blocks ih =>
    cases blocks with
    | nil =>
      unfold trimLast
      rw [List.map_singleton, List.map_singleton]
      unfold Block.record
      rw [bodyText_trimEnd]
    | cons c rest =>
      unfold trimLast
      rw [List.map_cons, ih]
      rfl

theorem trimLast_ne_nil {blocks : List Block} (hne : blocks ≠ []) : trimLast blocks ≠ [] := by
  cases blocks with
  | nil => exact hne
  | cons b blocks =>
    cases blocks with
    | nil => exact List.cons_ne_nil _ _
    | cons c rest => exact List.cons_ne_nil _ _

theorem Block.header_trimEnd (b : Block) : b.header.rdropWhile isTrimmed = b.header := by
  unfold Block.header
  have hsplit : b.sender ++ ' ' :: '@' :: ' ' :: (b.time ++ [':']) =
      (b.sender ++ ' ' :: '@' :: ' ' :: b.time) ++ [':'] := by simp
  rw [hsplit]
  exact List.rdropWhile_concat_neg _ _ _ (by decide)

theorem Block.written_ne_nil (b : Block) : b.written ≠ [] := by
  unfold Block.written formatBody Block.header
  split_ifs
  · simp
  · simp

theorem writtenBlocks_ne_nil {blocks : List Block} (hne : blocks ≠ []) :
    writtenBlocks blocks ≠ [] := by
  cases blocks with
  | nil => exact absurd rfl hne
  | cons b blocks =>
    cases blocks with
    | nil =>
      intro hnil
      exact b.written_ne_nil (List.intercalate_singleton.symm.trans hnil)
    | cons c rest =>
      rw [writtenBlocks_cons_cons]
      simp

theorem writtenBlocks_trimEnd (blocks : List Block) :
    (writtenBlocks blocks).rdropWhile isTrimmed = writtenBlocks (trimLast blocks) := by
  induction blocks with
  | nil => rfl
  | cons b blocks ih =>
    cases blocks with
    | nil =>
      unfold writtenBlocks trimLast
      rw [List.map_singleton, List.map_singleton, List.intercalate_singleton,
        List.intercalate_singleton]
      exact formatBody_trimEnd b.header_trimEnd
    | cons c rest =>
      have hne : (writtenBlocks (c :: rest)).rdropWhile isTrimmed ≠ [] := by
        rw [ih]
        exact writtenBlocks_ne_nil (trimLast_ne_nil (List.cons_ne_nil _ _))
      have hsplit : b.written ++ '\n' :: ([] ++ '\n' :: writtenBlocks (c :: rest)) =
          (b.written ++ ['\n', '\n']) ++ writtenBlocks (c :: rest) := by simp
      have htrim : writtenBlocks (trimLast (b :: c :: rest)) =
          b.written ++ '\n' :: ([] ++ '\n' :: writtenBlocks (trimLast (c :: rest))) := by
        unfold trimLast
        cases rest with
        | nil => exact writtenBlocks_cons_cons _ _ _
        | cons d rest => exact writtenBlocks_cons_cons _ _ _
      rw [writtenBlocks_cons_cons, hsplit, rdropWhile_append_of_ne_nil hne, ih, htrim]
      simp

end Trimming

end Transcript
end Piclaw
