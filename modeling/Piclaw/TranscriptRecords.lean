import Piclaw.Transcript

/-!
# The records of a written transcript

The lines of a list of written messages, and what the reader makes of them: one record for each
message, where no content holds a blank line before one that reads as a header.
-/

namespace Piclaw
namespace Transcript
open TextRuns

section Headers

/-- One line of text without white space at its ends. -/
structure Tidy (text : Chars) : Prop where
  nonempty : text ≠ []
  spaces : ∀ c ∈ text, isTrimmed c = true → c = ' '
  first : ∀ c, text.head? = some c → isTrimmed c = false
  last : ∀ c, text.getLast? = some c → isTrimmed c = false

theorem isTrimmed_of_isTerminator {c : Char} (h : isTerminator c = true) :
    isTrimmed c = true := by
  unfold isTerminator at h
  simp only [Bool.or_eq_true, decide_eq_true_eq] at h
  rcases h with ((rfl | rfl) | h) | h
  · rfl
  · rfl
  · unfold isTrimmed
    simp [h]
  · unfold isTrimmed
    simp [h]

theorem Tidy.plain {text : Chars} (h : Tidy text) : plain text = true := by
  unfold Transcript.plain
  rw [List.all_eq_true]
  intro c hc
  rw [Bool.not_eq_true']
  by_contra hterminator
  have hterminator : isTerminator c = true := by simpa using hterminator
  have hspace := h.spaces c hc (isTrimmed_of_isTerminator hterminator)
  rw [hspace] at hterminator
  exact absurd hterminator (by decide)

theorem Tidy.trimText_eq {text : Chars} (h : Tidy text) : trimText text = text :=
  stripEnds_eq_self h.first h.last

theorem blank_eq_false {line : Chars} {c : Char} (hmem : c ∈ line) (hc : isTrimmed c = false) :
    blank line = false := by
  unfold blank
  rw [List.all_eq_false]
  exact ⟨c, hmem, by simp [hc]⟩

/-- The first way to read a written header is the one that was meant. -/
theorem atSplits_header {sender behind : Chars} (h : '@' ∉ sender) :
    ∃ rest, atSplits (sender ++ ' ' :: '@' :: ' ' :: behind) = (sender, behind) :: rest := by
  induction sender with
  | nil =>
    have hspace : isTrimmed ' ' = true := by decide
    exact ⟨_, by simp only [List.nil_append, atSplits, hspace, Bool.and_self, if_true]; rfl⟩
  | cons c sender ih =>
    obtain ⟨rest, hrest⟩ := ih (fun hmem => h (List.mem_cons_of_mem _ hmem))
    refine ⟨rest.map (fun split => (c :: split.1, split.2)), ?_⟩
    rw [List.cons_append]
    unfold atSplits
    rw [hrest]
    split
    · next heq =>
      cases sender with
      | nil =>
        rw [List.nil_append] at heq
        exact absurd (List.cons.inj heq).1 (by decide)
      | cons d sender =>
        rw [List.cons_append] at heq
        have hd := (List.cons.inj heq).1
        exact absurd (by rw [hd]; simp) h
    · rfl

end Headers

section Blocks

def Block.header (b : Block) : Chars := b.sender ++ ' ' :: '@' :: ' ' :: (b.time ++ [':'])

def Block.written (b : Block) : Chars := formatBody b.header b.content

def Block.bodyLines (b : Block) : List Chars :=
  if b.content = [] then [] else splitLines b.content

def Block.lines (b : Block) : List Chars := b.header :: b.bodyLines.map indent

def clean (line : Chars) : Chars := if blank line then [] else line

/-- A content with its blank lines emptied, without the white space around it. -/
def bodyText (content : Chars) : Chars :=
  trimText (joinLines ((splitLines content).map clean))

def Block.record (b : Block) : PromptEnvelopeMessage := ⟨b.sender, b.time, bodyText b.content⟩

/-- A header line that is read as one, with its sender and its time. -/
structure Block.Headed (b : Block) : Prop where
  sender : Tidy b.sender
  time : Tidy b.time
  unmarked : '@' ∉ b.sender
  channel : "Channel:".toList.isPrefixOf b.header = false
  chat : "Chat:".toList.isPrefixOf b.header = false

/-- No blank line of the content stands before one that reads as a header once it is indented. -/
def Quiet (content : Chars) : Prop :=
  (splitLines content).IsChain fun line next => blank line = true → headerLike (indent next) = false

theorem Block.Headed.splits {b : Block} (h : b.Headed) :
    ∃ rest, headerSplits b.header = (b.sender, b.time) :: rest := by
  obtain ⟨rest, hrest⟩ := @atSplits_header b.sender (b.time ++ [':']) h.unmarked
  unfold headerSplits Block.header
  rw [hrest, List.filter_cons_of_pos, List.map_cons]
  · dsimp only
    rw [List.dropLast_concat]
    exact ⟨_, rfl⟩
  · dsimp only
    rw [List.dropLast_concat, List.getLast?_concat, h.sender.plain, h.time.plain]
    rfl

theorem Block.at_mem_header (b : Block) : '@' ∈ b.header := by
  unfold Block.header
  simp

theorem Block.Headed.reads {b : Block} (h : b.Headed) : headerLike b.header = true := by
  obtain ⟨rest, hrest⟩ := h.splits
  unfold headerLike
  rw [hrest, List.any_cons]
  simp [h.sender.nonempty, h.time.nonempty]

theorem Block.Headed.opened {b : Block} (h : b.Headed) :
    opens b.header = some ⟨b.sender, b.time, []⟩ := by
  obtain ⟨rest, hrest⟩ := h.splits
  have hblank : blank b.header = false := blank_eq_false b.at_mem_header (by decide)
  have hmessages : b.header ≠ "Messages:".toList := by
    intro heq
    have hmem := b.at_mem_header
    rw [heq] at hmem
    exact absurd hmem (by decide)
  unfold opens
  rw [hblank, h.channel, h.chat, if_neg hmessages, hrest]
  simp [h.sender.trimText_eq, h.time.trimText_eq]

theorem blank_indent (line : Chars) : blank (indent line) = blank line := rfl

theorem indented_indent (line : Chars) : indented (indent line) = true := rfl

theorem parseLines_none_cons (line : Chars) (rest : List Chars) :
    parseLines none (line :: rest) = parseLines (opens line) rest := by
  rw [parseLines]

theorem parseLines_some_cons (o : OpenRecord) (current : Chars) (rest : List Chars) :
    parseLines (some o) (current :: rest) =
      if blank current then
        if headerLike (rest.headD []) then o.close :: parseLines none rest
        else parseLines (some (o.push [])) rest
      else if headerLike current && !indented current then
        o.close :: parseLines (opens current) rest
      else
        parseLines (some (o.push (if indented current then current.drop 2 else current))) rest := by
  rw [parseLines]

/-- The lines of a body are pushed on the open record, whatever they hold. -/
theorem parse_body {o : OpenRecord} {lines rest : List Chars}
    (hquiet : lines.IsChain fun line next => blank line = true → headerLike (indent next) = false)
    (hrest : headerLike (rest.headD []) = false) :
    parseLines (some o) (lines.map indent ++ rest) =
      parseLines (some { o with bodyLines := o.bodyLines ++ lines.map clean }) rest := by
  induction lines generalizing o with
  | nil => simp
  | cons line lines ih =>
    have hnext : blank line = true → headerLike ((lines.map indent ++ rest).headD []) = false := by
      intro hblank
      cases lines with
      | nil => exact hrest
      | cons next lines => exact (List.isChain_cons_cons.mp hquiet).1 hblank
    have htail := @ih (o.push (clean line)) hquiet.tail
    have hpushed : { o.push (clean line) with
        bodyLines := (o.push (clean line)).bodyLines ++ lines.map clean } =
        ({ o with bodyLines := o.bodyLines ++ (line :: lines).map clean } : OpenRecord) := by
      unfold OpenRecord.push
      simp
    rw [hpushed] at htail
    rw [← htail, List.map_cons, List.cons_append, parseLines_some_cons, blank_indent,
      indented_indent]
    unfold clean
    by_cases hblank : blank line = true
    · rw [if_pos hblank, if_pos hblank, hnext hblank]
      rfl
    · rw [if_neg hblank, if_neg hblank, Bool.not_true, Bool.and_false]
      rfl

theorem parse_skip {lines rest : List Chars} (h : ∀ line ∈ lines, opens line = none) :
    parseLines none (lines ++ rest) = parseLines none rest := by
  induction lines with
  | nil => rfl
  | cons line lines ih =>
    rw [List.cons_append, parseLines_none_cons, h line List.mem_cons_self]
    exact ih fun line' hline => h line' (List.mem_cons_of_mem _ hline)

def transcriptLines : List Block → List Chars
  | [] => []
  | [b] => b.lines
  | b :: c :: rest => b.lines ++ [] :: transcriptLines (c :: rest)

theorem headD_transcriptLines (c : Block) (rest : List Block) :
    (transcriptLines (c :: rest)).headD [] = c.header := by
  cases rest with
  | nil => rfl
  | cons d rest => rfl

theorem Block.close_record (b : Block) :
    (OpenRecord.close ⟨b.sender, b.time, [] ++ b.bodyLines.map clean⟩) = b.record := by
  unfold OpenRecord.close Block.record Block.bodyLines bodyText
  split_ifs with h
  · rw [h]
    rfl
  · rfl

theorem Block.Headed.parse_lines {b : Block} {rest : List Chars} (h : b.Headed)
    (hquiet : Quiet b.content)
    (hrest : headerLike (rest.headD []) = false) :
    parseLines none (b.lines ++ rest) =
      parseLines (some ⟨b.sender, b.time, [] ++ b.bodyLines.map clean⟩) rest := by
  have hchain : b.bodyLines.IsChain
      fun line next => blank line = true → headerLike (indent next) = false := by
    unfold Block.bodyLines
    split_ifs
    · exact .nil
    · exact hquiet
  unfold Block.lines
  rw [List.cons_append, parseLines_none_cons, h.opened]
  exact parse_body hchain hrest

/-- One record for each block, in their order. -/
theorem parse_blocks {blocks : List Block} (h : ∀ b ∈ blocks, b.Headed ∧ Quiet b.content) :
    parseLines none (transcriptLines blocks) = blocks.map Block.record := by
  induction blocks with
  | nil => rfl
  | cons b blocks ih =>
    obtain ⟨hheaded, hquiet⟩ := h b List.mem_cons_self
    have htail := ih fun c hc => h c (List.mem_cons_of_mem _ hc)
    have hempty : headerLike [] = false := rfl
    cases blocks with
    | nil =>
      have hlines := @Block.Headed.parse_lines b [] hheaded hquiet hempty
      rw [List.append_nil] at hlines
      exact hlines.trans (congrArg (fun r => [r]) b.close_record)
    | cons c rest =>
      have hlines := @Block.Headed.parse_lines b ([] :: transcriptLines (c :: rest)) hheaded hquiet
        hempty
      have hnext : headerLike ((transcriptLines (c :: rest)).headD []) = true := by
        rw [headD_transcriptLines]
        exact (h c (List.mem_cons_of_mem _ List.mem_cons_self)).1.reads
      have hbreak : blank [] = true := rfl
      rw [transcriptLines, hlines, parseLines_some_cons, if_pos hbreak, if_pos hnext,
        b.close_record, htail]
      rfl

end Blocks

end Transcript
end Piclaw
