import Piclaw.NoteCovers

/-!
# The chunks of a note tile its file

The byte ranges, texts, lines and headings of the chunks of an accepted file, for every file.
-/

namespace Piclaw.NoteChunks

open Relational Tilings Utf8Decoding

section Chunk

variable {hashes : Hashes} {sourceRevision text : Text} {lines : List Line} {blocks : List Block}
  {headingPath : List Text} {chunk : MarkdownChunk}

/-- What a chunk says of its lines. -/
structure ChunkFields (lines : List Line) (headingPath : List Text) (chunk : MarkdownChunk) :
    Prop where
  lineStart : chunk.lineStart = firstLineOf chunk + 1
  lineEnd : chunk.lineEnd = lastLineOf chunk + 1
  range : firstLineOf chunk ≤ lastLineOf chunk
  inside : lastLineOf chunk < lines.length
  firstByte : chunk.firstByte = offset lines (firstLineOf chunk)
  afterLastByte : chunk.afterLastByte = offset lines (lastLineOf chunk + 1)
  text : chunk.text = ((lines.drop (firstLineOf chunk)).take
    (lastLineOf chunk + 1 - firstLineOf chunk)).flatMap Line.rawText
  short : chunk.afterLastByte - chunk.firstByte ≤ maxChunkBytes
  outside : fenceState lines (firstLineOf chunk) = none
  path : chunk.headingPath = headingPath

theorem chunkWith_fields (h : LinesOf text lines)
    (hchunk : ChunkWith hashes sourceRevision lines headingPath chunk) :
    ChunkFields lines headingPath chunk := by
  obtain ⟨kind, first, last, rfl, hle, hlast, hshort, houtside⟩ := hchunk
  have hstartLine : (lineAt lines first).lineNumber = first + 1 := (h.at (by omega)).1
  have hendLine : (lineAt lines last).lineNumber = last + 1 := (h.at hlast).1
  have hfirst : firstLineOf (chunkOf hashes sourceRevision lines kind first last headingPath) =
      first := by
    change (lineAt lines first).lineNumber - 1 = first
    omega
  have hend : lastLineOf (chunkOf hashes sourceRevision lines kind first last headingPath) =
      last := by
    change (lineAt lines last).lineNumber - 1 = last
    omega
  have hfirstByte : (lineAt lines first).firstByte = offset lines first := (h.at (by omega)).2.1
  have hafter : (lineAt lines last).afterLastByte = offset lines (last + 1) := (h.at hlast).2.2.1
  constructor
  · rw [hfirst]
    exact hstartLine
  · rw [hend]
    exact hendLine
  · rwa [hfirst, hend]
  · rwa [hend]
  · rw [hfirst]
    exact hfirstByte
  · rw [hend]
    exact hafter
  · rw [hfirst, hend]
    rfl
  · change (lineAt lines last).afterLastByte - (lineAt lines first).firstByte ≤ maxChunkBytes
    rwa [hafter, hfirstByte]
  · rwa [hfirst]
  · rfl

theorem encode_append (s t : Text) : encode (s ++ t) = encode s ++ encode t :=
  List.flatMap_append

/-- The text of a run of lines is that of their bytes. -/
theorem encode_lines (h : LinesOf text lines) {first stop : ℕ} (hle : first ≤ stop) :
    encode (((lines.drop first).take (stop - first)).flatMap Line.rawText) =
      ((encode text).drop (offset lines first)).take (offset lines stop - offset lines first) := by
  have hfront : lines.take stop = lines.take first ++ (lines.drop first).take (stop - first) := by
    rw [← List.take_add, Nat.add_sub_cancel' hle]
  have hstop : offset lines stop = offset lines first +
      (encode (((lines.drop first).take (stop - first)).flatMap Line.rawText)).length := by
    unfold offset
    rw [hfront, List.flatMap_append, byteLength_append]
    rfl
  have hall : encode text = encode ((lines.take first).flatMap Line.rawText) ++
      (encode (((lines.drop first).take (stop - first)).flatMap Line.rawText) ++
        encode ((lines.drop stop).flatMap Line.rawText)) := by
    rw [← encode_append, ← encode_append, ← List.flatMap_append, ← List.flatMap_append,
      ← List.append_assoc, ← hfront, List.take_append_drop, h.texts]
  have hlength : offset lines first =
      (encode ((lines.take first).flatMap Line.rawText)).length := rfl
  rw [hstop, Nat.add_sub_cancel_left, hall, hlength, List.drop_left, List.take_left]

/-- The headings up to a line. -/
def headingsUpTo (blocks : List Block) (line : ℕ) : List Heading :=
  headingsOf (blocks.filter fun block => block.firstLine ≤ line)

theorem headingsOf_append (front rest : List Block) :
    headingsOf (front ++ rest) = headingsOf front ++ headingsOf rest :=
  List.filterMap_append

theorem headingsOf_none {blocks : List Block} (h : ∀ block ∈ blocks, block.heading? = none) :
    headingsOf blocks = [] :=
  List.filterMap_eq_nil_iff.mpr h

/-- Within the lines of a section, the headings up to a line are those up to the section's. -/
theorem section_headings {part : Section} {start stop line : ℕ}
    (hpart : SectionOf blocks part)
    (hblocks : Tiles Block.firstLine Block.lastLine 0 lines.length blocks)
    (htiles : Tiles Block.firstLine Block.lastLine start stop part.blocks)
    (hstart : start ≤ line) (hstop : line < stop) :
    part.headingPath = (enclosing (headingsUpTo blocks line)).map Heading.text ∧
      ∀ block ∈ blocks, block.heading? ≠ none → block.firstLine ≤ start ∨ stop ≤ block.firstLine
      := by
  obtain ⟨before, after, heq, hpath⟩ := hpart.run
  obtain ⟨first, rest, hcons⟩ := List.exists_cons_of_ne_nil hpart.nonempty
  subst heq
  obtain ⟨stop', hfront, hafter⟩ := tiles_append.mp hblocks
  obtain ⟨start', hbefore, hmiddle⟩ := tiles_append.mp hfront
  have hhead : part.blocks.head? = some first := by
    rw [hcons]
    rfl
  have hfirst := tiles_head htiles hhead
  have hsame : start' = start := (tiles_head hmiddle hhead).symm.trans hfirst
  have hlast := List.getLast?_eq_some_getLast hpart.nonempty
  have hend : stop' = stop := (tiles_last hmiddle hlast).symm.trans (tiles_last htiles hlast)
  subst hsame hend
  have hrest : ∀ block ∈ rest, block.heading? = none := by
    have htail := hpart.heading
    rwa [hcons] at htail
  constructor
  · have hall : before.filter (fun block => block.firstLine ≤ line) = before := by
      refine List.filter_eq_self.mpr fun block hmem => ?_
      have hbounds := tiles_mem hbefore hmem
      simp only [decide_eq_true_eq]
      omega
    have hnone : after.filter (fun block => block.firstLine ≤ line) = [] := by
      refine List.filter_eq_nil_iff.mpr fun block hmem => ?_
      have hbounds := tiles_mem hafter hmem
      simp only [decide_eq_true_eq]
      omega
    have hkept : headingsOf (part.blocks.filter fun block => block.firstLine ≤ line) =
        headingsOf part.blocks := by
      rw [hcons, List.filter_cons_of_pos (by simp only [decide_eq_true_eq]; omega),
        ← List.singleton_append, headingsOf_append, ← List.singleton_append (l := rest),
        headingsOf_append, headingsOf_none hrest,
        headingsOf_none fun block hmem => hrest block (List.mem_of_mem_filter hmem)]
    unfold headingsUpTo
    rw [List.filter_append, List.filter_append, hall, hnone, List.append_nil, headingsOf_append,
      hkept, ← headingsOf_append, hpath]
  · intro block hmem hheading
    rcases List.mem_append.mp hmem with hmem | hmem
    · rcases List.mem_append.mp hmem with hmem | hmem
      · have hbounds := tiles_mem hbefore hmem
        omega
      · rw [hcons] at hmem
        rcases List.mem_cons.mp hmem with rfl | hmem
        · omega
        · exact absurd (hrest block hmem) hheading
    · have hbounds := tiles_mem hafter hmem
      omega

end Chunk

section File

/-- Byte ranges that are not empty and follow each other. -/
def Contiguous : ℕ → ℕ → List MarkdownChunk → Prop
  | start, stop, [] => start = stop
  | start, stop, chunk :: chunks => chunk.firstByte = start ∧ chunk.firstByte < chunk.afterLastByte ∧
      Contiguous chunk.afterLastByte stop chunks

/-- What is said of each chunk of a file, of which the lines and blocks are given. -/
structure ChunkSound (bytes : Bytes) (lines : List Line) (blocks : List Block)
    (chunk : MarkdownChunk) : Prop where
  ordered : 1 ≤ chunk.lineStart ∧ chunk.lineStart ≤ chunk.lineEnd ∧ chunk.lineEnd ≤ lines.length
  firstByte : chunk.firstByte = offset lines (chunk.lineStart - 1)
  afterLastByte : chunk.afterLastByte = offset lines chunk.lineEnd
  text : encode chunk.text =
    (bytes.drop chunk.firstByte).take (chunk.afterLastByte - chunk.firstByte)
  short : chunk.afterLastByte - chunk.firstByte ≤ maxChunkBytes
  /-- Neither boundary lies in a fence: the end of the file does not. -/
  unfenced : fenceState lines (chunk.lineStart - 1) = none ∧
    (chunk.lineEnd = lines.length ∨ fenceState lines chunk.lineEnd = none)
  /-- No heading begins behind the first line. -/
  oneSection : ∀ block ∈ blocks, block.heading? ≠ none →
    block.firstLine ≤ chunk.lineStart - 1 ∨ chunk.lineEnd ≤ block.firstLine
  path : chunk.headingPath =
    (enclosing (headingsUpTo blocks (chunk.lineStart - 1))).map Heading.text

structure ChunksNote (bytes : Bytes) (text : Text) (lines : List Line) (blocks : List Block)
    (chunks : List MarkdownChunk) : Prop where
  contiguous : Contiguous 0 bytes.length chunks
  texts : chunks.flatMap MarkdownChunk.text = text
  few : chunks.length ≤ maxChunks
  sound : ∀ chunk ∈ chunks, ChunkSound bytes lines blocks chunk
  /-- The levels along each path grow. -/
  levels : ∀ chunk ∈ chunks,
    (enclosing (headingsUpTo blocks (chunk.lineStart - 1))).Pairwise fun a b => a.level < b.level

variable {hashes : Hashes} {sourceRevision text : Text} {lines : List Line}

theorem contiguous_of_tiles (h : LinesOf text lines) {start stop : ℕ} (chunks : List MarkdownChunk)
    (htiles : Tiles firstLineOf lastLineOf start stop chunks)
    (hchunks : ∀ chunk ∈ chunks, ∃ path, ChunkFields lines path chunk) :
    Contiguous (offset lines start) (offset lines stop) chunks := by
  induction chunks generalizing start with
  | nil =>
    obtain rfl : start = stop := htiles
    exact rfl
  | cons chunk chunks ih =>
    obtain ⟨hfirst, hrange, hrest⟩ := htiles
    obtain ⟨⟨path, hfields⟩, hlater⟩ := List.forall_mem_cons.mp hchunks
    have hinside := hfields.inside
    refine ⟨by rw [hfields.firstByte, hfirst], ?_, ?_⟩
    · rw [hfields.firstByte, hfields.afterLastByte]
      exact h.offset_lt (by omega) (by omega)
    · rw [hfields.afterLastByte]
      exact ih hrest hlater

theorem texts_of_tiles {start stop : ℕ} (chunks : List MarkdownChunk)
    (htiles : Tiles firstLineOf lastLineOf start stop chunks)
    (hchunks : ∀ chunk ∈ chunks, ∃ path, ChunkFields lines path chunk) :
    chunks.flatMap MarkdownChunk.text =
      ((lines.drop start).take (stop - start)).flatMap Line.rawText := by
  induction chunks generalizing start with
  | nil =>
    obtain rfl : start = stop := htiles
    rw [Nat.sub_self, List.take_zero]
    rfl
  | cons chunk chunks ih =>
    have hstop := tiles_le htiles.2.2
    obtain ⟨hfirst, hrange, hrest⟩ := htiles
    obtain ⟨⟨path, hfields⟩, hlater⟩ := List.forall_mem_cons.mp hchunks
    have hsplit : (lines.drop start).take (stop - start) =
        (lines.drop start).take (lastLineOf chunk + 1 - start) ++
          (lines.drop (lastLineOf chunk + 1)).take (stop - (lastLineOf chunk + 1)) := by
      rw [show stop - start =
        (lastLineOf chunk + 1 - start) + (stop - (lastLineOf chunk + 1)) by omega, List.take_add,
        List.drop_drop, show start + (lastLineOf chunk + 1 - start) = lastLineOf chunk + 1 by omega]
    rw [List.flatMap_cons, ih hrest hlater, hfields.text, hfirst, hsplit, List.flatMap_append]

theorem decodeFatal_spec {bytes : Bytes} (h : decodeFatal bytes = some text) :
    encode text = bytes := by
  unfold decodeFatal at h
  split_ifs at h with hvalid
  cases h
  exact hvalid

theorem chunkSound_of {bytes : Bytes} {blocks : List Block} {chunks : List MarkdownChunk}
    {chunk : MarkdownChunk} (h : LinesOf text lines) (hbytes : encode text = bytes)
    (hblocks : Tiles Block.firstLine Block.lastLine 0 lines.length blocks)
    (htiles : Tiles firstLineOf lastLineOf 0 lines.length chunks)
    (hall : ∀ chunk ∈ chunks,
      InSection hashes sourceRevision lines (buildSections blocks) chunk)
    (hchunk : chunk ∈ chunks) : ChunkSound bytes lines blocks chunk := by
  obtain ⟨part, hpart, start, stop, hpartTiles, hstart, hstop, hwith⟩ := hall chunk hchunk
  have hfields := chunkWith_fields h hwith
  obtain ⟨hpath, hheadings⟩ := section_headings ((buildSections_spec blocks).2 part hpart) hblocks
    hpartTiles hstart (lt_of_le_of_lt hfields.range hstop)
  have hline : chunk.lineStart - 1 = firstLineOf chunk := rfl
  have hend := hfields.lineEnd
  have hinside := hfields.inside
  have hrange := hfields.range
  constructor
  · have hbegin := hfields.lineStart
    omega
  · exact hfields.firstByte
  · rw [hend]
    exact hfields.afterLastByte
  · rw [hfields.text, ← hbytes, encode_lines h (by omega), hfields.firstByte,
      hfields.afterLastByte]
  · exact hfields.short
  · refine ⟨hfields.outside, ?_⟩
    rcases tiles_next htiles hchunk with hlast | ⟨next, hnext, hfollows⟩
    · exact .inl (by omega)
    · right
      obtain ⟨other, _, _, _, _, _, _, hotherWith⟩ := hall next hnext
      have houtside := (chunkWith_fields h hotherWith).outside
      rwa [hfollows, ← hend] at houtside
  · intro block hmem hheading
    rcases hheadings block hmem hheading with hearlier | hlater
    · exact .inl (by omega)
    · exact .inr (by omega)
  · rw [hfields.path, hline]
    exact hpath

/-- Hashes that do not tell texts apart. -/
def plainHashes : Hashes := ⟨fun _ => [], fun _ _ _ => []⟩

end File

end Piclaw.NoteChunks
