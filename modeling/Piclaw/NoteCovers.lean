import Piclaw.NoteBlocks

/-!
# What the chunks of a note cover

Each step of the chunker emits chunks that go on where the last one has ended, and each chunk is
short and begins outside of a fence.
-/

namespace Piclaw.NoteChunks

open Relational Tilings Utf8Decoding

section Units

variable {text : Text} {lines : List Line}

theorem BlockOf.bytes {block : Block} (h : LinesOf text lines) (hblock : BlockOf lines block)
    (hle : block.firstLine ≤ block.lastLine) :
    block.firstByte = offset lines block.firstLine ∧
      block.afterLastByte = offset lines (block.lastLine + 1) := by
  have hinside := hblock.inside
  rw [hblock.shape]
  exact ⟨(h.at (by omega)).2.1, (h.at hinside).2.2.1⟩

/-- A unit has the bytes of its lines and begins outside of a fence. -/
structure UnitOf (lines : List Line) (unit : Unit) : Prop where
  bytes : unit.byteLength = offset lines (unit.lastLine + 1) - offset lines unit.firstLine
  inside : unit.lastLine < lines.length
  outside : fenceState lines unit.firstLine = none
  plain : unit.containsFence = false → ∀ i, unit.firstLine ≤ i → i ≤ unit.lastLine →
    fenceState lines i = none

theorem unitOf_spec {first last : Block} (h : LinesOf text lines) (hfirst : BlockOf lines first)
    (hlast : BlockOf lines last) (hf : first.firstLine ≤ first.lastLine)
    (hl : last.firstLine ≤ last.lastLine)
    (hnext : last.firstLine = first.firstLine ∧ last.lastLine = first.lastLine ∨
      last.firstLine = first.lastLine + 1) : UnitOf lines (unitOf first last) where
  bytes := by
    change last.afterLastByte - first.firstByte = _
    rw [(hlast.bytes h hl).2, (hfirst.bytes h hf).1]
    rfl
  inside := hlast.inside
  outside := hfirst.outside
  plain hcontains i hi hle := by
    change first.firstLine ≤ i at hi
    change i ≤ last.lastLine at hle
    have hplain : first.type ≠ .fence ∧ last.type ≠ .fence := by
      change (decide (first.type = .fence) || decide (last.type = .fence)) = false at hcontains
      simpa using hcontains
    by_cases hin : i ≤ first.lastLine
    · exact hfirst.plain hplain.1 i hi hin
    · exact hlast.plain hplain.2 i (by omega) hle

theorem buildUnits_spec (h : LinesOf text lines) {start stop : ℕ} (blocks : List Block)
    (htiles : Tiles Block.firstLine Block.lastLine start stop blocks)
    (hblocks : ∀ block ∈ blocks, BlockOf lines block) :
    Tiles Unit.firstLine Unit.lastLine start stop (buildUnits blocks) ∧
      ∀ unit ∈ buildUnits blocks, UnitOf lines unit := by
  induction blocks using buildUnits.induct generalizing start with
  | case1 => exact ⟨htiles, fun _ h => by cases h⟩
  | case2 first =>
    obtain ⟨hfirst, hrange, hrest⟩ := htiles
    have hblock := hblocks first List.mem_cons_self
    refine ⟨⟨hfirst, hrange, hrest⟩, fun unit hmem => ?_⟩
    rw [List.mem_singleton.mp hmem]
    exact unitOf_spec h hblock hblock hrange hrange (.inl ⟨rfl, rfl⟩)
  | case3 first second blocks hjoin ih =>
    obtain ⟨hfirst, hrange, hnext, hsecond, hrest⟩ := htiles
    obtain ⟨hblock, hlater⟩ := List.forall_mem_cons.mp hblocks
    obtain ⟨hblock', hlater⟩ := List.forall_mem_cons.mp hlater
    obtain ⟨hunits, hall⟩ := ih hrest hlater
    unfold buildUnits
    rw [if_pos hjoin]
    refine ⟨⟨hfirst, ?_, hunits⟩, List.forall_mem_cons.mpr ⟨?_, hall⟩⟩
    · change first.firstLine ≤ second.lastLine
      omega
    · exact unitOf_spec h hblock hblock' hrange hsecond (.inr hnext)
  | case4 first second blocks hjoin ih =>
    obtain ⟨hfirst, hrange, hrest⟩ := htiles
    obtain ⟨hblock, hlater⟩ := List.forall_mem_cons.mp hblocks
    obtain ⟨hunits, hall⟩ := ih hrest hlater
    unfold buildUnits
    rw [if_neg hjoin]
    refine ⟨⟨hfirst, hrange, hunits⟩, List.forall_mem_cons.mpr ⟨?_, hall⟩⟩
    exact unitOf_spec h hblock hblock hrange hrange (.inl ⟨rfl, rfl⟩)

end Units

section Emitting

variable {hashes : Hashes} {sourceRevision : Text} {text : Text} {lines : List Line}
  {headingPath : List Text} {chunks out : List MarkdownChunk} {start stop : ℕ}

/-- A chunk of whole lines, short, that begins outside of a fence. -/
def ChunkWith (hashes : Hashes) (sourceRevision : Text) (lines : List Line)
    (headingPath : List Text) (chunk : MarkdownChunk) : Prop :=
  ∃ kind first last, chunk = chunkOf hashes sourceRevision lines kind first last headingPath ∧
    first ≤ last ∧ last < lines.length ∧
    offset lines (last + 1) - offset lines first ≤ maxChunkBytes ∧ fenceState lines first = none

def firstLineOf (chunk : MarkdownChunk) : ℕ := chunk.lineStart - 1
def lastLineOf (chunk : MarkdownChunk) : ℕ := chunk.lineEnd - 1

/-- What a step adds to the chunks: lines `start` to `stop`, as chunks of one path. -/
structure Emits (hashes : Hashes) (sourceRevision : Text) (lines : List Line)
    (headingPath : List Text) (start stop : ℕ) (chunks out : List MarkdownChunk) : Prop where
  added : ∃ new, out = chunks ++ new ∧ Tiles firstLineOf lastLineOf start stop new ∧
    ∀ chunk ∈ new, ChunkWith hashes sourceRevision lines headingPath chunk
  few : chunks.length ≤ maxChunks → out.length ≤ maxChunks

theorem Emits.refl : Emits hashes sourceRevision lines headingPath start start chunks chunks where
  added := ⟨[], (List.append_nil _).symm, rfl, fun _ h => by cases h⟩
  few h := h

theorem Emits.trans {middle : ℕ} {next : List MarkdownChunk}
    (h : Emits hashes sourceRevision lines headingPath start middle chunks next)
    (h' : Emits hashes sourceRevision lines headingPath middle stop next out) :
    Emits hashes sourceRevision lines headingPath start stop chunks out where
  added := by
    obtain ⟨new, rfl, htiles, hnew⟩ := h.added
    obtain ⟨new', rfl, htiles', hnew'⟩ := h'.added
    refine ⟨new ++ new', List.append_assoc _ _ _, tiles_append.mpr ⟨middle, htiles, htiles'⟩, ?_⟩
    intro chunk hchunk
    rcases List.mem_append.mp hchunk with hchunk | hchunk
    · exact hnew chunk hchunk
    · exact hnew' chunk hchunk
  few hfew := h'.few (h.few hfew)

theorem pushChunk_spec {kind : String} {first last : ℕ} (h : LinesOf text lines)
    (hle : first ≤ last) (hlast : last < lines.length)
    (hshort : offset lines (last + 1) - offset lines first ≤ maxChunkBytes)
    (houtside : fenceState lines first = none)
    (hpush : pushChunk hashes sourceRevision lines kind first last headingPath chunks = .ok out) :
    Emits hashes sourceRevision lines headingPath first (last + 1) chunks out := by
  unfold pushChunk at hpush
  split_ifs at hpush with hmany
  cases hpush
  have hfirst : firstLineOf (chunkOf hashes sourceRevision lines kind first last headingPath) =
      first := by
    change (lineAt lines first).lineNumber - 1 = first
    rw [(h.at (by omega)).1]
    rfl
  have hend : lastLineOf (chunkOf hashes sourceRevision lines kind first last headingPath) =
      last := by
    change (lineAt lines last).lineNumber - 1 = last
    rw [(h.at hlast).1]
    rfl
  constructor
  · refine ⟨[_], rfl, ⟨hfirst, by omega, ?_⟩, ?_⟩
    · rw [hend]
      exact rfl
    · intro chunk hchunk
      rw [List.mem_singleton.mp hchunk]
      exact ⟨kind, first, last, rfl, hle, hlast, hshort, houtside⟩
  · intro _
    rw [List.length_append, List.length_singleton]
    omega

theorem lastFitting_spec (h : LinesOf text lines) {first : ℕ} (room last : ℕ)
    (hfirst : first ≤ last) (hroom : last + room < lines.length)
    (hfits : offset lines (last + 1) - offset lines first ≤ maxChunkBytes) :
    last ≤ lastFitting lines first room last ∧ lastFitting lines first room last ≤ last + room ∧
      offset lines (lastFitting lines first room last + 1) - offset lines first ≤
        maxChunkBytes := by
  induction room generalizing last with
  | zero => exact ⟨le_rfl, le_rfl, hfits⟩
  | succ room ih =>
    unfold lastFitting
    split_ifs with hnext
    · rw [(h.at (by omega)).2.2.1, (h.at (by omega)).2.1] at hnext
      obtain ⟨hge, hle, hshort⟩ := ih (last + 1) (by omega) (by omega) hnext
      exact ⟨by omega, by omega, hshort⟩
    · exact ⟨le_rfl, by omega, hfits⟩

theorem splitLinesFrom_spec (h : LinesOf text lines) {lastLine : ℕ} (fuel first : ℕ)
    (chunks : List MarkdownChunk) (hlast : lastLine < lines.length) (hfirst : first ≤ lastLine + 1)
    (hfuel : lastLine + 1 ≤ first + fuel)
    (hplain : ∀ i, first ≤ i → i ≤ lastLine → fenceState lines i = none)
    (hsplit : splitLinesFrom hashes sourceRevision lines headingPath lastLine fuel first chunks =
      .ok out) :
    Emits hashes sourceRevision lines headingPath first (lastLine + 1) chunks out := by
  induction fuel generalizing first chunks with
  | zero =>
    cases hsplit
    obtain rfl : first = lastLine + 1 := by omega
    exact Emits.refl
  | succ fuel ih =>
    unfold splitLinesFrom at hsplit
    by_cases hin : first ≤ lastLine
    · rw [if_pos hin] at hsplit
      obtain ⟨hge, hle, hshort⟩ := lastFitting_spec h (lastLine - first) first le_rfl (by omega)
        (by have := (h.at (i := first) (by omega)).2.2.2.2; omega)
      obtain ⟨next, hpush, hsplit⟩ := bind_eq_ok.mp hsplit
      have hemit := pushChunk_spec h hge (by omega) hshort (hplain first le_rfl hin) hpush
      exact hemit.trans (ih _ next (by omega) (by omega)
        (fun i hi hbound => hplain i (by omega) hbound) hsplit)
    · rw [if_neg hin] at hsplit
      cases hsplit
      obtain rfl : first = lastLine + 1 := by omega
      exact Emits.refl

theorem splitUnit_spec (h : LinesOf text lines) {unit : Unit} (hunit : UnitOf lines unit)
    (hrange : unit.firstLine ≤ unit.lastLine)
    (hsplit : splitUnitIntoLineChunks hashes sourceRevision lines unit headingPath chunks =
      .ok out) :
    Emits hashes sourceRevision lines headingPath unit.firstLine (unit.lastLine + 1) chunks
      out := by
  unfold splitUnitIntoLineChunks at hsplit
  split_ifs at hsplit with hfence
  exact splitLinesFrom_spec h _ _ _ hunit.inside (by omega) (by omega)
    (hunit.plain (Bool.eq_false_iff.mpr hfence)) hsplit

theorem emitUnits_spec (h : LinesOf text lines) {units : List Unit}
    (htiles : Tiles Unit.firstLine Unit.lastLine start stop units)
    (hunits : ∀ unit ∈ units, UnitOf lines unit)
    (hshort : offset lines stop - offset lines start ≤ maxChunkBytes)
    (hemit : emitUnits hashes sourceRevision lines units headingPath chunks = .ok out) :
    Emits hashes sourceRevision lines headingPath start stop chunks out := by
  unfold emitUnits at hemit
  cases hhead : units.head? with
  | none =>
    rw [List.head?_eq_none_iff] at hhead
    subst hhead
    cases hemit
    obtain rfl : start = stop := htiles
    exact Emits.refl
  | some first =>
    have hne : units ≠ [] := by
      rintro rfl
      cases hhead
    have hlast := List.getLast?_eq_some_getLast hne
    rw [hhead, hlast] at hemit
    have hfirstMem : first ∈ units := List.mem_of_mem_head? hhead
    have hlastMem := List.getLast_mem hne
    have hstart := tiles_head htiles hhead
    have hstop := tiles_last htiles hlast
    have hbounds := tiles_mem htiles hlastMem
    have hspec := pushChunk_spec h (by omega) (hunits _ hlastMem).inside
      (by rw [hstop, hstart]; exact hshort) (hunits first hfirstMem).outside hemit
    rwa [hstart, hstop] at hspec

theorem unitChunks_spec (h : LinesOf text lines) (units : List Unit) {middle : ℕ}
    (pending : List Unit) (pendingBytes start : ℕ) (chunks : List MarkdownChunk)
    (hpending : Tiles Unit.firstLine Unit.lastLine start middle pending)
    (htiles : Tiles Unit.firstLine Unit.lastLine middle stop units)
    (hpendingUnits : ∀ unit ∈ pending, UnitOf lines unit)
    (hunits : ∀ unit ∈ units, UnitOf lines unit)
    (hbytes : pendingBytes = offset lines middle - offset lines start)
    (hshort : pendingBytes ≤ maxChunkBytes)
    (hemit : unitChunks hashes sourceRevision lines headingPath pending pendingBytes units chunks =
      .ok out) :
    Emits hashes sourceRevision lines headingPath start stop chunks out := by
  induction units generalizing middle pending pendingBytes start chunks with
  | nil =>
    obtain rfl : middle = stop := htiles
    exact emitUnits_spec h hpending hpendingUnits (hbytes ▸ hshort) hemit
  | cons unit units ih =>
    obtain ⟨hfirst, hrange, hrest⟩ := htiles
    obtain ⟨hunit, hlater⟩ := List.forall_mem_cons.mp hunits
    have hsingle : Tiles Unit.firstLine Unit.lastLine middle (unit.lastLine + 1) [unit] :=
      ⟨hfirst, hrange, rfl⟩
    have hlength : unit.byteLength = offset lines (unit.lastLine + 1) - offset lines middle := by
      rw [hunit.bytes, hfirst]
    unfold unitChunks at hemit
    by_cases hlong : maxChunkBytes < unit.byteLength
    · rw [if_pos hlong] at hemit
      obtain ⟨next, hfront, hemit⟩ := bind_eq_ok.mp hemit
      obtain ⟨next', hsplit, hemit⟩ := bind_eq_ok.mp hemit
      have hfrontEmits := emitUnits_spec h hpending hpendingUnits (hbytes ▸ hshort) hfront
      have hsplitEmits := splitUnit_spec h hunit hrange hsplit
      rw [hfirst] at hsplitEmits
      have hrestEmits := ih [] 0 (unit.lastLine + 1) next' rfl hrest
        (fun _ hmem => by cases hmem) hlater (by omega) (Nat.zero_le _) hemit
      exact (hfrontEmits.trans hsplitEmits).trans hrestEmits
    · rw [if_neg hlong] at hemit
      by_cases hfull : pendingBytes ≠ 0 ∧ maxChunkBytes < pendingBytes + unit.byteLength
      · rw [if_pos hfull] at hemit
        obtain ⟨next, hfront, hemit⟩ := bind_eq_ok.mp hemit
        have hfrontEmits := emitUnits_spec h hpending hpendingUnits (hbytes ▸ hshort) hfront
        exact hfrontEmits.trans (ih [unit] unit.byteLength middle next hsingle hrest
          (by simpa using hunit) hlater hlength (by omega) hemit)
      · rw [if_neg hfull] at hemit
        have hgrow : offset lines start ≤ offset lines middle ∧
            offset lines middle < offset lines (unit.lastLine + 1) := by
          have hinside := hunit.inside
          constructor
          · rcases Nat.lt_or_eq_of_le (tiles_le hpending) with hlt | rfl
            · exact le_of_lt (h.offset_lt hlt (by omega))
            · exact le_rfl
          · exact h.offset_lt (by omega) (by omega)
        refine ih (pending ++ [unit]) _ start chunks
          (tiles_append.mpr ⟨middle, hpending, hsingle⟩) hrest ?_ hlater (by omega) (by omega) hemit
        intro other hother
        rcases List.mem_append.mp hother with hmem | hmem
        · exact hpendingUnits other hmem
        · rw [List.mem_singleton.mp hmem]
          exact hunit

theorem sectionChunks_spec (h : LinesOf text lines) {part : Section}
    (htiles : Tiles Block.firstLine Block.lastLine start stop part.blocks)
    (hblocks : ∀ block ∈ part.blocks, BlockOf lines block)
    (hemit : sectionChunks hashes sourceRevision lines part chunks = .ok out) :
    Emits hashes sourceRevision lines part.headingPath start stop chunks out := by
  unfold sectionChunks at hemit
  cases hhead : part.blocks.head? with
  | none =>
    rw [hhead] at hemit
    rw [List.head?_eq_none_iff] at hhead
    rw [hhead] at htiles
    cases hemit
    obtain rfl : start = stop := htiles
    exact Emits.refl
  | some first =>
    have hne : part.blocks ≠ [] := by
      intro hnil
      rw [hnil] at hhead
      cases hhead
    have hlast := List.getLast?_eq_some_getLast hne
    rw [hhead, hlast] at hemit
    have hfirstMem : first ∈ part.blocks := List.mem_of_mem_head? hhead
    have hlastMem := List.getLast_mem hne
    have hstart := tiles_head htiles hhead
    have hstop := tiles_last htiles hlast
    have hbounds := tiles_mem htiles hlastMem
    have hfirstBounds := tiles_mem htiles hfirstMem
    dsimp only at hemit
    split_ifs at hemit with hsmall
    · rw [((hblocks _ hlastMem).bytes h hbounds.2.1).2,
        ((hblocks first hfirstMem).bytes h hfirstBounds.2.1).1] at hsmall
      have hspec := pushChunk_spec h (by omega) (hblocks _ hlastMem).inside hsmall
        (hblocks first hfirstMem).outside hemit
      rwa [hstart, hstop] at hspec
    · obtain ⟨hunits, hall⟩ := buildUnits_spec h part.blocks htiles hblocks
      exact unitChunks_spec h (buildUnits part.blocks) [] 0 start chunks rfl hunits
        (fun _ hmem => by cases hmem) hall (by omega) (Nat.zero_le _) hemit

/-- A chunk lies in the lines of a section and has its path. -/
def InSection (hashes : Hashes) (sourceRevision : Text) (lines : List Line) (parts : List Section)
    (chunk : MarkdownChunk) : Prop :=
  ∃ part ∈ parts, ∃ start stop, Tiles Block.firstLine Block.lastLine start stop part.blocks ∧
    start ≤ firstLineOf chunk ∧ lastLineOf chunk < stop ∧
    ChunkWith hashes sourceRevision lines part.headingPath chunk

theorem allChunks_spec (h : LinesOf text lines) (parts : List Section) (start : ℕ)
    (chunks : List MarkdownChunk)
    (htiles : Tiles Block.firstLine Block.lastLine start stop (parts.flatMap Section.blocks))
    (hblocks : ∀ part ∈ parts, ∀ block ∈ part.blocks, BlockOf lines block)
    (hemit : allChunks hashes sourceRevision lines parts chunks = .ok out) :
    (∃ new, out = chunks ++ new ∧ Tiles firstLineOf lastLineOf start stop new ∧
      ∀ chunk ∈ new, InSection hashes sourceRevision lines parts chunk) ∧
      (chunks.length ≤ maxChunks → out.length ≤ maxChunks) := by
  induction parts generalizing start chunks with
  | nil =>
    cases hemit
    exact ⟨⟨[], (List.append_nil _).symm, htiles, fun _ h => by cases h⟩, id⟩
  | cons part parts ih =>
    rw [List.flatMap_cons] at htiles
    obtain ⟨middle, hpart, hrest⟩ := tiles_append.mp htiles
    obtain ⟨hfirst, hlater⟩ := List.forall_mem_cons.mp hblocks
    unfold allChunks at hemit
    obtain ⟨next, hchunks, hemit⟩ := bind_eq_ok.mp hemit
    have hspec := sectionChunks_spec h hpart hfirst hchunks
    obtain ⟨new, rfl, hnewTiles, hnew⟩ := hspec.added
    obtain ⟨⟨new', rfl, hnewTiles', hnew'⟩, hfew⟩ := ih middle _ hrest hlater hemit
    refine ⟨⟨new ++ new', List.append_assoc _ _ _,
      tiles_append.mpr ⟨middle, hnewTiles, hnewTiles'⟩, fun chunk hchunk => ?_⟩,
      fun hstart => hfew (hspec.few hstart)⟩
    rcases List.mem_append.mp hchunk with hchunk | hchunk
    · have hbounds := tiles_mem hnewTiles hchunk
      exact ⟨part, List.mem_cons_self, start, middle, hpart, hbounds.1, hbounds.2.2,
        hnew chunk hchunk⟩
    · obtain ⟨other, hother, hin⟩ := hnew' chunk hchunk
      exact ⟨other, List.mem_cons_of_mem _ hother, hin⟩

end Emitting

end Piclaw.NoteChunks
