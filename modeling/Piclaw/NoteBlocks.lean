import Piclaw.NoteLines

/-!
# The blocks and sections of a note

The blocks tile the lines, and only the lines of a fence lie in a fence; a section begins with its
heading, and its path is what is left of the headings up to it.
-/

namespace Piclaw.NoteChunks

open Utf8Decoding TextRuns Tilings

section Openings

variable {line : Line}

theorem markerRun_head {first second : Char} {run : Char × ℕ × Text}
    (h : markerRun first second line = some run) :
    ((parsingText line).dropWhile (· = ' ')).head? = some run.1 ∧
      (run.1 = first ∨ run.1 = second) := by
  obtain ⟨text, htext, h⟩ := Option.bind_eq_some_iff.mp h
  obtain ⟨marker, hmarker, h⟩ := Option.bind_eq_some_iff.mp h
  unfold afterIndent at htext
  split_ifs at htext
  cases htext
  split_ifs at h with hkind
  cases h
  exact ⟨hmarker, hkind⟩

theorem fenceOpen_head {fence : Fence} (h : fenceOpen line = some fence) :
    ∃ marker, ((parsingText line).dropWhile (· = ' ')).head? = some marker ∧
      (marker = Char.ofNat 96 ∨ marker = '~') := by
  obtain ⟨run, hrun, _⟩ := Option.bind_eq_some_iff.mp h
  exact ⟨run.1, markerRun_head hrun⟩

theorem fenceOpen_blank (h : isBlank line = true) : fenceOpen line = none := by
  by_contra hopen
  obtain ⟨fence, hfence⟩ := Option.ne_none_iff_exists'.mp hopen
  obtain ⟨marker, hhead, hmarker⟩ := fenceOpen_head hfence
  have hmem : marker ∈ parsingText line :=
    (List.dropWhile_suffix _).mem (List.mem_of_mem_head? hhead)
  have hspace := List.all_eq_true.mp h marker hmem
  rcases hmarker with rfl | rfl <;> revert hspace <;> decide

theorem fenceOpen_setext {level : ℕ} (h : setextLevel line = some level) :
    fenceOpen line = none := by
  by_contra hopen
  obtain ⟨fence, hfence⟩ := Option.ne_none_iff_exists'.mp hopen
  obtain ⟨marker, hhead, hmarker⟩ := fenceOpen_head hfence
  obtain ⟨run, hrun, _⟩ := Option.bind_eq_some_iff.mp h
  obtain ⟨hsame, hkind⟩ := markerRun_head hrun
  rw [hhead] at hsame
  cases hsame
  rcases hmarker with hmarker | hmarker <;> rcases hkind with hkind | hkind <;>
    rw [hmarker] at hkind <;> revert hkind <;> decide

/-- The blank lines behind a line open no fence. -/
theorem blankLines_spec {lines : List Line} (rest : List Line) {index : ℕ}
    (hrest : lines.drop index = rest) (hindex : index ≤ lines.length) :
    index + (rest.takeWhile isBlank).length ≤ lines.length ∧
      ∀ i, index ≤ i → i < index + (rest.takeWhile isBlank).length →
        fenceOpen (lineAt lines i) = none := by
  induction rest generalizing index with
  | nil => exact ⟨hindex, fun i hi hlt => by simp at hlt; omega⟩
  | cons line rest ih =>
    obtain ⟨hlt, hline, hnext⟩ := drop_cons hrest
    rw [List.takeWhile_cons]
    split_ifs with hblank
    · obtain ⟨hle, hopen⟩ := ih hnext hlt
      rw [List.length_cons]
      refine ⟨by omega, fun i hi hbound => ?_⟩
      rcases Nat.lt_or_eq_of_le hi with hlater | rfl
      · exact hopen i hlater (by omega)
      · rw [hline]
        exact fenceOpen_blank hblank
    · exact ⟨hindex, fun i hi hbound => by simp at hbound; omega⟩

/-- The lines of a paragraph behind its first open no fence, nor does the line that makes the last
of them a heading. -/
theorem paragraphLines_spec {lines : List Line} (rest : List Line) {index : ℕ}
    (hrest : lines.drop index = rest) (hindex : index ≤ lines.length) :
    index + (paragraphLines rest).1 ≤ lines.length ∧
      (∀ i, index ≤ i → i < index + (paragraphLines rest).1 →
        fenceOpen (lineAt lines i) = none) ∧
      ∀ level, (paragraphLines rest).2 = some level →
        index + (paragraphLines rest).1 < lines.length ∧
          fenceOpen (lineAt lines (index + (paragraphLines rest).1)) = none := by
  induction rest generalizing index with
  | nil =>
    refine ⟨hindex, fun i hi hlt => ?_, fun level h => by cases h⟩
    have hzero : (paragraphLines []).1 = 0 := rfl
    omega
  | cons line rest ih =>
    obtain ⟨hlt, hline, hnext⟩ := drop_cons hrest
    cases hsetext : setextLevel line with
    | some level =>
      have heq : paragraphLines (line :: rest) = (0, some level) := by
        simp [paragraphLines, hsetext]
      rw [heq]
      refine ⟨hindex, fun i hi hbound => absurd hbound (by simpa using hi), fun _ _ => ⟨hlt, ?_⟩⟩
      rw [Nat.add_zero, hline]
      exact fenceOpen_setext hsetext
    | none =>
      by_cases hstop : (isBlank line || (fenceOpen line).isSome || (atxHeading line).isSome) = true
      · have heq : paragraphLines (line :: rest) = (0, none) := by
          simp only [paragraphLines, hsetext, hstop, if_true]
        rw [heq]
        exact ⟨hindex, fun i hi hbound => absurd hbound (by simpa using hi),
          fun _ h => by cases h⟩
      · have heq : paragraphLines (line :: rest) =
            ((paragraphLines rest).1 + 1, (paragraphLines rest).2) := by
          simp only [paragraphLines, hsetext, hstop, if_false, Bool.false_eq_true]
        have hnone : fenceOpen line = none := by
          simp only [Bool.or_eq_true, not_or] at hstop
          simpa using hstop.1.2
        obtain ⟨hle, hopen, hlevel⟩ := ih hnext hlt
        rw [heq, show index + ((paragraphLines rest).1 + 1) =
          index + 1 + (paragraphLines rest).1 by omega]
        refine ⟨hle, fun i hi hbound => ?_, hlevel⟩
        rcases Nat.lt_or_eq_of_le hi with hlater | rfl
        · exact hopen i hlater hbound
        · rw [hline]
          exact hnone

end Openings

section Blocks

variable {lines : List Line}

/-- A block has the bytes of its lines, begins outside of a fence, and all its lines do unless it is
a fence. -/
structure BlockOf (lines : List Line) (block : Block) : Prop where
  shape : block = blockOf block.type lines block.firstLine block.lastLine
  inside : block.lastLine < lines.length
  outside : fenceState lines block.firstLine = none
  plain : block.type ≠ .fence → ∀ i, block.firstLine ≤ i → i ≤ block.lastLine →
    fenceState lines i = none

theorem blockOf_plain (type : BlockType) {first last : ℕ} (hlast : last < lines.length)
    (hstart : fenceState lines first = none)
    (hopen : ∀ i, first ≤ i → i ≤ last → fenceOpen (lineAt lines i) = none) :
    BlockOf lines (blockOf type lines first last) where
  shape := rfl
  inside := hlast
  outside := hstart
  plain _ i hi hle := fenceState_none last (by omega) hstart
    (fun j hj hlt => hopen j hj (by omega)) hi hle

/-- The blocks from a line outside of a fence on. -/
theorem parseBlocksFrom_spec (fuel index : ℕ) (blocks : List Block)
    (hfuel : lines.length ≤ index + fuel) (hindex : index ≤ lines.length)
    (hstate : index = lines.length ∨ fenceState lines index = none)
    (h : parseBlocksFrom lines fuel index = .ok blocks) :
    Tiles Block.firstLine Block.lastLine index lines.length blocks ∧
      ∀ block ∈ blocks, BlockOf lines block := by
  induction fuel generalizing index blocks with
  | zero =>
    cases h
    exact ⟨show index = lines.length by omega, fun _ hmem => by cases hmem⟩
  | succ fuel ih =>
    -- the blocks up to `next`, and those behind them
    have hfront : ∀ (front : List Block) (next : ℕ) (blocks : List Block), index < next →
        next ≤ lines.length → Tiles Block.firstLine Block.lastLine index next front →
        (∀ block ∈ front, BlockOf lines block) →
        (next = lines.length ∨ fenceState lines next = none) →
        (parseBlocksFrom lines fuel next).map (front ++ ·) = .ok blocks →
        Tiles Block.firstLine Block.lastLine index lines.length blocks ∧
          ∀ block ∈ blocks, BlockOf lines block := by
      intro front next blocks hlt hnext hfront hblocks hstate' h
      obtain ⟨rest, hparse, rfl⟩ := map_ok h
      obtain ⟨htiles, hrest⟩ := ih next rest (by omega) hnext hstate' hparse
      refine ⟨tiles_append.mpr ⟨next, hfront, htiles⟩, fun block hmem => ?_⟩
      rcases List.mem_append.mp hmem with hmem | hmem
      · exact hblocks block hmem
      · exact hrest block hmem
    have hcons : ∀ (type : BlockType) (last : ℕ) (blocks : List Block), index ≤ last →
        last + 1 ≤ lines.length → BlockOf lines (blockOf type lines index last) →
        (last + 1 = lines.length ∨ fenceState lines (last + 1) = none) →
        (parseBlocksFrom lines fuel (last + 1)).map (blockOf type lines index last :: ·) =
          .ok blocks →
        Tiles Block.firstLine Block.lastLine index lines.length blocks ∧
          ∀ block ∈ blocks, BlockOf lines block := by
      intro type last blocks hle hnext hblock hstate' h
      exact hfront [blockOf type lines index last] (last + 1) blocks (by omega) hnext
        ⟨rfl, hle, rfl⟩ (by simpa using hblock) hstate' h
    unfold parseBlocksFrom at h
    cases hdrop : lines.drop index with
    | nil =>
      rw [hdrop] at h
      cases h
      have hlength := congrArg List.length hdrop
      rw [List.length_drop, List.length_nil] at hlength
      exact ⟨show index = lines.length by omega, fun _ hmem => by cases hmem⟩
    | cons line rest =>
      obtain ⟨hlt, hline, hnext⟩ := drop_cons hdrop
      have hnone : fenceState lines index = none := hstate.resolve_left (by omega)
      rw [hdrop] at h
      dsimp only at h
      cases hopen : fenceOpen line with
      | some fence =>
        rw [hopen] at h
        dsimp only at h
        have hopened : fenceState lines (index + 1) = some fence := by
          rw [fenceState_succ hlt, hnone, hline]
          exact hopen
        obtain ⟨hend, hclosed⟩ := fenceState_fenced rest hnext hlt hopened
        split_ifs at h with hlong
        rw [show index + 1 + fencedLines fence rest = index + fencedLines fence rest + 1 by omega]
          at hend hclosed
        exact hcons .fence (index + fencedLines fence rest) blocks (by omega) hend
          ⟨rfl, hend, hnone, fun hplain => absurd rfl hplain⟩ hclosed h
      | none =>
        rw [hopen] at h
        dsimp only at h
        have hopenAt : fenceOpen (lineAt lines index) = none := by rw [hline]; exact hopen
        cases hatx : atxHeading line with
        | some heading =>
          rw [hatx] at h
          refine hcons _ index blocks le_rfl hlt (blockOf_plain _ hlt hnone ?_) (.inr ?_) h
          · intro i hi hle
            rwa [show i = index by omega]
          · rw [fenceState_succ hlt, hnone]
            exact hopenAt
        | none =>
          rw [hatx] at h
          dsimp only at h
          by_cases hblank : isBlank line = true
          · rw [if_pos hblank] at h
            obtain ⟨hle, hblanks⟩ := blankLines_spec rest hnext hlt
            have hall : ∀ i, index ≤ i → i ≤ index + (rest.takeWhile isBlank).length →
                fenceOpen (lineAt lines i) = none := by
              intro i hi hbound
              rcases Nat.lt_or_eq_of_le hi with hlater | rfl
              · exact hblanks i hlater (by omega)
              · exact hopenAt
            refine hcons _ (index + (rest.takeWhile isBlank).length) blocks (by omega) (by omega)
              (blockOf_plain _ (by omega) hnone hall) (.inr ?_) h
            exact fenceState_none _ (by omega) hnone
              (fun i hi hbound => hall i hi (Nat.lt_succ_iff.mp hbound)) (by omega) le_rfl
          · rw [if_neg hblank] at h
            obtain ⟨hle, hlines, hlevel⟩ := paragraphLines_spec rest hnext hlt
            have hall : ∀ i, index ≤ i → i ≤ index + (paragraphLines rest).1 →
                fenceOpen (lineAt lines i) = none := by
              intro i hi hbound
              rcases Nat.lt_or_eq_of_le hi with hlater | rfl
              · exact hlines i hlater (by omega)
              · exact hopenAt
            have hstates : ∀ i, index ≤ i → i ≤ index + (paragraphLines rest).1 + 1 →
                fenceState lines i = none := by
              intro i hi hbound
              exact fenceState_none (index + (paragraphLines rest).1 + 1) (by omega) hnone
                (fun j hj hlt => hall j hj (by omega)) hi hbound
            cases hsecond : (paragraphLines rest).2 with
            | none =>
              rw [hsecond] at h
              exact hcons _ (index + (paragraphLines rest).1) blocks (by omega) (by omega)
                (blockOf_plain _ (by omega) hnone hall) (.inr (hstates _ (by omega) le_rfl)) h
            | some level =>
              rw [hsecond] at h
              obtain ⟨hunder, hunderOpen⟩ := hlevel level hsecond
              rw [show index + 1 + (paragraphLines rest).1 = index + (paragraphLines rest).1 + 1 by
                omega] at hunder hunderOpen
              have hheading : ∀ type, BlockOf lines (blockOf type lines
                  (index + (paragraphLines rest).1) (index + (paragraphLines rest).1 + 1)) := by
                intro type
                refine blockOf_plain _ hunder (hstates _ (by omega) (by omega)) ?_
                intro i hi hbound
                rcases Nat.lt_or_eq_of_le hbound with hearlier | rfl
                · exact hall i (by omega) (by omega)
                · exact hunderOpen
              have hbehind : fenceState lines (index + (paragraphLines rest).1 + 2) = none := by
                rw [fenceState_succ hunder, hstates _ (by omega) le_rfl]
                exact hunderOpen
              dsimp only at h
              split_ifs at h with htext
              · refine hfront [_, _] _ blocks (by omega) hunder ?_ ?_ (.inr hbehind) h
                · refine ⟨rfl, ?_, ?_, ?_, rfl⟩
                  · change index ≤ index + (paragraphLines rest).1 - 1
                    omega
                  · change index + (paragraphLines rest).1 = index + (paragraphLines rest).1 - 1 + 1
                    omega
                  · exact Nat.le_succ _
                · intro block hmem
                  rcases List.mem_cons.mp hmem with rfl | hmem
                  · exact blockOf_plain _ (by omega) hnone fun i hi hbound =>
                      hall i hi (by omega)
                  · rw [List.mem_singleton.mp hmem]
                    exact hheading _
              · refine hfront [_] _ blocks (by omega) hunder ⟨?_, ?_, ?_⟩ ?_ (.inr hbehind) h
                · change index + (paragraphLines rest).1 = index
                  omega
                · exact Nat.le_succ _
                · exact rfl
                · intro block hmem
                  rw [List.mem_singleton.mp hmem]
                  exact hheading _

theorem parseBlocks_spec {blocks : List Block} (h : parseBlocks lines = .ok blocks) :
    Tiles Block.firstLine Block.lastLine 0 lines.length blocks ∧
      ∀ block ∈ blocks, BlockOf lines block :=
  parseBlocksFrom_spec lines.length 0 blocks (by omega) (Nat.zero_le _) (.inr rfl) h

end Blocks

section Sections

/-- The headings that no later one of the same or a higher level has closed. -/
def enclosing : List Heading → List Heading
  | [] => []
  | heading :: headings =>
    if headings.all fun later => heading.level < later.level then heading :: enclosing headings
    else enclosing headings

theorem mem_of_mem_enclosing {heading : Heading} {headings : List Heading}
    (h : heading ∈ enclosing headings) : heading ∈ headings := by
  induction headings with
  | nil => exact h
  | cons first headings ih =>
    unfold enclosing at h
    split_ifs at h
    · rcases List.mem_cons.mp h with rfl | h
      · exact List.mem_cons_self
      · exact List.mem_cons_of_mem _ (ih h)
    · exact List.mem_cons_of_mem _ (ih h)

/-- The stack of the source: a heading closes those of its own or a lower level. -/
theorem enclosing_concat (headings : List Heading) (last : Heading) :
    enclosing (headings ++ [last]) =
      (enclosing headings).filter (fun heading => heading.level < last.level) ++ [last] := by
  induction headings with
  | nil => rfl
  | cons first headings ih =>
    rw [List.cons_append]
    unfold enclosing
    rw [ih, List.all_append]
    by_cases hlater : (headings.all fun later => first.level < later.level) = true
    · rw [hlater, if_pos rfl, List.filter_cons]
      by_cases hlast : first.level < last.level
      · simp [hlast]
      · simp [hlast]
    · rw [Bool.eq_false_iff.mpr hlater]
      rfl

/-- The levels along a path grow. -/
theorem enclosing_pairwise (headings : List Heading) :
    (enclosing headings).Pairwise fun a b => a.level < b.level := by
  induction headings with
  | nil => exact List.Pairwise.nil
  | cons first headings ih =>
    unfold enclosing
    split_ifs with hlater
    · refine List.pairwise_cons.mpr ⟨fun later hmem => ?_, ih⟩
      simpa using List.all_eq_true.mp hlater later (mem_of_mem_enclosing hmem)
    · exact ih

def headingsOf (blocks : List Block) : List Heading := blocks.filterMap Block.heading?

/-- A section is a run of the blocks, of which the first alone may be a heading, and has the path of
the headings up to it. -/
structure SectionOf (blocks : List Block) (part : Section) : Prop where
  run : ∃ before after, blocks = before ++ part.blocks ++ after ∧
    part.headingPath = (enclosing (headingsOf (before ++ part.blocks))).map Heading.text
  nonempty : part.blocks ≠ []
  heading : ∀ block ∈ part.blocks.tail, block.heading? = none

theorem pendingSection_spec {before pending after : List Block} {stack : List Heading}
    {part : Section} (hstack : stack = enclosing (headingsOf (before ++ pending)))
    (hpending : ∀ block ∈ pending.tail, block.heading? = none)
    (h : part ∈ if pending = [] then [] else [Section.mk (stack.map Heading.text) pending]) :
    SectionOf (before ++ pending ++ after) part := by
  split_ifs at h with hempty
  · cases h
  · rw [List.mem_singleton.mp h]
    exact ⟨⟨before, after, rfl, by rw [hstack]⟩, hempty, hpending⟩

theorem buildSectionsFrom_spec (before pending blocks : List Block) (stack : List Heading)
    (hstack : stack = enclosing (headingsOf (before ++ pending)))
    (hpending : ∀ block ∈ pending.tail, block.heading? = none) :
    (buildSectionsFrom stack pending blocks).flatMap Section.blocks = pending ++ blocks ∧
      ∀ part ∈ buildSectionsFrom stack pending blocks,
        SectionOf (before ++ pending ++ blocks) part := by
  induction blocks generalizing before pending stack with
  | nil =>
    unfold buildSectionsFrom
    refine ⟨?_, fun part h => pendingSection_spec hstack hpending h⟩
    split_ifs with hempty
    · simp [hempty]
    · simp
  | cons block blocks ih =>
    unfold buildSectionsFrom
    cases hheading : block.heading? with
    | none =>
      dsimp only
      have hheadings : headingsOf (before ++ (pending ++ [block])) =
          headingsOf (before ++ pending) := by
        unfold headingsOf
        simp [hheading]
      have htail : ∀ other ∈ (pending ++ [block]).tail, other.heading? = none := by
        intro other hother
        cases pending with
        | nil => cases hother
        | cons first pending =>
          rcases List.mem_append.mp hother with hmem | hmem
          · exact hpending other hmem
          · rw [List.mem_singleton.mp hmem]
            exact hheading
      obtain ⟨hblocks, hparts⟩ := ih before (pending ++ [block]) stack (hheadings ▸ hstack) htail
      refine ⟨by rw [hblocks]; simp, fun part hpart => ?_⟩
      have hpart := hparts part hpart
      rwa [show before ++ (pending ++ [block]) ++ blocks = before ++ pending ++ block :: blocks by
        simp] at hpart
    | some heading =>
      dsimp only
      have hstack' : (stack.filter fun h => h.level < heading.level) ++ [heading] =
          enclosing (headingsOf (before ++ pending ++ [block])) := by
        rw [hstack, ← enclosing_concat]
        unfold headingsOf
        simp [hheading]
      obtain ⟨hblocks, hparts⟩ := ih (before ++ pending) [block] _ hstack' fun _ h => by cases h
      constructor
      · rw [List.flatMap_append, hblocks]
        split_ifs with hempty
        · simp [hempty]
        · simp
      · intro part hpart
        rcases List.mem_append.mp hpart with hpart | hpart
        · exact pendingSection_spec hstack hpending hpart
        · have hpart := hparts part hpart
          rwa [show before ++ pending ++ [block] ++ blocks = before ++ pending ++ block :: blocks by
            simp] at hpart

theorem buildSections_spec (blocks : List Block) :
    (buildSections blocks).flatMap Section.blocks = blocks ∧
      ∀ part ∈ buildSections blocks, SectionOf blocks part := by
  have hspec := buildSectionsFrom_spec [] [] blocks [] rfl fun _ h => by cases h
  exact hspec

end Sections

end Piclaw.NoteChunks
