import Piclaw.NoteAssembly

/-!
# Assembled note contexts

What holds of every assembled result: its passages are the bytes of whole lines, it is bounded, and
without a reason every match is held by a passage.
-/

namespace Piclaw.NoteContext

open CanonicalText NoteChunks Tilings Utf8Decoding Utf16

section Matches

variable {hashes : Hashes} {noteSpace : Units} {sources : List NoteContextSource}
  {candidates done : List NoteContextMatch} {candidate : NoteContextMatch}
  {assembly assembly' : Assembly} {source : SourceState}

theorem validShape_lines (h : validShape hashes noteSpace candidate = true) :
    1 ≤ candidate.lineStart ∧ candidate.lineStart ≤ candidate.matchLineStart ∧
      candidate.matchLineStart ≤ candidate.matchLineEnd ∧
      candidate.matchLineEnd ≤ candidate.lineEnd := by
  unfold validShape at h
  simp only [Bool.and_eq_true, decide_eq_true_eq] at h
  exact ⟨h.1.1.1.1.2, h.1.1.1.2, h.1.1.2, h.1.2⟩

theorem misplaced_spec (h : misplaced source candidate = false) :
    candidate.lineEnd - 1 < source.lines.length ∧
      StartOk source.blocks (candidate.lineStart - 1) ∧
      EndOk source.blocks (candidate.lineEnd - 1) := by
  unfold misplaced at h
  simp only [Bool.or_eq_false_iff, decide_eq_false_iff_not, not_not] at h
  obtain ⟨⟨_, hhigh⟩, hfences⟩ := h
  have hclear : ∀ block ∈ source.blocks, block.kind = .fence →
      ¬(block.first < candidate.lineStart - 1 ∧ candidate.lineStart - 1 ≤ block.last) ∧
        ¬(block.first ≤ candidate.lineEnd - 1 ∧ candidate.lineEnd - 1 < block.last) := by
    intro block hblock hkind
    have hnot := List.any_eq_false.mp hfences block hblock
    simp only [hkind, decide_true, Bool.true_and, Bool.or_eq_true, Bool.and_eq_true,
      decide_eq_true_eq, not_or] at hnot
    exact hnot
  refine ⟨?_, fun block hblock hkind => (hclear block hblock hkind).1,
    fun block hblock hkind => (hclear block hblock hkind).2⟩
  by_contra hout
  rw [List.getElem?_eq_none (by omega)] at hhigh
  cases hhigh

/-- Each match keeps what holds of the passages. -/
theorem assembleMatch_spec (h : Assembled hashes sources candidates done assembly)
    (hmember : candidate ∈ candidates) (hshape : validShape hashes noteSpace candidate = true)
    (hmatch : assembleMatch hashes sources assembly candidate = some assembly') :
    Assembled hashes sources candidates (done ++ [candidate]) assembly' := by
  unfold assembleMatch at hmatch
  cases hfound : sources.find? (fun source => source.path = candidate.path) with
  | none =>
    rw [hfound] at hmatch
    cases hmatch
    exact h.because candidate _
  | some supplied =>
    rw [hfound] at hmatch
    dsimp only at hmatch
    by_cases hrevision : hashes.sha256 supplied.bytes ≠ candidate.sourceRevision
    · rw [if_pos hrevision] at hmatch
      cases hmatch
      exact h.because candidate _
    rw [if_neg hrevision] at hmatch
    cases hread : readSource supplied.bytes with
    | invalid =>
      rw [hread] at hmatch
      cases hmatch
    | unsupported =>
      rw [hread] at hmatch
      cases hmatch
      exact h.because candidate _
    | source source =>
      rw [hread] at hmatch
      dsimp only at hmatch
      cases hmisplaced : misplaced source candidate with
      | true =>
        rw [hmisplaced] at hmatch
        cases hmatch
      | false =>
        rw [hmisplaced] at hmatch
        cases hselect : selectContext source candidate with
        | none =>
          rw [hselect] at hmatch
          cases hmatch
          exact h.because candidate _
        | some range =>
          obtain ⟨first, last⟩ := range
          rw [hselect] at hmatch
          cases hmatch
          obtain ⟨hstart, hmatched⟩ := validShape_lines hshape
          obtain ⟨hhigh, hlow, hend⟩ := misplaced_spec hmisplaced
          have hselects := selectContext_spec (readSource_spec hread).tiled hmatched hhigh hlow hend
            hselect
          have hfrom := hselects.from_chunk
          have hto := hselects.to_chunk
          refine addSelection_spec h ⟨hmember, hfound, hread, ?_, ?_, ?_, hselects.start,
            hselects.stop⟩
          · simpa using hrevision
          · omega
          · omega

theorem assembleMatches_spec (rest : List NoteContextMatch)
    (h : Assembled hashes sources candidates done assembly)
    (hrest : ∀ candidate ∈ rest, candidate ∈ candidates ∧
      validShape hashes noteSpace candidate = true)
    (hrun : assembleMatches hashes sources assembly rest = some assembly') :
    Assembled hashes sources candidates (done ++ rest) assembly' := by
  induction rest generalizing done assembly with
  | nil =>
    cases hrun
    rwa [List.append_nil]
  | cons candidate rest ih =>
    obtain ⟨hfirst, hlater⟩ := List.forall_mem_cons.mp hrest
    obtain ⟨next, hnext, hrun⟩ := Option.bind_eq_some_iff.mp hrun
    have hstep := assembleMatch_spec h hfirst.1 hfirst.2 hnext
    have hall := ih hstep hlater hrun
    rwa [List.append_assoc, List.singleton_append] at hall

theorem assembled_start : Assembled hashes sources candidates [] ⟨[], []⟩ where
  sound _ h := absurd h List.not_mem_nil
  apart := List.Pairwise.nil
  few := Nat.zero_le _
  fits := by decide +kernel
  complete := .inr fun _ h => absurd h List.not_mem_nil

end Matches

section Encoded

/-- The text of an assembled result before its passages. -/
def encodedFront (limited : Bool) (reasons : List Reason) : Units :=
  123 :: (field "status" (quote (statusText .assembled)) ++ 44 ::
    (field "limited" (units (if limited then "true" else "false")) ++ 44 ::
      (field "reasons" (enclosed 91 93 (reasons.map fun reason => quote (reasonText reason))) ++
        [44])))

theorem encodedResult_front (limited : Bool) (reasons : List Reason)
    (passages : List NoteContextPassage) :
    encodedResult ⟨.assembled, limited, reasons, passages⟩ = encodedFront limited reasons ++
      (field "passages" (enclosed 91 93 (passages.map encodedPassage)) ++ [125]) := by
  simp [encodedResult, encodedFront, enclosed, List.intercalate]

/-- The reasons of a result take no more bytes than all of them, of which a response has room. -/
theorem encodedFront_reasons (q : Reason → Bool) :
    (∀ u ∈ encodedFront (decide (allReasons.filter q ≠ [])) (allReasons.filter q), u < 0x80) ∧
      (encodedFront (decide (allReasons.filter q ≠ [])) (allReasons.filter q)).length ≤
        (encodedFront true allReasons).length := by
  have hfilter : allReasons.filter q =
      (if q .sourceMissing then [.sourceMissing] else []) ++
        ((if q .sourceRevisionChanged then [.sourceRevisionChanged] else []) ++
          ((if q .contextLimit then [.contextLimit] else []) ++
            ((if q .resultLimit then [.resultLimit] else []) ++
              (if q .responseLimit then [.responseLimit] else [])))) := by
    simp only [allReasons, List.filter_cons, List.filter_nil]
    split_ifs <;> rfl
  rw [hfilter]
  generalize q .sourceMissing = missing
  generalize q .sourceRevisionChanged = changed
  generalize q .contextLimit = context
  generalize q .resultLimit = results
  generalize q .responseLimit = response
  revert missing changed context results response
  decide +kernel

theorem assembledResult_bounded {assembly : Assembly}
    (h : fitsResponse assembly.passages = true) :
    encodedBytes (assembledResult assembly) ≤ responseBytes := by
  have hfits : encodedBytes ⟨.assembled, true, allReasons, assembly.passages⟩ ≤ responseBytes := by
    simpa [fitsResponse] using h
  have hall : ∀ u ∈ encodedFront true allReasons, u < 0x80 := by decide +kernel
  obtain ⟨hascii, hlength⟩ := encodedFront_reasons fun reason => reason ∈ assembly.reasons
  unfold encodedBytes at hfits ⊢
  unfold assembledResult
  rw [encodedResult_front, byteLength_ascii_append hall] at hfits
  rw [encodedResult_front, byteLength_ascii_append hascii]
  omega

end Encoded

section Contexts

variable {hashes : Hashes} {sources : List NoteContextSource} {candidates : List NoteContextMatch}
  {passage : NoteContextPassage} {supplied : NoteContextSource} {source : SourceState}

/-- A passage is the bytes of lines `lineStart` to `lineEnd`. -/
structure ExactLines (bytes : Bytes) (passage : NoteContextPassage) : Prop where
  text : encode passage.text = (bytes.take passage.afterLastByte).drop passage.firstByte
  start : bytes.take passage.firstByte = [] ∨
    (bytes.take passage.firstByte).getLast? = some 10
  stop : (bytes.take passage.afterLastByte).getLast? = some 10 ∨
    bytes.length ≤ passage.afterLastByte
  before : (bytes.take passage.firstByte).count 10 = passage.lineStart - 1
  within : (bytes.take (passage.afterLastByte - 1)).count 10 = passage.lineEnd - 1

theorem PassageOf.exact (h : PassageOf hashes sources candidates passage supplied source) :
    ExactLines supplied.bytes passage := by
  have hsource := readSource_spec h.read
  obtain ⟨text, htext⟩ := hsource.decoded
  have hlines := h.lines
  have hfirst := hsource.line (i := passage.lineStart - 1) (by omega)
  have hlast := hsource.line (i := passage.lineEnd - 1) (by omega)
  have hstart : supplied.bytes.take passage.firstByte = [] ∨
      (supplied.bytes.take passage.firstByte).getLast? = some 10 := by
    rw [h.firstByte]
    exact hfirst.start
  have hstop : (supplied.bytes.take passage.afterLastByte).getLast? = some 10 ∨
      supplied.bytes.length ≤ passage.afterLastByte := by
    rw [h.afterLastByte]
    exact hlast.stop
  refine ⟨?_, hstart, hstop, ?_, ?_⟩
  · rw [h.text]
    exact decode_lines htext hstart hstop
  · rw [h.firstByte]
    exact hfirst.before
  · rw [h.afterLastByte]
    exact hlast.within

/-- What holds of an assembled result. -/
structure ContextOf (hashes : Hashes) (sources : List NoteContextSource)
    (candidates : List NoteContextMatch) (result : NoteContextResult) : Prop where
  passages : ∀ passage ∈ result.passages, ∃ supplied source,
    PassageOf hashes sources candidates passage supplied source ∧ ExactLines supplied.bytes passage
  apart : result.passages.Pairwise Apart
  few : result.passages.length ≤ resultLimit
  bounded : encodedBytes result ≤ responseBytes
  complete : result.reasons = [] →
    ∀ candidate ∈ candidates, ∃ passage ∈ result.passages, Holds passage candidate

theorem assembleNoteContext_sound (hashes : Hashes) (noteSpace : Units)
    (sources : List NoteContextSource) (candidates : List NoteContextMatch)
    (h : (assembleNoteContext hashes noteSpace sources candidates).status = .assembled) :
    ContextOf hashes sources candidates
      (assembleNoteContext hashes noteSpace sources candidates) := by
  unfold assembleNoteContext at h ⊢
  dsimp only at h ⊢
  split_ifs at h ⊢ with hspace hlarge hinvalid hlines
  all_goals try cases h
  cases hrun : assembleMatches hashes sources ⟨[], []⟩ candidates with
  | none =>
    rw [hrun] at h
    cases h
  | some assembly =>
    have hshapes : ∀ candidate ∈ candidates, candidate ∈ candidates ∧
        validShape hashes noteSpace candidate = true := by
      intro candidate hcandidate
      refine ⟨hcandidate, ?_⟩
      by_contra hshape
      refine hinvalid (.inr (.inr (List.any_eq_true.mpr ⟨candidate, hcandidate, ?_⟩)))
      simpa using hshape
    have hall := assembleMatches_spec candidates assembled_start hshapes hrun
    rw [List.nil_append] at hall
    refine ⟨fun passage hpassage => ?_, hall.apart, hall.few, assembledResult_bounded hall.fits, ?_⟩
    · obtain ⟨supplied, source, hof⟩ := hall.sound passage hpassage
      exact ⟨supplied, source, hof, hof.exact⟩
    · intro hnone
      rcases hall.complete with hreasons | hcomplete
      · exfalso
        obtain ⟨reason, hreason⟩ := List.exists_mem_of_ne_nil _ hreasons
        have hkept : reason ∈ allReasons.filter (· ∈ assembly.reasons) := by
          refine List.mem_filter.mpr ⟨?_, by simpa using hreason⟩
          cases reason <;> decide
        have hempty : allReasons.filter (· ∈ assembly.reasons) = [] := hnone
        rw [hempty] at hkept
        cases hkept
      · exact hcomplete

/-- Hashes that do not tell bytes apart. -/
def plainContextHashes : Hashes where
  sha256 _ := List.replicate 64 48
  chunkIdOf _ _ _ _ _ := units "nr1:" ++ List.replicate 64 48

/-- Six paragraphs, which are one chunk. -/
def sixParagraphs : NoteContextSource :=
  ⟨units "notes/a.md", encode "a\n\nb\n\nc\n\nd\n\ne\n\nf\n".toList⟩

def matchOfLine (line : ℕ) : NoteContextMatch where
  path := units "notes/a.md"
  chunkId := units "nr1:" ++ List.replicate 64 48
  sourceRevision := List.replicate 64 48
  chunkerVersion := units "nr1-md-v1"
  firstByte := 0
  afterLastByte := 17
  lineStart := 1
  lineEnd := 11
  matchLineStart := line
  matchLineEnd := line

theorem assembleNoteContext_sound_paragraph :
    (assembleNoteContext plainContextHashes (units "n") [sixParagraphs]
      [matchOfLine 1]).passages.map NoteContextPassage.lineEnd = [3] ∧
    ContextOf plainContextHashes [sixParagraphs] [matchOfLine 1]
      (assembleNoteContext plainContextHashes (units "n") [sixParagraphs] [matchOfLine 1]) :=
  ⟨by decide +kernel, assembleNoteContext_sound _ _ _ _ (by decide +kernel)⟩

/-- Two passages cite one chunk. -/
theorem cited_twice :
    (assembleNoteContext plainContextHashes (units "n") [sixParagraphs]
      [matchOfLine 1, matchOfLine 11]).status = .assembled ∧
    (assembleNoteContext plainContextHashes (units "n") [sixParagraphs]
      [matchOfLine 1, matchOfLine 11]).passages.map (fun passage => passage.references) =
        [[referenceOf (matchOfLine 1)], [referenceOf (matchOfLine 1)]] := by
  decide +kernel

end Contexts

end Piclaw.NoteContext
