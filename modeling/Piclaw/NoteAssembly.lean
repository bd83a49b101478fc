import Piclaw.NoteSelections

/-!
# The passages of a note context

What holds of the passages after each match: they are whole lines of their sources, cut no fence,
do not meet, fit into the response, and hold the lines of the matches that were not refused.
-/

namespace Piclaw.NoteContext

open CanonicalText NoteChunks Tilings Utf8Decoding Utf16

section Merging

variable {α : Type*}

theorem foldl_min_spec (f : α → ℕ) (items : List α) (a : ℕ) :
    items.foldl (fun least item => min least (f item)) a ≤ a ∧
      (∀ item ∈ items, items.foldl (fun least item => min least (f item)) a ≤ f item) ∧
      (items.foldl (fun least item => min least (f item)) a = a ∨
        ∃ item ∈ items, items.foldl (fun least item => min least (f item)) a = f item) := by
  induction items generalizing a with
  | nil => exact ⟨le_rfl, fun _ h => absurd h List.not_mem_nil, .inl rfl⟩
  | cons first items ih =>
    obtain ⟨hle, hall, hattained⟩ := ih (min a (f first))
    rw [List.foldl_cons]
    refine ⟨by omega, List.forall_mem_cons.mpr ⟨by omega, hall⟩, ?_⟩
    rcases hattained with hsame | ⟨item, hitem, hsame⟩
    · rcases Nat.le_total a (f first) with hmin | hmin
      · exact .inl (by omega)
      · exact .inr ⟨first, List.mem_cons_self, by omega⟩
    · exact .inr ⟨item, List.mem_cons_of_mem _ hitem, hsame⟩

theorem foldl_max_spec (f : α → ℕ) (items : List α) (a : ℕ) :
    a ≤ items.foldl (fun most item => max most (f item)) a ∧
      (∀ item ∈ items, f item ≤ items.foldl (fun most item => max most (f item)) a) ∧
      (items.foldl (fun most item => max most (f item)) a = a ∨
        ∃ item ∈ items, items.foldl (fun most item => max most (f item)) a = f item) := by
  induction items generalizing a with
  | nil => exact ⟨le_rfl, fun _ h => absurd h List.not_mem_nil, .inl rfl⟩
  | cons first items ih =>
    obtain ⟨hle, hall, hattained⟩ := ih (max a (f first))
    rw [List.foldl_cons]
    refine ⟨by omega, List.forall_mem_cons.mpr ⟨by omega, hall⟩, ?_⟩
    rcases hattained with hsame | ⟨item, hitem, hsame⟩
    · rcases Nat.le_total a (f first) with hmax | hmax
      · exact .inr ⟨first, List.mem_cons_self, by omega⟩
      · exact .inl (by omega)
    · exact .inr ⟨item, List.mem_cons_of_mem _ hitem, hsame⟩

/-- Each chunk is cited once, by one of the references. -/
theorem distinctReferences_spec (references : List NoteContextReference) :
    ((distinctReferences references).map NoteContextReference.chunkId).Nodup ∧
      ∀ reference ∈ distinctReferences references, reference ∈ references := by
  unfold distinctReferences
  induction references using List.reverseRecOn with
  | nil => exact ⟨List.nodup_nil, fun _ h => h⟩
  | append_singleton references last ih =>
    obtain ⟨hnodup, hmem⟩ := ih
    rw [List.foldl_append, List.foldl_cons, List.foldl_nil]
    split_ifs with hknown
    · exact ⟨hnodup, fun reference h => List.mem_append_left _ (hmem reference h)⟩
    · constructor
      · rw [List.map_append, List.nodup_append]
        refine ⟨hnodup, List.nodup_singleton _, ?_⟩
        intro id hid other hother heq
        subst heq
        obtain ⟨reference, href, rfl⟩ := List.mem_map.mp hid
        have hlast : reference.chunkId = last.chunkId := by simpa using hother
        exact hknown (List.any_eq_true.mpr ⟨reference, href, by simpa using hlast⟩)
      · intro reference h
        rcases List.mem_append.mp h with h | h
        · exact List.mem_append_left _ (hmem reference h)
        · exact List.mem_append_right _ h

theorem mem_putPassage {overlaps : NoteContextPassage → Bool} {passage other : NoteContextPassage}
    {passages : List NoteContextPassage} : other ∈ putPassage overlaps passage passages ↔
      other = passage ∨ (other ∈ passages ∧ overlaps other = false) := by
  induction passages with
  | nil => simp [putPassage]
  | cons first passages ih =>
    unfold putPassage
    split_ifs with hfirst
    · rw [List.mem_cons, List.mem_filter, List.mem_cons]
      constructor
      · rintro (rfl | ⟨hmem, hnot⟩)
        · exact .inl rfl
        · exact .inr ⟨.inr hmem, by simpa using hnot⟩
      · rintro (rfl | ⟨rfl | hmem, hnot⟩)
        · exact .inl rfl
        · rw [hfirst] at hnot
          cases hnot
        · exact .inr ⟨hmem, by simpa using hnot⟩
    · rw [List.mem_cons, List.mem_cons, ih]
      constructor
      · rintro (rfl | rfl | ⟨hmem, hnot⟩)
        · exact .inr ⟨.inl rfl, by simpa using hfirst⟩
        · exact .inl rfl
        · exact .inr ⟨.inr hmem, hnot⟩
      · rintro (rfl | ⟨rfl | hmem, hnot⟩)
        · exact .inr (.inl rfl)
        · exact .inl rfl
        · exact .inr (.inr ⟨hmem, hnot⟩)

theorem putPassage_pairwise {R : NoteContextPassage → NoteContextPassage → Prop}
    {overlaps : NoteContextPassage → Bool} {passage : NoteContextPassage}
    {passages : List NoteContextPassage} (h : passages.Pairwise R)
    (hnew : ∀ other ∈ passages, overlaps other = false → R passage other ∧ R other passage) :
    (putPassage overlaps passage passages).Pairwise R := by
  induction passages with
  | nil => exact List.pairwise_singleton _ _
  | cons first passages ih =>
    obtain ⟨hfirst, hrest⟩ := List.pairwise_cons.mp h
    unfold putPassage
    split_ifs with hover
    · refine List.pairwise_cons.mpr ⟨fun other hother => ?_, hrest.filter _⟩
      obtain ⟨hmem, hnot⟩ := List.mem_filter.mp hother
      exact (hnew other (List.mem_cons_of_mem _ hmem) (by simpa using hnot)).1
    · refine List.pairwise_cons.mpr ⟨fun other hother => ?_,
        ih hrest fun other hmem => hnew other (List.mem_cons_of_mem _ hmem)⟩
      rcases mem_putPassage.mp hother with rfl | ⟨hmem, _⟩
      · exact (hnew first List.mem_cons_self (by simpa using hover)).2
      · exact hfirst other hmem

end Merging

section Passages

variable {hashes : Hashes} {sources : List NoteContextSource}
  {candidates done : List NoteContextMatch} {passage : NoteContextPassage} {assembly : Assembly}

/-- A passage holds the matched lines. -/
def Holds (passage : NoteContextPassage) (candidate : NoteContextMatch) : Prop :=
  passage.path = candidate.path ∧ passage.lineStart ≤ candidate.matchLineStart ∧
    candidate.matchLineEnd ≤ passage.lineEnd

/-- What a passage says of the source that is read. -/
structure PassageOf (hashes : Hashes) (sources : List NoteContextSource)
    (candidates : List NoteContextMatch) (passage : NoteContextPassage)
    (supplied : NoteContextSource) (source : SourceState) : Prop where
  found : sources.find? (fun source => source.path = passage.path) = some supplied
  read : readSource supplied.bytes = .source source
  revision : hashes.sha256 supplied.bytes = passage.sourceRevision
  lines : 1 ≤ passage.lineStart ∧ passage.lineStart ≤ passage.lineEnd ∧
    passage.lineEnd ≤ source.lines.length
  firstByte : passage.firstByte = (source.lineAt (passage.lineStart - 1)).first
  afterLastByte : passage.afterLastByte = (source.lineAt (passage.lineEnd - 1)).stop
  text : passage.text =
    decode ((supplied.bytes.take passage.afterLastByte).drop passage.firstByte)
  unbroken : StartOk source.blocks (passage.lineStart - 1) ∧
    EndOk source.blocks (passage.lineEnd - 1)
  short : (encode passage.text).length ≤ passageBytes
  distinct : (passage.references.map NoteContextReference.chunkId).Nodup
  /-- Each reference is that of a match of this source, and the passage holds the lines of a match
  of its chunk. -/
  cited : ∀ reference ∈ passage.references,
    (∃ candidate ∈ candidates, reference = referenceOf candidate ∧
      candidate.path = passage.path ∧ candidate.sourceRevision = passage.sourceRevision) ∧
    ∃ candidate ∈ candidates, candidate.chunkId = reference.chunkId ∧ Holds passage candidate

/-- Passages of one path have no line in common. -/
def Apart (passage other : NoteContextPassage) : Prop :=
  passage.path = other.path →
    passage.lineEnd < other.lineStart ∨ other.lineEnd < passage.lineStart

/-- What holds after the matches `done`. -/
structure Assembled (hashes : Hashes) (sources : List NoteContextSource)
    (candidates done : List NoteContextMatch) (assembly : Assembly) : Prop where
  sound : ∀ passage ∈ assembly.passages, ∃ supplied source,
    PassageOf hashes sources candidates passage supplied source
  apart : assembly.passages.Pairwise Apart
  few : assembly.passages.length ≤ resultLimit
  fits : fitsResponse assembly.passages = true
  complete : assembly.reasons ≠ [] ∨
    ∀ candidate ∈ done, ∃ passage ∈ assembly.passages, Holds passage candidate

theorem Assembled.because (h : Assembled hashes sources candidates done assembly)
    (candidate : NoteContextMatch) (reason : Reason) :
    Assembled hashes sources candidates (done ++ [candidate]) (assembly.because reason) where
  sound := h.sound
  apart := h.apart
  few := h.few
  fits := h.fits
  complete := .inl (by simp [Assembly.because])

theorem Apart.symm {other : NoteContextPassage} (h : Apart passage other) :
    Apart other passage := fun heq => (h heq.symm).symm

instance : Std.Symm Apart := ⟨fun _ _ h => h.symm⟩

/-- The merged passage covers the selection and each passage it takes up, begins where one of them
does and ends where one of them does. -/
structure Hull (first last : ℕ) (overlaps : List NoteContextPassage)
    (merged : NoteContextPassage) : Prop where
  first_le : merged.lineStart ≤ first + 1
  le_last : last + 1 ≤ merged.lineEnd
  covers : ∀ passage ∈ overlaps, merged.lineStart ≤ passage.lineStart ∧
    passage.lineEnd ≤ merged.lineEnd
  start : merged.lineStart = first + 1 ∨ ∃ passage ∈ overlaps,
    merged.lineStart = passage.lineStart
  stop : merged.lineEnd = last + 1 ∨ ∃ passage ∈ overlaps, merged.lineEnd = passage.lineEnd

theorem mergedPassage_hull (source : SourceState) (candidate : NoteContextMatch) (first last : ℕ)
    (overlaps : List NoteContextPassage)
    (hoverlaps : ∀ passage ∈ overlaps, 1 ≤ passage.lineStart ∧ 1 ≤ passage.lineEnd) :
    Hull first last overlaps (mergedPassage source candidate first last overlaps) := by
  obtain ⟨hfirst, hfirsts, hfirstAt⟩ :=
    foldl_min_spec (fun passage : NoteContextPassage => passage.lineStart - 1) overlaps first
  obtain ⟨hlast, hlasts, hlastAt⟩ :=
    foldl_max_spec (fun passage : NoteContextPassage => passage.lineEnd - 1) overlaps last
  have hstart : (mergedPassage source candidate first last overlaps).lineStart =
      overlaps.foldl (fun first passage => min first (passage.lineStart - 1)) first + 1 := rfl
  have hstop : (mergedPassage source candidate first last overlaps).lineEnd =
      overlaps.foldl (fun last passage => max last (passage.lineEnd - 1)) last + 1 := rfl
  constructor
  · omega
  · omega
  · intro passage hpassage
    have hpos := hoverlaps passage hpassage
    have hfirst' := hfirsts passage hpassage
    have hlast' := hlasts passage hpassage
    omega
  · rcases hfirstAt with hsame | ⟨passage, hpassage, hsame⟩
    · exact .inl (by omega)
    · have hpos := hoverlaps passage hpassage
      exact .inr ⟨passage, hpassage, by omega⟩
  · rcases hlastAt with hsame | ⟨passage, hpassage, hsame⟩
    · exact .inl (by omega)
    · have hpos := hoverlaps passage hpassage
      exact .inr ⟨passage, hpassage, by omega⟩

/-- What is known of a selection of the source of a match. -/
structure Selection (hashes : Hashes) (sources : List NoteContextSource)
    (candidates : List NoteContextMatch) (candidate : NoteContextMatch)
    (supplied : NoteContextSource) (source : SourceState) (first last : ℕ) : Prop where
  member : candidate ∈ candidates
  found : sources.find? (fun source => source.path = candidate.path) = some supplied
  read : readSource supplied.bytes = .source source
  revision : hashes.sha256 supplied.bytes = candidate.sourceRevision
  range : first ≤ last ∧ last < source.lines.length
  matched : first + 1 ≤ candidate.matchLineStart ∧ candidate.matchLineEnd ≤ last + 1
  start : StartOk source.blocks first
  stop : EndOk source.blocks last

variable {candidate : NoteContextMatch} {supplied : NoteContextSource} {source : SourceState}
  {first last : ℕ}

/-- A passage of the same path has the same source. -/
theorem Selection.same (hselection : Selection hashes sources candidates candidate supplied source
    first last) {supplied' : NoteContextSource} {source' : SourceState}
    (hpassage : PassageOf hashes sources candidates passage supplied' source')
    (hpath : passage.path = candidate.path) : supplied' = supplied ∧ source' = source := by
  have hfound := hpassage.found
  rw [hpath, hselection.found] at hfound
  cases hfound
  have hread := hpassage.read
  rw [hselection.read] at hread
  cases hread
  exact ⟨rfl, rfl⟩

theorem mergedPassage_of (h : Assembled hashes sources candidates done assembly)
    (hselection : Selection hashes sources candidates candidate supplied source first last)
    (hshort : (encode (mergedPassage source candidate first last
      (assembly.passages.filter (overlapping candidate first last))).text).length ≤ passageBytes) :
    PassageOf hashes sources candidates (mergedPassage source candidate first last
      (assembly.passages.filter (overlapping candidate first last))) supplied source ∧
      Hull first last (assembly.passages.filter (overlapping candidate first last))
        (mergedPassage source candidate first last
          (assembly.passages.filter (overlapping candidate first last))) := by
  have hoverlaps : ∀ passage ∈ assembly.passages.filter (overlapping candidate first last),
      passage.path = candidate.path ∧
        PassageOf hashes sources candidates passage supplied source := by
    intro passage hpassage
    obtain ⟨hmem, hover⟩ := List.mem_filter.mp hpassage
    simp only [overlapping, Bool.and_eq_true, decide_eq_true_eq] at hover
    obtain ⟨supplied', source', hof⟩ := h.sound passage hmem
    obtain ⟨rfl, rfl⟩ := hselection.same hof hover.1.1.1
    exact ⟨hover.1.1.1, hof⟩
  have hhull := mergedPassage_hull source candidate first last
    (assembly.passages.filter (overlapping candidate first last)) fun passage hpassage => by
      have hlines := (hoverlaps passage hpassage).2.lines
      omega
  have hsource := readSource_spec hselection.read
  have hrange := hselection.range
  refine ⟨?_, hhull⟩
  constructor
  · exact hselection.found
  · exact hselection.read
  · exact hselection.revision
  · refine ⟨Nat.le_add_left _ _, le_trans hhull.first_le (le_trans (by omega) hhull.le_last), ?_⟩
    rcases hhull.stop with hsame | ⟨passage, hpassage, hsame⟩
    · omega
    · have hlines := (hoverlaps passage hpassage).2.lines
      omega
  · rfl
  · rfl
  · change decode ((source.bytes.take _).drop _) = _
    rw [hsource.same]
    rfl
  · constructor
    · rcases hhull.start with hsame | ⟨passage, hpassage, hsame⟩
      · rw [hsame]
        exact hselection.start
      · rw [hsame]
        exact (hoverlaps passage hpassage).2.unbroken.1
    · rcases hhull.stop with hsame | ⟨passage, hpassage, hsame⟩
      · rw [hsame]
        exact hselection.stop
      · rw [hsame]
        exact (hoverlaps passage hpassage).2.unbroken.2
  · exact hshort
  · exact (distinctReferences_spec _).1
  · intro reference hreference
    rcases List.mem_append.mp ((distinctReferences_spec _).2 reference hreference) with hold | hnew
    · obtain ⟨passage, hpassage, hin⟩ := List.mem_flatMap.mp hold
      obtain ⟨hpath, hof⟩ := hoverlaps passage hpassage
      obtain ⟨⟨cited, hcited, hsame, hcitedPath, hcitedRevision⟩, ⟨other, hother, hid, hholds⟩⟩ :=
        hof.cited reference hin
      have hcovers := hhull.covers passage hpassage
      refine ⟨⟨cited, hcited, hsame, hcitedPath.trans hpath, ?_⟩, ⟨other, hother, hid, ?_⟩⟩
      · rw [hcitedRevision, ← hof.revision]
        exact hselection.revision
      · exact ⟨hpath.symm.trans hholds.1, le_trans hcovers.1 hholds.2.1,
          le_trans hholds.2.2 hcovers.2⟩
    · rw [List.mem_singleton.mp hnew]
      have hmatched := hselection.matched
      refine ⟨⟨candidate, hselection.member, rfl, rfl, rfl⟩, candidate, hselection.member, rfl, rfl,
        ?_, ?_⟩
      · exact le_trans hhull.first_le hmatched.1
      · exact le_trans hmatched.2 hhull.le_last

/-- A passage that does not meet the selection does not meet the merged one. -/
theorem apart_merged (h : Assembled hashes sources candidates done assembly)
    (hselection : Selection hashes sources candidates candidate supplied source first last)
    {merged : NoteContextPassage} (hpath : merged.path = candidate.path)
    (hhull : Hull first last (assembly.passages.filter (overlapping candidate first last)) merged)
    {other : NoteContextPassage} (hother : other ∈ assembly.passages)
    (hnot : overlapping candidate first last other = false) : Apart merged other := by
  intro hsame
  obtain ⟨supplied', source', hof⟩ := h.sound other hother
  have hotherPath : other.path = candidate.path := hsame.symm.trans hpath
  obtain ⟨rfl, rfl⟩ := hselection.same hof hotherPath
  have hrevision : other.sourceRevision = candidate.sourceRevision :=
    hof.revision.symm.trans hselection.revision
  have hlines := hof.lines
  have hfirst := hhull.first_le
  have hlast := hhull.le_last
  -- the passages taken up are apart from this one
  have hoverlap : ∀ passage ∈ assembly.passages.filter (overlapping candidate first last),
      (passage.lineStart ≤ last + 1 ∧ first + 1 ≤ passage.lineEnd ∧
        passage.lineStart ≤ passage.lineEnd) ∧
        (passage.lineEnd < other.lineStart ∨ other.lineEnd < passage.lineStart) := by
    intro passage hpassage
    obtain ⟨hmem, hover⟩ := List.mem_filter.mp hpassage
    have hmeets := hover
    simp only [overlapping, Bool.and_eq_true, decide_eq_true_eq] at hmeets
    obtain ⟨_, _, hpassageOf⟩ := h.sound passage hmem
    refine ⟨⟨hmeets.1.2, hmeets.2, hpassageOf.lines.2.1⟩, ?_⟩
    have hne : passage ≠ other := by
      rintro rfl
      rw [hover] at hnot
      cases hnot
    exact h.apart.forall hmem hother hne (hmeets.1.1.1.trans hotherPath.symm)
  have houtside : last + 1 < other.lineStart ∨ other.lineEnd < first + 1 := by
    by_contra hmeets
    push Not at hmeets
    have hover : overlapping candidate first last other = true := by
      simp only [overlapping, Bool.and_eq_true, decide_eq_true_eq]
      exact ⟨⟨⟨hotherPath, hrevision⟩, hmeets.1⟩, hmeets.2⟩
    rw [hover] at hnot
    cases hnot
  rcases houtside with hbehind | hahead
  · left
    rcases hhull.stop with hsame | ⟨passage, hpassage, hsame⟩
    · omega
    · have hapart := hoverlap passage hpassage
      omega
  · right
    rcases hhull.start with hsame | ⟨passage, hpassage, hsame⟩
    · omega
    · have hapart := hoverlap passage hpassage
      omega

theorem addSelection_spec (h : Assembled hashes sources candidates done assembly)
    (hselection : Selection hashes sources candidates candidate supplied source first last) :
    Assembled hashes sources candidates (done ++ [candidate])
      (addSelection source candidate first last assembly) := by
  unfold addSelection
  dsimp only
  by_cases hlong : passageBytes < (encode (mergedPassage source candidate first last
      (assembly.passages.filter (overlapping candidate first last))).text).length
  · rw [if_pos hlong]
    exact h.because candidate _
  rw [if_neg hlong]
  split_ifs with hmany hlarge
  · exact h.because candidate _
  · exact h.because candidate _
  · obtain ⟨hof, hhull⟩ := mergedPassage_of h hselection (by omega)
    constructor
    · intro passage hpassage
      rcases mem_putPassage.mp hpassage with rfl | ⟨hmem, _⟩
      · exact ⟨supplied, source, hof⟩
      · exact h.sound passage hmem
    · refine putPassage_pairwise h.apart fun other hother hnot => ?_
      have hapart := apart_merged h hselection rfl hhull hother hnot
      exact ⟨hapart, hapart.symm⟩
    · change List.length (putPassage _ _ _) ≤ _
      omega
    · simpa using hlarge
    · rcases h.complete with hreasons | hdone
      · exact .inl hreasons
      · right
        intro earlier hearlier
        rcases List.mem_append.mp hearlier with hearlier | hnew
        · obtain ⟨passage, hmem, hholds⟩ := hdone earlier hearlier
          cases hover : overlapping candidate first last passage with
          | false => exact ⟨passage, mem_putPassage.mpr (.inr ⟨hmem, hover⟩), hholds⟩
          | true =>
            have hfilter : passage ∈
                assembly.passages.filter (overlapping candidate first last) :=
              List.mem_filter.mpr ⟨hmem, hover⟩
            have hcovers := hhull.covers passage hfilter
            simp only [overlapping, Bool.and_eq_true, decide_eq_true_eq] at hover
            exact ⟨_, mem_putPassage.mpr (.inl rfl), hover.1.1.1.symm.trans hholds.1,
              le_trans hcovers.1 hholds.2.1, le_trans hholds.2.2 hcovers.2⟩
        · rw [List.mem_singleton.mp hnew]
          have hmatched := hselection.matched
          exact ⟨_, mem_putPassage.mpr (.inl rfl), rfl, le_trans hhull.first_le hmatched.1,
            le_trans hmatched.2 hhull.le_last⟩

end Passages

end Piclaw.NoteContext
