import Piclaw.ZipArchives

/-!
# Finding the directory of a ZIP archive

The search for the end record stops at the last place that looks like one, and the scan for a
ZIP64 locator reads whatever stands before the end record.
-/

namespace Piclaw.Archives

open Utf8Decoding

section Search

theorem find_downwards {p : ℕ → Bool} {start n k : ℕ} :
    (List.range' start n).reverse.find? p = some k ↔
      p k = true ∧ start ≤ k ∧ k < start + n ∧ ∀ j, k < j → j < start + n → p j = false := by
  induction n with
  | zero =>
    simp only [List.range'_zero, List.reverse_nil, List.find?_nil, reduceCtorEq, false_iff]
    omega
  | succ n ih =>
    rw [List.range'_concat, List.reverse_append, List.reverse_singleton, List.singleton_append,
      List.find?_cons, Nat.one_mul]
    cases hp : p (start + n) with
    | true =>
      rw [Option.some_inj]
      constructor
      · rintro rfl
        exact ⟨hp, by omega, by omega, by omega⟩
      · rintro ⟨-, -, hk, hnone⟩
        by_contra hne
        rw [hnone (start + n) (by omega) (by omega)] at hp
        cases hp
    | false =>
      dsimp only
      rw [ih]
      constructor
      · rintro ⟨hpk, hstart, hk, hnone⟩
        refine ⟨hpk, hstart, by omega, fun j hkj hj => ?_⟩
        rcases Nat.lt_succ_iff_lt_or_eq.mp (show j < (start + n) + 1 by omega) with hlt | rfl
        · exact hnone j hkj hlt
        · exact hp
      · rintro ⟨hpk, hstart, hk, hnone⟩
        have hne : k ≠ start + n := by
          rintro rfl
          rw [hp] at hpk
          cases hpk
        exact ⟨hpk, hstart, by omega, fun j hkj hj => hnone j hkj (by omega)⟩

theorem searchStart_le {length k : ℕ} :
    searchStart length ≤ k ↔ length ≤ k + maxEocdSearchBytes := by
  unfold searchStart
  split_ifs with hshort
  · omega
  · omega

/-- The record that is found is the last one in the bytes that are searched. -/
theorem findEndOfCentralDirectory_iff {bytes : Bytes} {eocdOffset : ℕ} :
    findEndOfCentralDirectory bytes = some eocdOffset ↔
      readUint32 bytes eocdOffset = eocdSignature ∧
        bytes.length ≤ eocdOffset + maxEocdSearchBytes ∧ eocdOffset + 22 ≤ bytes.length ∧
        ∀ offset, eocdOffset < offset → offset + 22 ≤ bytes.length →
          readUint32 bytes offset ≠ eocdSignature := by
  unfold findEndOfCentralDirectory
  dsimp only
  rw [find_downwards]
  simp only [decide_eq_true_eq, decide_eq_false_iff_not]
  have hle := @searchStart_le bytes.length eocdOffset
  constructor
  · rintro ⟨hsignature, hstart, hstop, hlast⟩
    exact ⟨hsignature, by omega, by omega, fun offset hoffset hroom =>
      hlast offset hoffset (by omega)⟩
  · rintro ⟨hsignature, hstart, hstop, hlast⟩
    exact ⟨hsignature, by omega, by omega, fun offset hoffset hroom =>
      hlast offset hoffset (by omega)⟩

theorem detectZip64_iff {bytes : Bytes} {eocdOffset : ℕ} :
    detectZip64 bytes eocdOffset = false ↔
      ∀ offset, eocdOffset ≤ offset + 20 → offset + 4 ≤ eocdOffset →
        readUint32 bytes offset ≠ zip64EocdLocatorSignature := by
  unfold detectZip64
  dsimp only
  rw [List.any_eq_false]
  simp only [List.mem_range'_1, decide_eq_true_eq]
  constructor
  · intro h offset hstart hstop
    exact h offset ⟨by omega, by omega⟩
  · rintro h offset ⟨hstart, hstop⟩
    exact h offset (by omega) (by omega)

theorem parseZipEntries_found {buffer : Bytes} {maxEntries eocdOffset : ℕ}
    (h : findEndOfCentralDirectory buffer = some eocdOffset) :
    parseZipEntries buffer maxEntries = .ok (listDirectory buffer maxEntries eocdOffset) := by
  unfold parseZipEntries
  rw [h]

end Search

section Archive
variable {a : ZipArchive} {localeCompare : Text → Text → ℤ} {maxEntries : ℕ}

theorem bytes_split (a : ZipArchive) :
    a.bytes = (a.leading ++ encodeDirectory a.entries) ++ a.endRecord := by
  rw [ZipArchive.bytes, List.append_assoc]

theorem endRecord_length (a : ZipArchive) : a.endRecord.length = 22 + a.comment.length := by
  simp only [ZipArchive.endRecord, List.length_append, uint32_length, uint16_length,
    a.disks_length]
  omega

theorem bytes_length (a : ZipArchive) :
    a.bytes.length = a.endOffset + (22 + a.comment.length) := by
  rw [bytes_split, List.length_append, endRecord_length]
  rfl

theorem readUint16_end (a : ZipArchive) (k : ℕ) :
    readUint16 a.bytes (a.endOffset + k) = readUint16 a.endRecord k := by
  rw [bytes_split]
  exact readUint16_skip rfl k

theorem readUint32_end (a : ZipArchive) (k : ℕ) :
    readUint32 a.bytes (a.endOffset + k) = readUint32 a.endRecord k := by
  rw [bytes_split]
  exact readUint32_skip rfl k

theorem signature_end (a : ZipArchive) : readUint32 a.bytes a.endOffset = eocdSignature := by
  rw [← Nat.add_zero a.endOffset, readUint32_end, ZipArchive.endRecord]
  exact readUint32_field (by decide) _

theorem storedCount_end (a : ZipArchive) : storedCount a.bytes a.endOffset = a.entries.length := by
  have hfit := a.entries_fit
  rw [storedCount, readUint16_end, ZipArchive.endRecord]
  change readUint16 _ (4 + (6 + 0)) = _
  rw [readUint16_skip (uint32_length _), readUint16_skip a.disks_length]
  exact readUint16_field (by omega) _

theorem directorySize_end (a : ZipArchive) :
    directorySize a.bytes a.endOffset = (encodeDirectory a.entries).length := by
  rw [directorySize, readUint32_end, ZipArchive.endRecord]
  change readUint32 _ (4 + (6 + (2 + 0))) = _
  rw [readUint32_skip (uint32_length _), readUint32_skip a.disks_length,
    readUint32_skip (uint16_length _)]
  exact readUint32_field a.directory_fits _

theorem directoryOffset_end (a : ZipArchive) :
    directoryOffset a.bytes a.endOffset = a.leading.length := by
  rw [directoryOffset, readUint32_end, ZipArchive.endRecord]
  change readUint32 _ (4 + (6 + (2 + (4 + 0)))) = _
  rw [readUint32_skip (uint32_length _), readUint32_skip a.disks_length,
    readUint32_skip (uint16_length _), readUint32_skip (uint32_length _)]
  exact readUint32_field a.leading_fits _

theorem directoryEnd_end (a : ZipArchive) : directoryEnd a.bytes a.endOffset = a.endOffset := by
  rw [directoryEnd, directoryOffset_end, directorySize_end, ZipArchive.endOffset,
    List.length_append]

/-- Behind the start of the end record nothing looks like another one. -/
def ZipArchive.EndAlone (a : ZipArchive) : Prop :=
  ∀ offset, a.endOffset < offset → offset + 22 ≤ a.bytes.length →
    readUint32 a.bytes offset ≠ eocdSignature

/-- In the 20 bytes before the end record nothing looks like the locator of ZIP64. -/
def ZipArchive.NoLocator (a : ZipArchive) : Prop :=
  ∀ offset, a.endOffset ≤ offset + 20 → offset + 4 ≤ a.endOffset →
    readUint32 a.bytes offset ≠ zip64EocdLocatorSignature

/-- Both listings return the entries of the archive: the preview in an order of its own, the
listing of the workspace the first `maxEntries` of them. -/
def ZipArchive.Exact (a : ZipArchive) (localeCompare : Text → Text → ℤ) (maxEntries : ℕ) : Prop :=
  (∃ data, parseZipPreview localeCompare a.bytes = .ok data ∧
    data.entries.Perm (a.entries.map ZipEntry.preview)) ∧
  parseZipEntries a.bytes maxEntries = .ok ⟨(a.entries.map ZipEntry.summary).take maxEntries,
    a.entries.length, decide (maxEntries < a.entries.length)⟩

theorem found_iff (a : ZipArchive) :
    findEndOfCentralDirectory a.bytes = some a.endOffset ↔ a.EndAlone := by
  have hcomment := a.comment_fits
  have hlength := bytes_length a
  have hmax : maxEocdSearchBytes = 65557 := rfl
  rw [findEndOfCentralDirectory_iff]
  constructor
  · exact fun h => h.2.2.2
  · exact fun h => ⟨signature_end a, by omega, by omega, h⟩

theorem reads_archive (a : ZipArchive) :
    ∃ records, Reads a.bytes (directoryEnd a.bytes a.endOffset) a.endOffset
        (directoryOffset a.bytes a.endOffset) records ∧
      listed records = a.entries.map ZipEntry.preview := by
  obtain ⟨records, hreads, hentries⟩ := reads_directory a.entries a.leading a.endRecord
  rw [directoryEnd_end, directoryOffset_end]
  refine ⟨records, hreads, ?_⟩
  rw [listed, hentries, List.filter_eq_self]
  intro entry hentry
  obtain ⟨e, -, rfl⟩ := List.mem_map.mp hentry
  exact decide_eq_true e.name_ne

theorem parseZipEntries_archive (hend : a.EndAlone) :
    parseZipEntries a.bytes maxEntries = .ok ⟨(a.entries.map ZipEntry.summary).take maxEntries,
      a.entries.length, decide (maxEntries < a.entries.length)⟩ := by
  obtain ⟨hentries, htotal⟩ := runZip_directory maxEntries a.entries a.leading a.endRecord
    (s := ⟨a.leading.length, [], 0⟩) rfl (Nat.zero_add _)
  rw [List.nil_append, List.length_nil, Nat.sub_zero] at hentries
  have htruncated : (min maxEntries a.entries.length < a.entries.length) =
      (maxEntries < a.entries.length) := propext (by omega)
  rw [parseZipEntries_found ((found_iff a).mpr hend), listDirectory, storedCount_end,
    directoryOffset_end, ZipArchive.bytes, hentries, htotal, List.length_take,
    List.length_map]
  simp only [htruncated]

theorem parseZipPreview_archive (hend : a.EndAlone) (hlocator : a.NoLocator) :
    ∃ data, parseZipPreview localeCompare a.bytes = .ok data ∧
      data.entries.Perm (a.entries.map ZipEntry.preview) := by
  have hlength := bytes_length a
  obtain ⟨records, hreads, hlisted⟩ := reads_archive a
  have hpreviewable : Previewable a.bytes a.endOffset :=
    ⟨by omega, (found_iff a).mpr hend, detectZip64_iff.mpr hlocator, by
      rw [directoryEnd_end]
      omega⟩
  refine ⟨_, parseZipPreview_of_reads hpreviewable hreads, ?_⟩
  rw [← hlisted]
  exact previewData_perm _ _

/-- Where the listings find the archive's own end record, both are exact exactly if the preview
does not take the bytes before it for a locator. -/
theorem exact_iff (hend : a.EndAlone) : a.Exact localeCompare maxEntries ↔ a.NoLocator := by
  constructor
  · rintro ⟨⟨data, hdata, -⟩, -⟩
    obtain ⟨eocdOffset, records, last, hpreviewable, -⟩ := reads_of_parseZipPreview hdata
    obtain rfl : a.endOffset = eocdOffset :=
      Option.some_inj.mp (((found_iff a).mpr hend).symm.trans hpreviewable.2.1)
    exact detectZip64_iff.mp hpreviewable.2.2.1
  · exact fun hlocator => ⟨parseZipPreview_archive hend hlocator, parseZipEntries_archive hend⟩

end Archive

/-- Listings of archives are exact where nothing behind the end record looks like one, and nothing
before it like a locator; and what the preview reads in any bytes fills the directory that the end
record gives exactly if the records that reach its end do. -/
theorem zip_listings (localeCompare : Text → Text → ℤ) (maxEntries : ℕ) :
    (∀ a : ZipArchive, (findEndOfCentralDirectory a.bytes = some a.endOffset ↔ a.EndAlone) ∧
      (a.EndAlone → (a.Exact localeCompare maxEntries ↔ a.NoLocator))) ∧
    ∀ bytes, ReturnsTiled localeCompare bytes ↔ Consistent bytes :=
  ⟨fun a => ⟨found_iff a, exact_iff⟩, returnsTiled_iff localeCompare⟩

section Inputs

def storedFile (comment : Bytes) (hcomment : comment.length < 65536) : ZipEntry where
  name := ['a']
  versionsAndFlags := List.replicate 6 0
  compressionMethod := 0
  timeAndChecksum := List.replicate 8 0
  compressedSize := 7
  uncompressedSize := 7
  diskAndInternalAttrs := List.replicate 4 0
  externalAttrs := 0
  localOffset := List.replicate 4 0
  extra := []
  comment := comment
  name_ne := by decide
  name_trimmed := by decide
  name_slashed := by decide
  name_fits := by decide
  versionsAndFlags_length := rfl
  compressionMethod_fits := by decide
  timeAndChecksum_length := rfl
  compressedSize_fits := by decide
  uncompressedSize_fits := by decide
  diskAndInternalAttrs_length := rfl
  externalAttrs_fits := by decide
  localOffset_length := rfl
  extra_fits := by decide
  comment_fits := hcomment

/-- An archive of one file and no bytes in front. -/
def oneFile (comment : Bytes) (hcomment : comment.length < 65536)
    (hfits : (encodeDirectory [storedFile comment hcomment]).length < 65536 * 65536) :
    ZipArchive where
  leading := []
  entries := [storedFile comment hcomment]
  disks := List.replicate 6 0
  comment := []
  entries_fit := (by decide : 1 < 65535)
  disks_length := rfl
  comment_fits := by decide
  leading_fits := by decide
  directory_fits := hfits

def plain : ZipArchive := oneFile [] (by decide) (by decide +kernel)

/-- The comment of the file is what starts a locator. -/
def commented : ZipArchive :=
  oneFile (uint32 zip64EocdLocatorSignature) (by decide) (by decide +kernel)

/-- An archive without files, whose comment looks like an end record. -/
def misleading : ZipArchive where
  leading := []
  entries := []
  disks := List.replicate 6 0
  comment := uint32 eocdSignature ++ List.replicate 18 255
  entries_fit := by decide
  disks_length := rfl
  comment_fits := by decide
  leading_fits := by decide
  directory_fits := by decide

/-- An archive without files, whose comment is a copy of its end record. -/
def copied : ZipArchive where
  leading := []
  entries := []
  disks := List.replicate 6 0
  comment := uint32 eocdSignature ++ List.replicate 18 0
  entries_fit := by decide
  disks_length := rfl
  comment_fits := by decide
  leading_fits := by decide
  directory_fits := by decide

/-- An end record that counts a file in a directory of no bytes. -/
def miscounted : Bytes :=
  uint32 eocdSignature ++ (List.replicate 6 0 ++ (uint16 1 ++ List.replicate 10 0))

theorem endAlone_of_no_comment {a : ZipArchive} (h : a.comment = []) : a.EndAlone := by
  intro offset hoffset hroom
  rw [bytes_length, h, List.length_nil] at hroom
  omega

/-- An archive of one file is listed exactly. -/
theorem zip_listings_plain : plain.Exact (fun _ _ => 0) 200 := by
  refine (((zip_listings (fun _ _ => 0) 200).1 plain).2 (endAlone_of_no_comment rfl)).mpr ?_
  have hend : plain.endOffset = 47 := by decide +kernel
  intro offset hstart hstop
  rw [hend] at hstart hstop
  have hlow : 27 ≤ offset := by omega
  have hhigh : offset ≤ 43 := by omega
  interval_cases offset
  all_goals decide +kernel

-- The comment hides the end record here too, but says the same.
example : ¬ copied.EndAlone ∧ copied.Exact (fun _ _ => 0) 200 := by
  have hfound : findEndOfCentralDirectory copied.bytes = some 22 := by decide +kernel
  have hpreviewable : Previewable copied.bytes 22 :=
    ⟨by decide +kernel, hfound, by decide +kernel, by decide +kernel⟩
  have hreads : Reads copied.bytes (directoryEnd copied.bytes 22) 0
      (directoryOffset copied.bytes 22) [] := ⟨by decide +kernel, by decide +kernel⟩
  refine ⟨?_, ⟨_, parseZipPreview_of_reads hpreviewable hreads, List.mergeSort_perm _ _⟩, ?_⟩
  · rw [← found_iff, hfound]
    decide +kernel
  · rw [parseZipEntries_found hfound]
    decide +kernel

theorem misleading_not_exact (localeCompare : Text → Text → ℤ) (maxEntries : ℕ) :
    ¬ misleading.Exact localeCompare maxEntries := by
  rintro ⟨⟨data, hdata, -⟩, -⟩
  obtain ⟨eocdOffset, records, last, ⟨-, hfound, -, hinside⟩, -⟩ :=
    reads_of_parseZipPreview hdata
  have hfake : findEndOfCentralDirectory misleading.bytes = some 22 := by decide +kernel
  obtain rfl : eocdOffset = 22 := Option.some_inj.mp (hfound.symm.trans hfake)
  exact absurd hinside (by decide +kernel)

theorem commented_not_exact (localeCompare : Text → Text → ℤ) (maxEntries : ℕ) :
    ¬ commented.Exact localeCompare maxEntries := by
  intro h
  have hlocator := (exact_iff (endAlone_of_no_comment rfl)).mp h
  exact absurd (hlocator 47 (by decide +kernel) (by decide +kernel)) (by decide +kernel)

theorem miscounted_not_tiled (localeCompare : Text → Text → ℤ) :
    ¬ ReturnsTiled localeCompare miscounted := by
  rw [returnsTiled_iff]
  intro h
  obtain ⟨-, hcount⟩ := h 0 [] 0
    ⟨by decide +kernel, by decide +kernel, by decide +kernel, by decide +kernel⟩
    ⟨by decide +kernel, by decide +kernel⟩
  exact absurd hcount (by decide +kernel)

/-- A comment can hide the end record, the comment of a file can pass for a locator, and nobody
compares the number of files. -/
theorem zip_listings_fail :
    (∀ localeCompare maxEntries, ¬ misleading.Exact localeCompare maxEntries) ∧
    (∀ localeCompare maxEntries, ¬ commented.Exact localeCompare maxEntries) ∧
    ∀ localeCompare, ¬ ReturnsTiled localeCompare miscounted :=
  ⟨misleading_not_exact, commented_not_exact, miscounted_not_tiled⟩

end Inputs

end Piclaw.Archives
