import Piclaw.ZipPreview

/-!
# The records of a directory

Which records the preview reads, and when they fill the range that the end record gives.
-/

namespace Piclaw.Archives

open Utf8Decoding Tilings

section Records
variable {bytes : Bytes} {endOffset cursor last : ℕ} {records : List DirectoryRecord}

/-- The records that follow one another from `cursor` on until one ends at `endOffset` or behind
it; the last of them ends at `last`. -/
def Reads (bytes : Bytes) (endOffset last : ℕ) : ℕ → List DirectoryRecord → Prop
  | cursor, [] => endOffset ≤ cursor ∧ last = cursor
  | cursor, record :: records =>
    cursor < endOffset ∧ directoryRecord bytes cursor = .ok record ∧
      Reads bytes endOffset last (cursor + 46 + record.variableLength) records

/-- The entries that records are listed as. -/
def listed (records : List DirectoryRecord) : List ZipPreviewEntry :=
  (records.map DirectoryRecord.entry).filter (fun entry => entry.path ≠ [])

theorem directoryRecord_spec {record : DirectoryRecord}
    (h : directoryRecord bytes cursor = .ok record) :
    record.start = cursor ∧ cursor + 46 + record.variableLength ≤ bytes.length := by
  unfold directoryRecord at h
  dsimp only at h
  split_ifs at h with hshort hsignature hlong
  cases h
  dsimp only
  omega

theorem readRecords_of_reads {entries : List ZipPreviewEntry}
    (h : Reads bytes endOffset last cursor records) :
    readRecords bytes endOffset cursor entries = .ok (entries ++ listed records) := by
  induction records generalizing cursor entries with
  | nil =>
    rw [readRecords, if_neg (not_lt.mpr h.1)]
    simp [listed]
  | cons record records ih =>
    obtain ⟨hcursor, hrecord, hrest⟩ := h
    rw [readRecords, if_pos hcursor, hrecord, Except.bind, ih hrest]
    by_cases hpath : record.entry.path = []
    · simp [listed, hpath]
    · simp [listed, hpath]

theorem reads_of_readRecords {entries result : List ZipPreviewEntry}
    (h : readRecords bytes endOffset cursor entries = .ok result) :
    ∃ records last, Reads bytes endOffset last cursor records := by
  induction hroom : endOffset - cursor using Nat.strong_induction_on
    generalizing cursor entries with
  | _ room ih =>
    rw [readRecords] at h
    split_ifs at h with hcursor
    · cases hrecord : directoryRecord bytes cursor with
      | error message =>
        rw [hrecord] at h
        cases h
      | ok record =>
        rw [hrecord] at h
        obtain ⟨records, last, hreads⟩ :=
          ih (endOffset - (cursor + 46 + record.variableLength)) (by omega) h rfl
        exact ⟨record :: records, last, hcursor, hrecord, hreads⟩
    · exact ⟨[], cursor, not_lt.mp hcursor, rfl⟩

/-- The records and where they end are determined. -/
theorem reads_unique {records' : List DirectoryRecord} {last' : ℕ}
    (h : Reads bytes endOffset last cursor records)
    (h' : Reads bytes endOffset last' cursor records') : records = records' ∧ last = last' := by
  induction records generalizing cursor records' with
  | nil =>
    cases records' with
    | nil => exact ⟨rfl, h.2.trans h'.2.symm⟩
    | cons record' records' => exact absurd h'.1 (not_lt.mpr h.1)
  | cons record records ih =>
    cases records' with
    | nil => exact absurd h.1 (not_lt.mpr h'.1)
    | cons record' records' =>
      obtain ⟨-, hrecord, hrest⟩ := h
      obtain ⟨-, hrecord', hrest'⟩ := h'
      rw [hrecord] at hrecord'
      cases hrecord'
      obtain ⟨rfl, rfl⟩ := ih hrest hrest'
      exact ⟨rfl, rfl⟩

theorem reads_tiles (h : Reads bytes endOffset last cursor records) :
    Tiles DirectoryRecord.start DirectoryRecord.last cursor last records := by
  induction records generalizing cursor with
  | nil => exact h.2.symm
  | cons record records ih =>
    obtain ⟨-, hrecord, hrest⟩ := h
    obtain ⟨hstart, -⟩ := directoryRecord_spec hrecord
    have hnext : record.last + 1 = cursor + 46 + record.variableLength := by
      unfold DirectoryRecord.last
      omega
    refine ⟨hstart, ?_, hnext ▸ ih hrest⟩
    unfold DirectoryRecord.last
    omega

theorem reads_mem (h : Reads bytes endOffset last cursor records) :
    ∀ record ∈ records, directoryRecord bytes record.start = .ok record := by
  induction records generalizing cursor with
  | nil => exact fun _ hmem => absurd hmem List.not_mem_nil
  | cons record records ih =>
    obtain ⟨-, hrecord, hrest⟩ := h
    rw [List.forall_mem_cons]
    refine ⟨?_, ih hrest⟩
    rw [(directoryRecord_spec hrecord).1]
    exact hrecord

theorem reads_of_tiles
    (hrecords : ∀ record ∈ records, directoryRecord bytes record.start = .ok record)
    (h : Tiles DirectoryRecord.start DirectoryRecord.last cursor endOffset records) :
    Reads bytes endOffset endOffset cursor records := by
  induction records generalizing cursor with
  | nil =>
    obtain rfl : cursor = endOffset := h
    exact ⟨le_rfl, rfl⟩
  | cons record records ih =>
    rw [List.forall_mem_cons] at hrecords
    obtain ⟨hstart, hrange, hrest⟩ := h
    have hle := tiles_le hrest
    have hnext : record.last + 1 = cursor + 46 + record.variableLength := by
      unfold DirectoryRecord.last
      omega
    rw [hnext] at hrest
    exact ⟨by omega, hstart ▸ hrecords.1, ih hrecords.2 hrest⟩

end Records

section Ranges
variable {bytes : Bytes} {localeCompare : Text → Text → ℤ}

/-- Where the directory ends by the end record. -/
def directoryEnd (bytes : Bytes) (eocdOffset : ℕ) : ℕ :=
  directoryOffset bytes eocdOffset + directorySize bytes eocdOffset

/-- The end record that is found, its directory inside the file. -/
def Previewable (bytes : Bytes) (eocdOffset : ℕ) : Prop :=
  22 ≤ bytes.length ∧ findEndOfCentralDirectory bytes = some eocdOffset ∧
    detectZip64 bytes eocdOffset = false ∧ directoryEnd bytes eocdOffset ≤ bytes.length

theorem parseZipPreview_of_reads {eocdOffset last : ℕ} {records : List DirectoryRecord}
    (hpreviewable : Previewable bytes eocdOffset)
    (hreads : Reads bytes (directoryEnd bytes eocdOffset) last (directoryOffset bytes eocdOffset)
      records) :
    parseZipPreview localeCompare bytes = .ok (previewData localeCompare (listed records)) := by
  obtain ⟨hlength, hfound, hplain, hinside⟩ := hpreviewable
  unfold directoryEnd at hinside hreads
  unfold parseZipPreview
  rw [if_neg (not_lt.mpr hlength), hfound]
  dsimp only
  rw [hplain, if_neg Bool.false_ne_true, if_neg (not_lt.mpr hinside), readRecords_of_reads hreads]
  rfl

theorem reads_of_parseZipPreview {data : ZipPreviewData}
    (h : parseZipPreview localeCompare bytes = .ok data) :
    ∃ eocdOffset records last, Previewable bytes eocdOffset ∧
      Reads bytes (directoryEnd bytes eocdOffset) last (directoryOffset bytes eocdOffset)
        records := by
  unfold parseZipPreview at h
  split_ifs at h with hlength
  cases hfound : findEndOfCentralDirectory bytes with
  | none =>
    rw [hfound] at h
    cases h
  | some eocdOffset =>
    rw [hfound] at h
    dsimp only at h
    split_ifs at h with hzip64 hinside
    cases hread : readRecords bytes (directoryEnd bytes eocdOffset)
        (directoryOffset bytes eocdOffset) [] with
    | error message =>
      unfold directoryEnd at hread
      rw [hread] at h
      cases h
    | ok entries =>
      obtain ⟨records, last, hreads⟩ := reads_of_readRecords hread
      exact ⟨eocdOffset, records, last,
        ⟨not_lt.mp hlength, hfound, Bool.not_eq_true _ ▸ hzip64, not_lt.mp hinside⟩, hreads⟩

/-- Whenever the preview returns, the records that it read fill the range of the directory, and
the end record counts them. -/
def ReturnsTiled (localeCompare : Text → Text → ℤ) (bytes : Bytes) : Prop :=
  ∀ data, parseZipPreview localeCompare bytes = .ok data →
    ∃ eocdOffset records, findEndOfCentralDirectory bytes = some eocdOffset ∧
      data.entries.Perm (listed records) ∧
      (∀ record ∈ records, directoryRecord bytes record.start = .ok record) ∧
      Tiles DirectoryRecord.start DirectoryRecord.last (directoryOffset bytes eocdOffset)
        (directoryEnd bytes eocdOffset) records ∧
      records.length = storedCount bytes eocdOffset

/-- Records that reach the end of the range of the directory end there, and the end record counts
them. -/
def Consistent (bytes : Bytes) : Prop :=
  ∀ eocdOffset records last, Previewable bytes eocdOffset →
    Reads bytes (directoryEnd bytes eocdOffset) last (directoryOffset bytes eocdOffset) records →
      last = directoryEnd bytes eocdOffset ∧ records.length = storedCount bytes eocdOffset

theorem previewData_perm (localeCompare : Text → Text → ℤ) (entries : List ZipPreviewEntry) :
    (previewData localeCompare entries).entries.Perm entries := List.mergeSort_perm _ _

theorem returnsTiled_iff (localeCompare : Text → Text → ℤ) (bytes : Bytes) :
    ReturnsTiled localeCompare bytes ↔ Consistent bytes := by
  constructor
  · intro h eocdOffset records last hpreviewable hreads
    obtain ⟨eocdOffset', records', hfound', -, hrecords', htiles, hcount⟩ :=
      h _ (parseZipPreview_of_reads hpreviewable hreads)
    obtain rfl : eocdOffset = eocdOffset' :=
      Option.some_inj.mp (hpreviewable.2.1.symm.trans hfound')
    obtain ⟨rfl, rfl⟩ := reads_unique hreads (reads_of_tiles hrecords' htiles)
    exact ⟨rfl, hcount⟩
  · intro h data hdata
    obtain ⟨eocdOffset, records, last, hpreviewable, hreads⟩ := reads_of_parseZipPreview hdata
    obtain ⟨rfl, hcount⟩ := h eocdOffset records last hpreviewable hreads
    have hlisted : data = previewData localeCompare (listed records) := by
      rw [parseZipPreview_of_reads hpreviewable hreads] at hdata
      cases hdata
      rfl
    exact ⟨eocdOffset, records, hpreviewable.2.1, hlisted ▸ previewData_perm _ _,
      reads_mem hreads, reads_tiles hreads, hcount⟩

end Ranges

end Piclaw.Archives
