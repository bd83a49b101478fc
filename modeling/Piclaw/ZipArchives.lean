import Piclaw.TarArchives
import Piclaw.ZipRecords

/-!
# ZIP archives

What a ZIP archive without ZIP64 records is, and when the two listings of one are exact.
-/

namespace Piclaw.Archives

open TextRuns Utf8Decoding

section Encoding

def uint16 (n : ℕ) : Bytes := [n % 256, n / 256 % 256]

def uint32 (n : ℕ) : Bytes := uint16 n ++ uint16 (n / 65536)

/-- A file of an archive, as the central directory describes it. The fields that neither listing
reads hold any bytes. -/
structure ZipEntry where
  name : Text
  versionsAndFlags : Bytes
  compressionMethod : ℕ
  timeAndChecksum : Bytes
  compressedSize : ℕ
  uncompressedSize : ℕ
  diskAndInternalAttrs : Bytes
  externalAttrs : ℕ
  localOffset : Bytes
  extra : Bytes
  comment : Bytes
  name_ne : name ≠ []
  name_trimmed : stripEnds isTrimmed name = name
  name_slashed : '\\' ∉ name
  name_fits : (encode name).length < 65536
  versionsAndFlags_length : versionsAndFlags.length = 6
  compressionMethod_fits : compressionMethod < 65536
  timeAndChecksum_length : timeAndChecksum.length = 8
  compressedSize_fits : compressedSize < 65536 * 65536
  uncompressedSize_fits : uncompressedSize < 65536 * 65536
  diskAndInternalAttrs_length : diskAndInternalAttrs.length = 4
  externalAttrs_fits : externalAttrs < 65536 * 65536
  localOffset_length : localOffset.length = 4
  extra_fits : extra.length < 65536
  comment_fits : comment.length < 65536

/-- The central directory's record of a file. -/
def ZipEntry.encode (e : ZipEntry) : Bytes :=
  uint32 centralDirectorySignature ++ (e.versionsAndFlags ++ (uint16 e.compressionMethod ++
    (e.timeAndChecksum ++ (uint32 e.compressedSize ++ (uint32 e.uncompressedSize ++
      (uint16 (Utf8Decoding.encode e.name).length ++ (uint16 e.extra.length ++
        (uint16 e.comment.length ++ (e.diskAndInternalAttrs ++ (uint32 e.externalAttrs ++
          (e.localOffset ++ (Utf8Decoding.encode e.name ++ (e.extra ++ e.comment)))))))))))))

/-- What the preview is to say about a file. -/
def ZipEntry.preview (e : ZipEntry) : ZipPreviewEntry where
  path := e.name
  isDirectory := e.name.getLast? = some '/'
  compressedSize := e.compressedSize
  uncompressedSize := e.uncompressedSize
  compressionMethod := e.compressionMethod
  comment := dropByteOrderMark (decode e.comment)

/-- What the listing of the workspace is to say about a file. -/
def ZipEntry.summary (e : ZipEntry) : ArchiveEntrySummary where
  name := e.name
  compressedSize := some e.compressedSize
  uncompressedSize := e.uncompressedSize
  isDirectory := e.name.getLast? = some '/' || e.externalAttrs / 65536 / 4096 % 16 = 4

def encodeDirectory (entries : List ZipEntry) : Bytes := entries.flatMap ZipEntry.encode

/-- An archive: any bytes in front, the directory, and the end record with its comment. -/
structure ZipArchive where
  leading : Bytes
  entries : List ZipEntry
  disks : Bytes
  comment : Bytes
  entries_fit : entries.length < 65535
  disks_length : disks.length = 6
  comment_fits : comment.length ≤ 65535
  leading_fits : leading.length < 65536 * 65536
  directory_fits : (encodeDirectory entries).length < 65536 * 65536

def ZipArchive.endRecord (a : ZipArchive) : Bytes :=
  uint32 eocdSignature ++ (a.disks ++ (uint16 a.entries.length ++
    (uint32 (encodeDirectory a.entries).length ++ (uint32 a.leading.length ++
      (uint16 a.comment.length ++ a.comment)))))

def ZipArchive.bytes (a : ZipArchive) : Bytes :=
  a.leading ++ (encodeDirectory a.entries ++ a.endRecord)

/-- Where the end record of an archive is. -/
def ZipArchive.endOffset (a : ZipArchive) : ℕ := (a.leading ++ encodeDirectory a.entries).length

end Encoding

section Fields

theorem readUint16_skip {front rest : Bytes} {m : ℕ} (h : front.length = m) (k : ℕ) :
    readUint16 (front ++ rest) (m + k) = readUint16 rest k := by
  subst h
  unfold readUint16
  rw [List.getD_append_right _ _ _ _ (Nat.le_add_right _ _), Nat.add_assoc,
    List.getD_append_right _ _ _ _ (Nat.le_add_right _ _), Nat.add_sub_cancel_left,
    Nat.add_sub_cancel_left]

theorem readUint32_skip {front rest : Bytes} {m : ℕ} (h : front.length = m) (k : ℕ) :
    readUint32 (front ++ rest) (m + k) = readUint32 rest k := by
  unfold readUint32
  rw [readUint16_skip h, Nat.add_assoc, readUint16_skip h]

theorem readUint16_field {n : ℕ} (h : n < 65536) (rest : Bytes) :
    readUint16 (uint16 n ++ rest) 0 = n := by
  change n % 256 + 256 * (n / 256 % 256) = n
  omega

theorem readUint32_field {n : ℕ} (h : n < 65536 * 65536) (rest : Bytes) :
    readUint32 (uint32 n ++ rest) 0 = n := by
  change n % 256 + 256 * (n / 256 % 256) +
    65536 * (n / 65536 % 256 + 256 * (n / 65536 / 256 % 256)) = n
  omega

theorem uint16_length (n : ℕ) : (uint16 n).length = 2 := rfl

theorem uint32_length (n : ℕ) : (uint32 n).length = 4 := rfl

theorem take_field {front field : Bytes} {m n : ℕ} (hfront : front.length = m)
    (hfield : field.length = n) (rest : Bytes) :
    ((front ++ (field ++ rest)).drop m).take n = field := by
  rw [← hfront, List.drop_left, ← hfield, List.take_left]

end Fields

section Records
variable (e : ZipEntry) (rest : Bytes)

theorem signature_field :
    readUint32 (e.encode ++ rest) 0 = centralDirectorySignature := by
  simp only [ZipEntry.encode, List.append_assoc]
  exact readUint32_field (by decide) _

theorem compressionMethod_field : readUint16 (e.encode ++ rest) 10 = e.compressionMethod := by
  simp only [ZipEntry.encode, List.append_assoc]
  change readUint16 _ (4 + (6 + 0)) = _
  rw [readUint16_skip (uint32_length _), readUint16_skip e.versionsAndFlags_length,
    readUint16_field e.compressionMethod_fits]

/-- The record from the sizes on. -/
def ZipEntry.sizesAndRest (e : ZipEntry) (rest : Bytes) : Bytes :=
  uint32 e.compressedSize ++ (uint32 e.uncompressedSize ++
    (uint16 (Utf8Decoding.encode e.name).length ++ (uint16 e.extra.length ++
      (uint16 e.comment.length ++ (e.diskAndInternalAttrs ++ (uint32 e.externalAttrs ++
        (e.localOffset ++ (Utf8Decoding.encode e.name ++ (e.extra ++ (e.comment ++ rest))))))))))

theorem encode_sizes : e.encode ++ rest = (uint32 centralDirectorySignature ++
    (e.versionsAndFlags ++ (uint16 e.compressionMethod ++ e.timeAndChecksum))) ++
      e.sizesAndRest rest := by
  simp only [ZipEntry.encode, ZipEntry.sizesAndRest, List.append_assoc]

theorem front_length : (uint32 centralDirectorySignature ++ (e.versionsAndFlags ++
    (uint16 e.compressionMethod ++ e.timeAndChecksum))).length = 20 := by
  simp only [List.length_append, uint32_length, uint16_length, e.versionsAndFlags_length,
    e.timeAndChecksum_length]

theorem compressedSize_field : readUint32 (e.encode ++ rest) 20 = e.compressedSize := by
  rw [encode_sizes]
  change readUint32 _ (20 + 0) = _
  rw [readUint32_skip (front_length e)]
  exact readUint32_field e.compressedSize_fits _

theorem uncompressedSize_field : readUint32 (e.encode ++ rest) 24 = e.uncompressedSize := by
  rw [encode_sizes]
  change readUint32 _ (20 + (4 + 0)) = _
  rw [readUint32_skip (front_length e), ZipEntry.sizesAndRest, readUint32_skip (uint32_length _)]
  exact readUint32_field e.uncompressedSize_fits _

theorem nameLength_field :
    readUint16 (e.encode ++ rest) 28 = (Utf8Decoding.encode e.name).length := by
  rw [encode_sizes]
  change readUint16 _ (20 + (4 + (4 + 0))) = _
  rw [readUint16_skip (front_length e), ZipEntry.sizesAndRest, readUint16_skip (uint32_length _),
    readUint16_skip (uint32_length _), readUint16_field e.name_fits]

theorem extraLength_field : readUint16 (e.encode ++ rest) 30 = e.extra.length := by
  rw [encode_sizes]
  change readUint16 _ (20 + (4 + (4 + (2 + 0)))) = _
  rw [readUint16_skip (front_length e), ZipEntry.sizesAndRest, readUint16_skip (uint32_length _),
    readUint16_skip (uint32_length _), readUint16_skip (uint16_length _),
    readUint16_field e.extra_fits]

theorem commentLength_field : readUint16 (e.encode ++ rest) 32 = e.comment.length := by
  rw [encode_sizes]
  change readUint16 _ (20 + (4 + (4 + (2 + (2 + 0))))) = _
  rw [readUint16_skip (front_length e), ZipEntry.sizesAndRest, readUint16_skip (uint32_length _),
    readUint16_skip (uint32_length _), readUint16_skip (uint16_length _),
    readUint16_skip (uint16_length _), readUint16_field e.comment_fits]

theorem externalAttrs_field : readUint32 (e.encode ++ rest) 38 = e.externalAttrs := by
  rw [encode_sizes]
  change readUint32 _ (20 + (4 + (4 + (2 + (2 + (2 + (4 + 0))))))) = _
  rw [readUint32_skip (front_length e), ZipEntry.sizesAndRest, readUint32_skip (uint32_length _),
    readUint32_skip (uint32_length _), readUint32_skip (uint16_length _),
    readUint32_skip (uint16_length _), readUint32_skip (uint16_length _),
    readUint32_skip e.diskAndInternalAttrs_length, readUint32_field e.externalAttrs_fits]

/-- The fixed part of a record. -/
def ZipEntry.fixedPart (e : ZipEntry) : Bytes :=
  uint32 centralDirectorySignature ++ (e.versionsAndFlags ++ (uint16 e.compressionMethod ++
    (e.timeAndChecksum ++ (uint32 e.compressedSize ++ (uint32 e.uncompressedSize ++
      (uint16 (Utf8Decoding.encode e.name).length ++ (uint16 e.extra.length ++
        (uint16 e.comment.length ++ (e.diskAndInternalAttrs ++ (uint32 e.externalAttrs ++
          e.localOffset))))))))))

theorem encode_fixed : e.encode = e.fixedPart ++ (Utf8Decoding.encode e.name ++
    (e.extra ++ e.comment)) := by
  simp only [ZipEntry.encode, ZipEntry.fixedPart, List.append_assoc]

theorem fixedPart_length : e.fixedPart.length = 46 := by
  simp only [ZipEntry.fixedPart, List.length_append, uint32_length, uint16_length,
    e.versionsAndFlags_length, e.timeAndChecksum_length, e.diskAndInternalAttrs_length,
    e.localOffset_length]

theorem record_length : e.encode.length =
    46 + ((Utf8Decoding.encode e.name).length + (e.extra.length + e.comment.length)) := by
  rw [encode_fixed, List.length_append, fixedPart_length, List.length_append, List.length_append]

variable (front : Bytes)

theorem name_field : ((front ++ (e.encode ++ rest)).drop (front.length + 46)).take
    (Utf8Decoding.encode e.name).length = Utf8Decoding.encode e.name := by
  have hfront : (front ++ e.fixedPart).length = front.length + 46 := by
    rw [List.length_append, fixedPart_length]
  have hsplit : front ++ (e.encode ++ rest) = (front ++ e.fixedPart) ++
      (Utf8Decoding.encode e.name ++ (e.extra ++ (e.comment ++ rest))) := by
    rw [encode_fixed]
    simp only [List.append_assoc]
  rw [hsplit]
  exact take_field hfront rfl _

theorem comment_field : ((front ++ (e.encode ++ rest)).drop
    (front.length + 46 + (Utf8Decoding.encode e.name).length + e.extra.length)).take
      e.comment.length = e.comment := by
  have hfront : (front ++ (e.fixedPart ++ (Utf8Decoding.encode e.name ++ e.extra))).length =
      front.length + 46 + (Utf8Decoding.encode e.name).length + e.extra.length := by
    simp only [List.length_append, fixedPart_length, Nat.add_assoc]
  have hsplit : front ++ (e.encode ++ rest) =
      (front ++ (e.fixedPart ++ (Utf8Decoding.encode e.name ++ e.extra))) ++
        (e.comment ++ rest) := by
    rw [encode_fixed]
    simp only [List.append_assoc]
  rw [hsplit]
  exact take_field hfront rfl _

theorem normalizePath_name : normalizePath e.name = e.name := by
  have hslashes : e.name.map (fun ch => if ch = '\\' then '/' else ch) = e.name := by
    refine (List.map_congr_left (fun ch hch => ?_)).trans (List.map_id _)
    have hslash : ch ≠ '\\' := fun h => e.name_slashed (h ▸ hch)
    exact if_neg hslash
  rw [normalizePath, hslashes, e.name_trimmed]

/-- A trimmed name does not start with a byte order mark. -/
theorem dropByteOrderMark_name : dropByteOrderMark e.name = e.name := by
  cases hname : e.name with
  | nil => rfl
  | cons ch text =>
    have hhead : (stripEnds isTrimmed e.name).head? = some ch := by
      rw [e.name_trimmed, hname]
      rfl
    have hfalse := stripEnds_head? hhead
    rw [dropByteOrderMark, if_neg]
    rintro rfl
    exact absurd hfalse (by decide)

theorem directoryRecord_encode : directoryRecord (front ++ (e.encode ++ rest)) front.length =
    .ok ⟨front.length, (Utf8Decoding.encode e.name).length + e.extra.length + e.comment.length,
      e.preview⟩ := by
  have hsignature : readUint32 (front ++ (e.encode ++ rest)) front.length =
      centralDirectorySignature := by
    rw [← Nat.add_zero front.length, readUint32_skip rfl]
    exact signature_field e rest
  have hname : normalizePath (decodeBytes (front ++ (e.encode ++ rest)) (front.length + 46)
      (Utf8Decoding.encode e.name).length) = e.name := by
    rw [decodeBytes, name_field, decode_encode, dropByteOrderMark_name, normalizePath_name]
  have hcomment : decodeBytes (front ++ (e.encode ++ rest))
      (front.length + 46 + (Utf8Decoding.encode e.name).length + e.extra.length)
        e.comment.length = dropByteOrderMark (decode e.comment) := by
    rw [decodeBytes, comment_field]
  have hlength := record_length e
  unfold directoryRecord
  rw [readUint16_skip rfl, readUint16_skip rfl, readUint16_skip rfl, readUint16_skip rfl,
    readUint32_skip rfl, readUint32_skip rfl, nameLength_field, extraLength_field,
    commentLength_field, compressionMethod_field, compressedSize_field, uncompressedSize_field,
    hsignature]
  dsimp only
  rw [hname, hcomment, if_neg, if_neg (fun h => h rfl), if_neg]
  · rfl
  · rw [List.length_append, List.length_append]
    omega
  · rw [List.length_append, List.length_append]
    omega

theorem zipSummary_encode : zipSummary (front ++ (e.encode ++ rest)) front.length = e.summary := by
  unfold zipSummary
  rw [readUint16_skip rfl, readUint32_skip rfl, readUint32_skip rfl, readUint32_skip rfl,
    nameLength_field, compressedSize_field, uncompressedSize_field, externalAttrs_field,
    name_field, decode_encode]
  rfl

/-- The round at a record lists it and goes on behind it. -/
theorem zipStep_encode {maxEntries entryCount : ℕ} {s : ZipCursor} (hs : s.offset = front.length)
    (hcount : s.totalEntries < entryCount) :
    zipStep (front ++ (e.encode ++ rest)) maxEntries entryCount s = some
      { offset := (front ++ e.encode).length
        entries := if s.entries.length < maxEntries then s.entries ++ [e.summary] else s.entries
        totalEntries := s.totalEntries + 1 } := by
  have hsignature : readUint32 (front ++ (e.encode ++ rest)) front.length =
      centralDirectorySignature := by
    rw [← Nat.add_zero front.length, readUint32_skip rfl]
    exact signature_field e rest
  have hlength := record_length e
  have hroom : front.length + 46 ≤ (front ++ (e.encode ++ rest)).length := by
    rw [List.length_append, List.length_append]
    omega
  have hname : ¬ (front ++ (e.encode ++ rest)).length <
      front.length + 46 + (Utf8Decoding.encode e.name).length := by
    rw [List.length_append, List.length_append]
    omega
  have hnext : front.length + 46 + (Utf8Decoding.encode e.name).length + e.extra.length +
      e.comment.length = (front ++ e.encode).length := by
    rw [List.length_append]
    omega
  unfold zipStep
  dsimp only
  rw [hs, if_pos ⟨hroom, hcount⟩, readUint16_skip rfl, readUint16_skip rfl, readUint16_skip rfl,
    nameLength_field, extraLength_field, commentLength_field, hsignature,
    if_neg (fun h => h rfl), if_neg hname, zipSummary_encode, hnext]

end Records

section Directories
variable {entryCount : ℕ}

theorem encodeDirectory_cons (e : ZipEntry) (entries : List ZipEntry) :
    encodeDirectory (e :: entries) = e.encode ++ encodeDirectory entries := List.flatMap_cons

/-- The records that the preview reads in a directory. -/
theorem reads_directory (entries : List ZipEntry) (front rest : Bytes) :
    ∃ records, Reads (front ++ (encodeDirectory entries ++ rest))
        (front ++ encodeDirectory entries).length (front ++ encodeDirectory entries).length
        front.length records ∧
      records.map DirectoryRecord.entry = entries.map ZipEntry.preview := by
  induction entries generalizing front with
  | nil =>
    rw [encodeDirectory, List.flatMap_nil, List.append_nil]
    exact ⟨[], ⟨le_rfl, rfl⟩, rfl⟩
  | cons e entries ih =>
    have hlength := record_length e
    have hnext : front.length + 46 + ((Utf8Decoding.encode e.name).length + e.extra.length +
        e.comment.length) = (front ++ e.encode).length := by
      rw [List.length_append]
      omega
    obtain ⟨records, hreads, hrecords⟩ := ih (front ++ e.encode)
    rw [List.append_assoc, List.append_assoc] at hreads
    rw [encodeDirectory_cons, List.append_assoc]
    refine ⟨_ :: records, ⟨?_, directoryRecord_encode e (encodeDirectory entries ++ rest) front,
      ?_⟩, ?_⟩
    · rw [List.length_append, List.length_append]
      omega
    · rw [hnext]
      exact hreads
    · rw [List.map_cons, hrecords, List.map_cons]

theorem runZip_directory (maxEntries : ℕ) (entries : List ZipEntry) (front rest : Bytes)
    {s : ZipCursor} (hs : s.offset = front.length)
    (hcount : s.totalEntries + entries.length = entryCount) :
    let t := runZip (front ++ (encodeDirectory entries ++ rest)) maxEntries entryCount
      entries.length s
    t.entries = s.entries ++ (entries.map ZipEntry.summary).take (maxEntries - s.entries.length) ∧
      t.totalEntries = entryCount := by
  induction entries generalizing front s with
  | nil => exact ⟨by simp [runZip], hcount⟩
  | cons e entries ih =>
    rw [List.length_cons] at hcount
    obtain ⟨hentries, htotal⟩ := ih (front ++ e.encode) (s :=
      { offset := (front ++ e.encode).length
        entries := if s.entries.length < maxEntries then s.entries ++ [e.summary] else s.entries
        totalEntries := s.totalEntries + 1 }) rfl (by dsimp only; omega)
    rw [List.append_assoc] at hentries htotal
    rw [encodeDirectory_cons, List.append_assoc, List.length_cons, runZip,
      zipStep_encode e _ front hs (by omega)]
    refine ⟨?_, htotal⟩
    dsimp only
    rw [hentries, List.map_cons]
    exact append_kept _ _ _ _

end Directories

end Piclaw.Archives
