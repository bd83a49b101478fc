import Piclaw.TarEntries
import Piclaw.Tilings

/-!
# Listing a ZIP archive

The preview in the browser and the listing of the workspace. Each searches the end record
backwards; the preview then reads records as far as the directory reaches by its size, the listing
as many as the end record counts.
-/

namespace Piclaw.Archives

open TextRuns Utf8Decoding Tilings

section Reading

def eocdSignature : ℕ := 0x06054b50
def centralDirectorySignature : ℕ := 0x02014b50
def zip64EocdLocatorSignature : ℕ := 0x07064b50
def maxEocdSearchBytes : ℕ := 22 + 0xffff

def readUint16 (bytes : Bytes) (offset : ℕ) : ℕ :=
  bytes.getD offset 0 + 256 * bytes.getD (offset + 1) 0

def readUint32 (bytes : Bytes) (offset : ℕ) : ℕ :=
  readUint16 bytes offset + 65536 * readUint16 bytes (offset + 2)

/-- A `TextDecoder` leaves out a byte order mark at the start. -/
def dropByteOrderMark : Text → Text
  | [] => []
  | ch :: text => if ch = Char.ofNat 0xFEFF then text else ch :: text

def decodeBytes (bytes : Bytes) (offset length : ℕ) : Text :=
  dropByteOrderMark (decode ((bytes.drop offset).take length))

/-- `Math.max(0, length - MAX_EOCD_SEARCH_BYTES)` -/
def searchStart (length : ℕ) : ℕ :=
  if length < maxEocdSearchBytes then 0 else length - maxEocdSearchBytes

def findEndOfCentralDirectory (bytes : Bytes) : Option ℕ :=
  let start := searchStart bytes.length
  (List.range' start (bytes.length - 21 - start)).reverse.find?
    (fun offset => readUint32 bytes offset = eocdSignature)

def detectZip64 (bytes : Bytes) (eocdOffset : ℕ) : Bool :=
  let start := eocdOffset - 20
  (List.range' start (eocdOffset - 3 - start)).any
    (fun offset => readUint32 bytes offset = zip64EocdLocatorSignature)

end Reading

section Preview

structure ZipPreviewEntry where
  path : Text
  isDirectory : Bool
  compressedSize : ℕ
  uncompressedSize : ℕ
  compressionMethod : ℕ
  comment : Text
deriving DecidableEq

structure ZipPreviewSummary where
  fileCount : ℕ
  directoryCount : ℕ
  totalEntries : ℕ
  compressedBytes : ℕ
  uncompressedBytes : ℕ
deriving DecidableEq

structure ZipPreviewData where
  entries : List ZipPreviewEntry
  summary : ZipPreviewSummary
deriving DecidableEq

/-- The directories above a file: each of its path's parts but the last joins the one before. -/
def directoriesAbove : Text → List Text → List Text
  | _, [] => []
  | _, [_] => []
  | above, part :: next :: parts =>
    let path := if above ≠ [] then above ++ '/' :: part else part
    path :: directoriesAbove path (next :: parts)

def directoryNamesOf (entry : ZipPreviewEntry) : List Text :=
  let normalized := collapse '/' false entry.path
  if normalized = [] then []
  else if entry.isDirectory then
    [if normalized.getLast? = some '/' then normalized.dropLast else normalized]
  else directoriesAbove [] ((normalized.splitOn '/').filter (fun part => part ≠ []))

def inferDirectoryNames (entries : List ZipPreviewEntry) : List Text :=
  (entries.flatMap directoryNamesOf).dedup

def normalizePath (value : Text) : Text :=
  stripEnds isTrimmed (value.map (fun ch => if ch = '\\' then '/' else ch))

/-- What the loop reads at one position. -/
structure DirectoryRecord where
  start : ℕ
  variableLength : ℕ
  entry : ZipPreviewEntry
deriving DecidableEq

def DirectoryRecord.last (record : DirectoryRecord) : ℕ := record.start + 45 + record.variableLength

def directoryRecord (bytes : Bytes) (cursor : ℕ) : Except String DirectoryRecord :=
  if bytes.length < cursor + 46 then .error "ZIP archive directory entry is truncated."
  else if readUint32 bytes cursor ≠ centralDirectorySignature then
    .error "ZIP archive directory contains an unexpected record."
  else
    let fileNameLength := readUint16 bytes (cursor + 28)
    let extraLength := readUint16 bytes (cursor + 30)
    let commentLength := readUint16 bytes (cursor + 32)
    let nameOffset := cursor + 46
    let commentOffset := nameOffset + fileNameLength + extraLength
    if bytes.length < commentOffset + commentLength then
      .error "ZIP archive directory entry metadata is truncated."
    else
      let path := normalizePath (decodeBytes bytes nameOffset fileNameLength)
      .ok
        { start := cursor
          variableLength := fileNameLength + extraLength + commentLength
          entry :=
            { path := path
              isDirectory := path.getLast? = some '/'
              compressedSize := readUint32 bytes (cursor + 20)
              uncompressedSize := readUint32 bytes (cursor + 24)
              compressionMethod := readUint16 bytes (cursor + 10)
              comment := decodeBytes bytes commentOffset commentLength } }

/-- The loop over the directory. -/
def readRecords (bytes : Bytes) (endOffset cursor : ℕ) (entries : List ZipPreviewEntry) :
    Except String (List ZipPreviewEntry) :=
  if cursor < endOffset then
    (directoryRecord bytes cursor).bind (fun record =>
      readRecords bytes endOffset (cursor + 46 + record.variableLength)
        (if record.entry.path ≠ [] then entries ++ [record.entry] else entries))
  else .ok entries
  termination_by endOffset - cursor

/-- The order of the entries, where `localeCompare` compares two paths. -/
def entryBefore (localeCompare : Text → Text → ℤ) (left right : ZipPreviewEntry) : Bool :=
  if left.isDirectory ≠ right.isDirectory then left.isDirectory
  else localeCompare left.path right.path ≤ 0

def summarize (entries : List ZipPreviewEntry) : ZipPreviewSummary :=
  let files := entries.filter (fun entry => !entry.isDirectory)
  { fileCount := files.length
    directoryCount := (inferDirectoryNames entries).length
    totalEntries := entries.length
    compressedBytes := (files.map ZipPreviewEntry.compressedSize).sum
    uncompressedBytes := (files.map ZipPreviewEntry.uncompressedSize).sum }

def previewData (localeCompare : Text → Text → ℤ) (entries : List ZipPreviewEntry) :
    ZipPreviewData :=
  let sorted := entries.mergeSort (entryBefore localeCompare)
  ⟨sorted, summarize sorted⟩

def storedCount (bytes : Bytes) (eocdOffset : ℕ) : ℕ := readUint16 bytes (eocdOffset + 10)
def directorySize (bytes : Bytes) (eocdOffset : ℕ) : ℕ := readUint32 bytes (eocdOffset + 12)
def directoryOffset (bytes : Bytes) (eocdOffset : ℕ) : ℕ := readUint32 bytes (eocdOffset + 16)

def parseZipPreview (localeCompare : Text → Text → ℤ) (bytes : Bytes) :
    Except String ZipPreviewData :=
  if bytes.length < 22 then .error "ZIP archive is too small to contain a valid directory."
  else
    match findEndOfCentralDirectory bytes with
    | none => .error "ZIP archive directory could not be found."
    | some eocdOffset =>
      if detectZip64 bytes eocdOffset then .error "ZIP64 archives are not previewable yet."
      else
        let centralDirectorySize := directorySize bytes eocdOffset
        let centralDirectoryOffset := directoryOffset bytes eocdOffset
        if bytes.length < centralDirectoryOffset + centralDirectorySize then
          .error "ZIP archive directory is truncated."
        else
          (readRecords bytes (centralDirectoryOffset + centralDirectorySize)
            centralDirectoryOffset []).map (previewData localeCompare)

end Preview

section Workspace

/-- The variables of the loop of `parseZipEntries`. -/
structure ZipCursor where
  offset : ℕ
  entries : List ArchiveEntrySummary
  totalEntries : ℕ
deriving DecidableEq

def zipSummary (buffer : Bytes) (offset : ℕ) : ArchiveEntrySummary :=
  let name := decode ((buffer.drop (offset + 46)).take (readUint16 buffer (offset + 28)))
  { name := name
    compressedSize := some (readUint32 buffer (offset + 20))
    uncompressedSize := readUint32 buffer (offset + 24)
    isDirectory :=
      name.getLast? = some '/' || readUint32 buffer (offset + 38) / 65536 / 4096 % 16 = 4 }

/-- One round of the loop; where the result is missing the loop has ended. -/
def zipStep (buffer : Bytes) (maxEntries entryCount : ℕ) (s : ZipCursor) : Option ZipCursor :=
  if s.offset + 46 ≤ buffer.length ∧ s.totalEntries < entryCount then
    let nameEnd := s.offset + 46 + readUint16 buffer (s.offset + 28)
    if readUint32 buffer s.offset ≠ centralDirectorySignature then none
    else if buffer.length < nameEnd then none
    else some
      { offset := nameEnd + readUint16 buffer (s.offset + 30) + readUint16 buffer (s.offset + 32)
        entries :=
          if s.entries.length < maxEntries then s.entries ++ [zipSummary buffer s.offset]
          else s.entries
        totalEntries := s.totalEntries + 1 }
  else none

/-- The rounds that are left are at most as many as entries that are not yet counted. -/
def runZip (buffer : Bytes) (maxEntries entryCount : ℕ) : ℕ → ZipCursor → ZipCursor
  | 0, s => s
  | rounds + 1, s =>
    match zipStep buffer maxEntries entryCount s with
    | none => s
    | some s' => runZip buffer maxEntries entryCount rounds s'

/-- `parseZipEntries` from the end record on. -/
def listDirectory (buffer : Bytes) (maxEntries eocdOffset : ℕ) : ArchiveListing :=
  let entryCount := storedCount buffer eocdOffset
  let s := runZip buffer maxEntries entryCount entryCount
    ⟨directoryOffset buffer eocdOffset, [], 0⟩
  ⟨s.entries, s.totalEntries, decide (s.entries.length < s.totalEntries)⟩

def parseZipEntries (buffer : Bytes) (maxEntries : ℕ) : Except String ArchiveListing :=
  match findEndOfCentralDirectory buffer with
  | none => .error "ZIP end-of-central-directory record not found"
  | some eocdOffset => .ok (listDirectory buffer maxEntries eocdOffset)

end Workspace

end Piclaw.Archives
