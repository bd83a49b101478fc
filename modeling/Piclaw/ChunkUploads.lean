import Piclaw.BranchHandles

/-!
# Chunked uploads

`uploadChunk` of the workspace file service over a disk. A call is one sequence of file
operations, any of which can fail or be the last before a crash. An upload keeps its progress in
two files, the state and the part.
-/

namespace Piclaw
open TextRuns

inductive DiskEntry
  | file (content : List UInt8)
  | directory
  deriving DecidableEq

structure WorkspaceUploadState where
  uploadId : String
  targetDir : String
  filename : String
  fileSize : ℤ
  chunkTotal : ℤ
  nextChunkIndex : ℤ
  overwrite : Bool
  bytesWritten : ℤ
  deriving DecidableEq

/-- The directory of an upload. `state` is `none` where the file is missing or cannot be parsed.
`accepted` is a history: index and data of the chunks that the state has counted. -/
structure UploadDir where
  state : Option WorkspaceUploadState
  part : Option (List UInt8)
  accepted : List (ℤ × List UInt8)
  deriving DecidableEq

/-- `completed` is a history: the chunks of each upload that was answered as complete. -/
structure UploadDisk where
  uploads : String → UploadDir
  entries : String → Option DiskEntry
  completed : List (List (ℤ × List UInt8))

/-- What is done of an operation that fails or during which the process ends. -/
inductive Extent
  | nothing
  | partly (amount : ℕ)
  | fully
  deriving DecidableEq

/-- The operation throws, or the process ends in it. -/
structure UploadFault where
  crashes : Bool
  extent : Extent
  deriving DecidableEq

/-- The faults of one call, one field for each operation. `stale` are the directories that
`cleanupStaleChunkUploads` finds out of date with what is done of their removal. -/
structure ChunkFaults where
  stale : List (String × Extent)
  cleanupCrashes : Bool
  statTarget : Option UploadFault
  readState : Option UploadFault
  existsAtStart : Option UploadFault
  statAtStart : Option UploadFault
  makeDir : Option UploadFault
  writeInitial : Option UploadFault
  makeDirAgain : Option UploadFault
  append : Option UploadFault
  rewrite : Option UploadFault
  existsAtEnd : Option UploadFault
  statAtEnd : Option UploadFault
  unlink : Option UploadFault
  rename : Option UploadFault
  remove : Option UploadFault
  statResult : Option UploadFault
  deriving DecidableEq

def ChunkFaults.none : ChunkFaults :=
  ⟨[], false, .none, .none, .none, .none, .none, .none, .none, .none, .none, .none, .none, .none,
    .none, .none, .none⟩

structure WorkspaceChunkUploadParams where
  pathParam : Option String
  uploadId : String
  chunkIndex : ℤ
  chunkTotal : ℤ
  fileName : String
  fileSize : ℤ
  overwrite : Bool
  data : List UInt8
  deriving DecidableEq

/-- `failed` is an error with its status; `thrown` leaves the call as an exception. -/
inductive ChunkAnswer
  | failed (status : ℕ) (error : String) (expectedChunkIndex : Option ℤ)
  | thrown
  | progress (chunkIndex chunkTotal receivedBytes : ℤ)
  | complete (path : String) (size : ℕ) (overwritten : Bool)
  deriving DecidableEq

/-- The path functions of the workspace, and its size limit. -/
structure UploadPaths where
  resolveWorkspacePath : Option String → Option String
  isEscapedExistingWorkspacePath : String → Bool
  isRealWorkspacePath : String → Bool
  maxUploadBytes : ℕ

def uploadIdCharacter (c : Char) : Bool :=
  c.isAlphanum || decide (c = '.') || decide (c = '_') || decide (c = '-')

def sanitizeUploadId (raw : String) : Option String :=
  let value := trim raw
  if value = "" ∨ 160 < value.length then none
  else if value = "." ∨ value = ".." then none
  else if value.toList.all uploadIdCharacter then some value else none

def normalizeEntryName (raw : String) : Option String :=
  let name := trim raw
  if name = "" ∨ name = "." ∨ name = ".." then none
  else if '/' ∈ name.toList ∨ '\\' ∈ name.toList then none
  else some name

/-- `path.join` for a resolved directory and an entry name. -/
def joinPath (dir name : String) : String :=
  if dir.toList.getLast? = some '/' then dir ++ name else dir ++ "/" ++ name

namespace UploadDisk

def initial (entries : String → Option DiskEntry) : UploadDisk where
  uploads _ := ⟨none, none, []⟩
  entries := entries
  completed := []

def setUpload (disk : UploadDisk) (uploadId : String) (dir : UploadDir) : UploadDisk :=
  { disk with uploads := Function.update disk.uploads uploadId dir }

/-- `rmSync` of the directory of an upload. Cut short, it has removed the state, the part or
both. -/
def removeDir (disk : UploadDisk) (uploadId : String) : Extent → UploadDisk
  | .nothing => disk
  | .partly 0 => disk.setUpload uploadId { disk.uploads uploadId with state := none }
  | .partly 1 => disk.setUpload uploadId { disk.uploads uploadId with part := none }
  | _ => disk.setUpload uploadId ⟨none, none, []⟩

/-- `writeFileSync` of the state truncates the file first. -/
def writeState (disk : UploadDisk) (uploadId : String) (state : WorkspaceUploadState)
    (accepted : List (ℤ × List UInt8)) : Extent → UploadDisk
  | .nothing => disk
  | .partly _ => disk.setUpload uploadId { disk.uploads uploadId with state := none }
  | .fully => disk.setUpload uploadId
      { disk.uploads uploadId with state := some state, accepted := accepted }

def appendPart (disk : UploadDisk) (uploadId : String) (data : List UInt8) : Extent → UploadDisk
  | .nothing => disk
  | .partly amount => disk.setUpload uploadId { disk.uploads uploadId with
      part := some (((disk.uploads uploadId).part.getD []) ++ data.take amount) }
  | .fully => disk.setUpload uploadId { disk.uploads uploadId with
      part := some (((disk.uploads uploadId).part.getD []) ++ data) }

def unlink (disk : UploadDisk) (path : String) : Extent → UploadDisk
  | .fully => { disk with entries := Function.update disk.entries path none }
  | _ => disk

def renamePart (disk : UploadDisk) (uploadId path : String) : Extent → UploadDisk
  | .fully => { disk.setUpload uploadId { disk.uploads uploadId with part := none } with
      entries := Function.update disk.entries path
        (some (.file ((disk.uploads uploadId).part.getD []))) }
  | _ => disk

def cleanupStaleChunkUploads (disk : UploadDisk) (stale : List (String × Extent)) : UploadDisk :=
  stale.foldl (fun disk removal => disk.removeDir removal.1 removal.2) disk

end UploadDisk

/-- The disk and how the call ended; `none` is a crash. -/
abbrev ChunkOutcome := UploadDisk × Option ChunkAnswer

/-- How a call ends that a fault stops. -/
def UploadFault.ending (fault : UploadFault) (answer : ChunkAnswer) : Option ChunkAnswer :=
  if fault.crashes then none else some answer

def processingFailed : ChunkAnswer := .failed 500 "Failed to process upload chunk" none

/-- What was checked before the upload is opened. -/
structure ChunkRequest where
  uploadId : String
  targetDir : String
  filename : String
  chunkIndex : ℤ
  chunkTotal : ℤ
  fileSize : ℤ
  overwrite : Bool
  data : List UInt8
  deriving DecidableEq

namespace ChunkRequest

def destPath (request : ChunkRequest) : String := joinPath request.targetDir request.filename

def initialState (request : ChunkRequest) : WorkspaceUploadState where
  uploadId := request.uploadId
  targetDir := request.targetDir
  filename := request.filename
  fileSize := request.fileSize
  chunkTotal := request.chunkTotal
  nextChunkIndex := 0
  overwrite := request.overwrite
  bytesWritten := 0

end ChunkRequest

section Upload
variable (paths : UploadPaths)

/-- The checks on the parameters, or the error. -/
def checkChunkParams (disk : UploadDisk) (params : WorkspaceChunkUploadParams)
    (faults : ChunkFaults) : Except (Option ChunkAnswer) ChunkRequest :=
  let failed (status : ℕ) (error : String) : Except (Option ChunkAnswer) ChunkRequest :=
    .error (some (.failed status error none))
  match sanitizeUploadId params.uploadId with
  | none => failed 400 "Invalid upload ID"
  | some uploadId =>
    match paths.resolveWorkspacePath params.pathParam with
    | none => failed 400 "Invalid path"
    | some targetDir =>
      if paths.isEscapedExistingWorkspacePath targetDir then failed 400 "Invalid path"
      else match faults.statTarget with
        | some fault => .error (fault.ending (.failed 404 "Directory not found" none))
        | none =>
          match disk.entries targetDir with
          | none => failed 404 "Directory not found"
          | some (.file _) => failed 400 "Path is not a directory"
          | some .directory =>
            match normalizeEntryName params.fileName with
            | none => failed 400 "Invalid filename"
            | some filename =>
              if params.chunkIndex < 0 then failed 400 "Invalid chunk index"
              else if params.chunkTotal ≤ 0 then failed 400 "Invalid chunk total"
              else if params.chunkTotal ≤ params.chunkIndex then
                failed 400 "Chunk index exceeds chunk total"
              else if params.fileSize < 0 then failed 400 "Invalid file size"
              else if (paths.maxUploadBytes : ℤ) < params.fileSize then
                failed 400 "File too large to upload"
              else .ok ⟨uploadId, targetDir, filename, params.chunkIndex, params.chunkTotal,
                params.fileSize, params.overwrite, params.data⟩

/-- `existsSync` gives `false` where it fails. -/
def existsOn (disk : UploadDisk) (path : String) (fault : Option UploadFault) : Bool :=
  fault.isNone && (disk.entries path).isSome

/-- The checks on the destination before an upload begins. -/
def checkDestination (disk : UploadDisk) (request : ChunkRequest) (faults : ChunkFaults) :
    Option (Option ChunkAnswer) :=
  if faults.existsAtStart.any UploadFault.crashes then some none
  else if existsOn disk request.destPath faults.existsAtStart then
    if !paths.isRealWorkspacePath request.destPath then
      some (some (.failed 400 "Invalid path" none))
    else if !request.overwrite then some (some (.failed 409 "File already exists" none))
    else match faults.statAtStart with
      | some fault => some (fault.ending .thrown)
      | none =>
        if disk.entries request.destPath = some .directory then
          some (some (.failed 400 "Path is a directory" none))
        else none
  else none

/-- The state of the upload, which chunk 0 begins. -/
def openUpload (disk : UploadDisk) (request : ChunkRequest) (faults : ChunkFaults) :
    UploadDisk × Except (Option ChunkAnswer) WorkspaceUploadState :=
  if faults.readState.any UploadFault.crashes then (disk, .error none)
  else match (if faults.readState.isSome then none else (disk.uploads request.uploadId).state) with
    | some state => (disk, .ok state)
    | none =>
      if request.chunkIndex ≠ 0 then
        (disk, .error (some (.failed 409 "Upload state not initialized" (some 0))))
      else match checkDestination paths disk request faults with
        | some ending => (disk, .error ending)
        | none =>
          match faults.makeDir with
          | some fault => (disk, .error (fault.ending .thrown))
          | none =>
            match faults.writeInitial with
            | some fault => (disk.writeState request.uploadId request.initialState [] fault.extent,
                .error (fault.ending .thrown))
            | none => (disk.writeState request.uploadId request.initialState [] .fully,
                .ok request.initialState)

/-- The checks of a chunk against the state. -/
def checkChunk (state : WorkspaceUploadState) (request : ChunkRequest) : Option ChunkAnswer :=
  if state.targetDir ≠ request.targetDir ∨ state.filename ≠ request.filename ∨
      state.fileSize ≠ request.fileSize ∨ state.chunkTotal ≠ request.chunkTotal ∨
      state.overwrite ≠ request.overwrite then
    some (.failed 409 "Upload metadata mismatch" none)
  else if request.chunkIndex ≠ state.nextChunkIndex then
    some (.failed 409 "Unexpected chunk index" (some state.nextChunkIndex))
  else if request.fileSize < state.bytesWritten + request.data.length then
    some (.failed 400 "Chunk exceeds declared file size" none)
  else none

def WorkspaceUploadState.count (state : WorkspaceUploadState) (data : List UInt8) :
    WorkspaceUploadState :=
  { state with
    nextChunkIndex := state.nextChunkIndex + 1
    bytesWritten := state.bytesWritten + data.length }

/-- A removal of the upload and then an error. -/
def refuseUpload (disk : UploadDisk) (request : ChunkRequest) (faults : ChunkFaults)
    (answer : ChunkAnswer) : ChunkOutcome :=
  match faults.remove with
  | some fault => (disk.removeDir request.uploadId fault.extent, fault.ending processingFailed)
  | none => (disk.removeDir request.uploadId .fully, some answer)

/-- The part becomes the destination, which `renameSync` does not put over a directory. -/
def publishUpload (disk : UploadDisk) (request : ChunkRequest) (faults : ChunkFaults)
    (chunks : List (ℤ × List UInt8)) (existed : Bool) : ChunkOutcome :=
  if disk.entries request.destPath = some .directory then (disk, some processingFailed)
  else match faults.rename with
  | some fault => (disk.renamePart request.uploadId request.destPath fault.extent,
      fault.ending processingFailed)
  | none =>
    let renamed := disk.renamePart request.uploadId request.destPath .fully
    match faults.remove with
    | some fault => (renamed.removeDir request.uploadId fault.extent, fault.ending processingFailed)
    | none =>
      let removed := renamed.removeDir request.uploadId .fully
      match faults.statResult with
      | some fault => (removed, fault.ending processingFailed)
      | none => ({ removed with completed := removed.completed ++ [chunks] },
          some (.complete request.destPath ((disk.uploads request.uploadId).part.getD []).length
            existed))

def finishUpload (disk : UploadDisk) (request : ChunkRequest) (state : WorkspaceUploadState)
    (faults : ChunkFaults) (chunks : List (ℤ × List UInt8)) : ChunkOutcome :=
  if state.bytesWritten ≠ request.fileSize then
    refuseUpload disk request faults
      (.failed 400 "Uploaded bytes did not match declared file size" none)
  else if faults.existsAtEnd.any UploadFault.crashes then (disk, none)
  else
    let existed := existsOn disk request.destPath faults.existsAtEnd
    if existed && !paths.isRealWorkspacePath request.destPath then
      refuseUpload disk request faults (.failed 400 "Invalid path" none)
    else if existed && !request.overwrite then
      refuseUpload disk request faults (.failed 409 "File already exists" none)
    else if existed then
      match faults.statAtEnd with
      | some fault => (disk, fault.ending processingFailed)
      | none =>
        if disk.entries request.destPath = some .directory then
          refuseUpload disk request faults (.failed 400 "Path is a directory" none)
        else match faults.unlink with
          | some fault =>
            (disk.unlink request.destPath fault.extent, fault.ending processingFailed)
          | none => publishUpload (disk.unlink request.destPath .fully) request faults chunks true
    else publishUpload disk request faults chunks false

/-- The `try` block. -/
def appendChunk (disk : UploadDisk) (request : ChunkRequest) (state : WorkspaceUploadState)
    (faults : ChunkFaults) : ChunkOutcome :=
  match faults.makeDirAgain with
  | some fault => (disk, fault.ending processingFailed)
  | none =>
    match faults.append with
    | some fault => (disk.appendPart request.uploadId request.data fault.extent,
        fault.ending processingFailed)
    | none =>
      let appended := disk.appendPart request.uploadId request.data .fully
      let chunks := (disk.uploads request.uploadId).accepted ++ [(request.chunkIndex, request.data)]
      let counted := state.count request.data
      if counted.nextChunkIndex < counted.chunkTotal then
        match faults.rewrite with
        | some fault => (appended.writeState request.uploadId counted chunks fault.extent,
            fault.ending processingFailed)
        | none => (appended.writeState request.uploadId counted chunks .fully,
            some (.progress request.chunkIndex request.chunkTotal counted.bytesWritten))
      else finishUpload paths appended request counted faults chunks

def uploadChunk (disk : UploadDisk) (params : WorkspaceChunkUploadParams) (faults : ChunkFaults) :
    ChunkOutcome :=
  let cleaned := disk.cleanupStaleChunkUploads faults.stale
  if faults.cleanupCrashes then (cleaned, none)
  else match checkChunkParams paths cleaned params faults with
    | .error ending => (cleaned, ending)
    | .ok request =>
      match openUpload paths cleaned request faults with
      | (opened, .error ending) => (opened, ending)
      | (opened, .ok state) =>
        match checkChunk state request with
        | some answer => (opened, some answer)
        | none => appendChunk paths opened request state faults

end Upload
end Piclaw
