import Piclaw.ChunkUploads

/-!
# Runs of chunked uploads

While no fault strikes between the append of a chunk and the state that counts it, and no removal
is cut short, the part of every upload holds just the chunks that its state has counted.
-/

namespace Piclaw

def Extent.notCut : Extent → Bool
  | .partly _ => false
  | _ => true

section Safety
variable (paths : UploadPaths) (disk : UploadDisk) (request : ChunkRequest) (faults : ChunkFaults)

/-- A removal that a fault stops has removed all. -/
def SafeRemoval : Prop := ∀ fault ∈ faults.remove, fault.extent = .fully

instance : Decidable (SafeRemoval faults) :=
  inferInstanceAs (Decidable (∀ fault ∈ faults.remove, _ = _))

/-- Nothing strikes from the rename to the answer, and the destination is no directory. -/
def SafePublication : Prop :=
  faults.rename = none ∧ faults.remove = none ∧ faults.statResult = none ∧
    disk.entries request.destPath ≠ some .directory

instance : Decidable (SafePublication disk request faults) :=
  inferInstanceAs (Decidable (_ ∧ _ ∧ _ ∧ _))

def SafeFinish (state : WorkspaceUploadState) : Prop :=
  if state.bytesWritten ≠ request.fileSize then SafeRemoval faults
  else ¬ faults.existsAtEnd.any UploadFault.crashes ∧
    if existsOn disk request.destPath faults.existsAtEnd &&
        !paths.isRealWorkspacePath request.destPath then SafeRemoval faults
    else if existsOn disk request.destPath faults.existsAtEnd && !request.overwrite then
      SafeRemoval faults
    else if existsOn disk request.destPath faults.existsAtEnd then
      faults.statAtEnd = none ∧
        if disk.entries request.destPath = some .directory then SafeRemoval faults
        else faults.unlink = none ∧ SafePublication disk request faults
    else SafePublication disk request faults

instance (state : WorkspaceUploadState) :
    Decidable (SafeFinish paths disk request faults state) := by
  unfold SafeFinish
  infer_instance

/-- From the append of a chunk to the state that counts it, or the end of the upload, nothing
strikes: an append that a fault stops has written nothing, and a state all. -/
def SafeAppend (state : WorkspaceUploadState) : Prop :=
  faults.makeDirAgain.isSome = true ∨
    if faults.append.isSome then ∀ fault ∈ faults.append, fault.extent = .nothing
    else if (state.count request.data).nextChunkIndex < state.chunkTotal then
      ∀ fault ∈ faults.rewrite, fault.extent = .fully
    else SafeFinish paths disk request faults (state.count request.data)

instance (state : WorkspaceUploadState) :
    Decidable (SafeAppend paths disk request faults state) := by
  unfold SafeAppend
  infer_instance

/-- The state of an upload with a part is read before its chunk 0 begins it again. -/
def SafeOpening : Prop :=
  faults.readState.isSome = true → request.chunkIndex = 0 →
    (disk.uploads request.uploadId).part.getD [] = []

instance : Decidable (SafeOpening disk request faults) :=
  inferInstanceAs (Decidable (_ = _ → _ = _ → _ = _))

end Safety

/-- The calls whose faults leave uploads whole. -/
def SafeCall (paths : UploadPaths) (disk : UploadDisk) (params : WorkspaceChunkUploadParams)
    (faults : ChunkFaults) : Prop :=
  (∀ removal ∈ faults.stale, removal.2.notCut = true) ∧
    match checkChunkParams paths (disk.cleanupStaleChunkUploads faults.stale) params faults with
    | .error _ => True
    | .ok request =>
      SafeOpening (disk.cleanupStaleChunkUploads faults.stale) request faults ∧
        match (openUpload paths (disk.cleanupStaleChunkUploads faults.stale) request faults).2 with
        | .error _ => True
        | .ok state => checkChunk state request = none →
          SafeAppend paths disk request faults state

instance (paths : UploadPaths) (disk : UploadDisk) (params : WorkspaceChunkUploadParams)
    (faults : ChunkFaults) : Decidable (SafeCall paths disk params faults) := by
  unfold SafeCall
  refine @instDecidableAnd _ _ inferInstance ?_
  split
  · exact inferInstance
  · refine @instDecidableAnd _ _ inferInstance ?_
    split <;> exact inferInstance

def runUploads (paths : UploadPaths) (disk : UploadDisk)
    (calls : List (WorkspaceChunkUploadParams × ChunkFaults)) : UploadDisk :=
  calls.foldl (fun disk call => (uploadChunk paths disk call.1 call.2).1) disk

def AllSafe (paths : UploadPaths) (disk : UploadDisk) :
    List (WorkspaceChunkUploadParams × ChunkFaults) → Prop
  | [] => True
  | call :: calls => SafeCall paths disk call.1 call.2 ∧
    AllSafe paths (uploadChunk paths disk call.1 call.2).1 calls

def decideAllSafe (paths : UploadPaths) (disk : UploadDisk) :
    ∀ calls, Decidable (AllSafe paths disk calls)
  | [] => inferInstanceAs (Decidable True)
  | call :: calls =>
    have := decideAllSafe paths (uploadChunk paths disk call.1 call.2).1 calls
    inferInstanceAs (Decidable (SafeCall paths disk call.1 call.2 ∧ _))

instance (paths : UploadPaths) (disk : UploadDisk)
    (calls : List (WorkspaceChunkUploadParams × ChunkFaults)) :
    Decidable (AllSafe paths disk calls) := decideAllSafe paths disk calls

/-- The part holds the counted chunks, in their order, and nothing else. -/
def UploadDir.Whole (dir : UploadDir) : Prop :=
  match dir.state with
  | none => dir.part.getD [] = []
  | some state => dir.part.getD [] = (dir.accepted.map Prod.snd).flatten ∧
      dir.accepted.map Prod.fst = (List.range dir.accepted.length).map Int.ofNat ∧
      state.nextChunkIndex = dir.accepted.length ∧
      state.bytesWritten = (dir.accepted.map Prod.snd).flatten.length

namespace UploadDisk
variable {disk disk' : UploadDisk}

def AllWhole (disk : UploadDisk) : Prop := ∀ uploadId, (disk.uploads uploadId).Whole

theorem allWhole_initial (entries : String → Option DiskEntry) : (initial entries).AllWhole :=
  fun _ => rfl

@[simp] theorem entries_setUpload (uploadId : String) (dir : UploadDir) :
    (disk.setUpload uploadId dir).entries = disk.entries := rfl

theorem uploads_setUpload (uploadId other : String) (dir : UploadDir) :
    (disk.setUpload uploadId dir).uploads other =
      Function.update disk.uploads uploadId dir other := rfl

@[simp] theorem setUpload_self (uploadId : String) (dir : UploadDir) :
    (disk.setUpload uploadId dir).uploads uploadId = dir := by
  simp [setUpload]

theorem AllWhole.setUpload (hwhole : disk.AllWhole) {uploadId : String} {dir : UploadDir}
    (hdir : dir.Whole) : (disk.setUpload uploadId dir).AllWhole := by
  intro other
  rw [UploadDisk.uploads_setUpload]
  by_cases heq : other = uploadId
  · rw [heq, Function.update_self]
    exact hdir
  · rw [Function.update_of_ne heq]
    exact hwhole other

theorem entries_removeDir (uploadId : String) (extent : Extent) :
    (disk.removeDir uploadId extent).entries = disk.entries := by
  rw [removeDir.eq_def]
  split <;> rfl

theorem AllWhole.removeDir (hwhole : disk.AllWhole) {uploadId : String} {extent : Extent}
    (hcut : extent.notCut = true) : (disk.removeDir uploadId extent).AllWhole := by
  cases extent with
  | nothing => exact hwhole
  | partly amount => simp [Extent.notCut] at hcut
  | fully => exact hwhole.setUpload rfl

theorem entries_writeState (uploadId : String) (state : WorkspaceUploadState)
    (accepted : List (ℤ × List UInt8)) (extent : Extent) :
    (disk.writeState uploadId state accepted extent).entries = disk.entries := by
  cases extent <;> rfl

theorem cleanup_whole {stale : List (String × Extent)} (hwhole : disk.AllWhole)
    (hcut : ∀ removal ∈ stale, removal.2.notCut = true) :
    (disk.cleanupStaleChunkUploads stale).AllWhole ∧
      (disk.cleanupStaleChunkUploads stale).entries = disk.entries := by
  rw [cleanupStaleChunkUploads]
  induction stale generalizing disk with
  | nil => exact ⟨hwhole, rfl⟩
  | cons removal rest ih =>
    obtain ⟨hrest, hentries⟩ := ih (hwhole.removeDir (hcut removal (by simp)))
      (fun other hother => hcut other (List.mem_cons_of_mem _ hother))
    exact ⟨hrest, hentries.trans (entries_removeDir _ _)⟩

end UploadDisk

section Steps
variable {paths : UploadPaths} {disk : UploadDisk} {request : ChunkRequest} {faults : ChunkFaults}

/-- A new state over an empty part, however far its file is written. -/
theorem writeInitial_whole (hwhole : disk.AllWhole)
    (hempty : (disk.uploads request.uploadId).part.getD [] = []) (extent : Extent) :
    (disk.writeState request.uploadId request.initialState [] extent).AllWhole := by
  cases extent with
  | nothing => exact hwhole
  | partly amount => exact hwhole.setUpload hempty
  | fully => exact hwhole.setUpload ⟨hempty, rfl, rfl, rfl⟩

theorem openUpload_whole (hwhole : disk.AllWhole) (hsafe : SafeOpening disk request faults) :
    (openUpload paths disk request faults).1.AllWhole ∧
      (openUpload paths disk request faults).1.entries = disk.entries ∧
      ∀ state, (openUpload paths disk request faults).2 = .ok state →
        ((openUpload paths disk request faults).1.uploads request.uploadId).state = some state := by
  rw [openUpload]
  by_cases hcrash : faults.readState.any UploadFault.crashes = true
  · rw [if_pos hcrash]
    exact ⟨hwhole, rfl, fun state h => by cases h⟩
  rw [if_neg hcrash]
  cases hread : (if faults.readState.isSome then none
      else (disk.uploads request.uploadId).state) with
  | some state =>
    refine ⟨hwhole, rfl, fun found hfound => ?_⟩
    obtain rfl : state = found := by simpa using hfound
    split_ifs at hread
    exact hread
  | none =>
    simp only
    by_cases hindex : request.chunkIndex ≠ 0
    · rw [if_pos hindex]
      exact ⟨hwhole, rfl, fun state h => by cases h⟩
    rw [if_neg hindex]
    have hempty : (disk.uploads request.uploadId).part.getD [] = [] := by
      by_cases hfault : faults.readState.isSome = true
      · exact hsafe hfault (not_not.1 hindex)
      · rw [if_neg hfault] at hread
        have hdir := hwhole request.uploadId
        rwa [UploadDir.Whole, hread] at hdir
    cases checkDestination paths disk request faults with
    | some ending => exact ⟨hwhole, rfl, fun state h => by cases h⟩
    | none =>
      cases faults.makeDir with
      | some fault => exact ⟨hwhole, rfl, fun state h => by cases h⟩
      | none =>
        cases faults.writeInitial with
        | some fault =>
          exact ⟨writeInitial_whole hwhole hempty fault.extent,
            UploadDisk.entries_writeState _ _ _ _,
            fun state h => by cases h⟩
        | none =>
          refine ⟨writeInitial_whole hwhole hempty .fully, UploadDisk.entries_writeState _ _ _ _,
            fun state h => ?_⟩
          obtain rfl : request.initialState = state := by simpa using h
          simp [UploadDisk.writeState]

/-- What a call leaves: whole uploads, a destination that only a complete upload changes, and
then with its chunks. -/
structure Exact (disk : UploadDisk) (request : ChunkRequest) (outcome : ChunkOutcome) : Prop where
  whole : outcome.1.AllWhole
  complete : ∀ path size overwritten, outcome.2 = some (.complete path size overwritten) →
    ∃ chunks : List (ℤ × List UInt8), outcome.1.completed = disk.completed ++ [chunks] ∧
      outcome.1.entries path = some (.file (chunks.map Prod.snd).flatten) ∧
      chunks.map Prod.fst = (List.range chunks.length).map Int.ofNat ∧
      (chunks.length : ℤ) = request.chunkTotal ∧
      ((chunks.map Prod.snd).flatten.length : ℤ) = request.fileSize ∧
      size = (chunks.map Prod.snd).flatten.length
  others : ∀ path, (∀ size overwritten,
      outcome.2 ≠ some (.complete path size overwritten)) →
    outcome.1.entries path = disk.entries path

/-- A call that is not answered as complete and leaves the destinations. -/
theorem exact_of_same {outcome : ChunkOutcome} (hwhole : outcome.1.AllWhole)
    (hentries : outcome.1.entries = disk.entries)
    (hanswer : ∀ path size overwritten, outcome.2 ≠ some (.complete path size overwritten)) :
    Exact disk request outcome where
  whole := hwhole
  complete path size overwritten heq := absurd heq (hanswer path size overwritten)
  others path _ := by rw [hentries]

theorem ending_ne_complete {fault : UploadFault} {answer : ChunkAnswer} {path : String}
    {size : ℕ} {overwritten : Bool} (hanswer : answer ≠ .complete path size overwritten) :
    fault.ending answer ≠ some (.complete path size overwritten) := by
  rw [UploadFault.ending]
  split_ifs
  · simp
  · simpa using hanswer

/-- The uploads but one are whole. -/
def OthersWhole (disk : UploadDisk) (uploadId : String) : Prop :=
  ∀ other, other ≠ uploadId → (disk.uploads other).Whole

theorem OthersWhole.setUpload {uploadId : String} {dir : UploadDir}
    (hothers : OthersWhole disk uploadId) (hdir : dir.Whole) :
    (disk.setUpload uploadId dir).AllWhole := by
  intro other
  rw [UploadDisk.uploads_setUpload]
  by_cases heq : other = uploadId
  · rw [heq, Function.update_self]
    exact hdir
  · rw [Function.update_of_ne heq]
    exact hothers other heq

theorem OthersWhole.of_setUpload {uploadId : String} {dir : UploadDir}
    (hothers : OthersWhole disk uploadId) : OthersWhole (disk.setUpload uploadId dir) uploadId := by
  intro other hne
  rw [UploadDisk.uploads_setUpload, Function.update_of_ne hne]
  exact hothers other hne

theorem refuseUpload_exact {base : UploadDisk} {answer : ChunkAnswer}
    (hentries : disk.entries = base.entries) (hothers : OthersWhole disk request.uploadId)
    (hsafe : SafeRemoval faults)
    (hanswer : ∀ path size overwritten, answer ≠ .complete path size overwritten) :
    Exact base request (refuseUpload disk request faults answer) := by
  have hremoved : (disk.removeDir request.uploadId .fully).AllWhole := hothers.setUpload rfl
  rw [refuseUpload]
  cases hremove : faults.remove with
  | none =>
    exact exact_of_same hremoved hentries fun path size overwritten => by
      simpa using hanswer path size overwritten
  | some fault =>
    simp only [hsafe fault hremove]
    exact exact_of_same hremoved hentries fun path size overwritten =>
      ending_ne_complete (by simp [processingFailed])

theorem publishUpload_exact {base : UploadDisk} {chunks : List (ℤ × List UInt8)} {existed : Bool}
    (hentries : ∀ path, path ≠ request.destPath → disk.entries path = base.entries path)
    (hcompleted : disk.completed = base.completed)
    (hothers : OthersWhole disk request.uploadId)
    (hpart : (disk.uploads request.uploadId).part.getD [] = (chunks.map Prod.snd).flatten)
    (hindices : chunks.map Prod.fst = (List.range chunks.length).map Int.ofNat)
    (hcount : (chunks.length : ℤ) = request.chunkTotal)
    (hbytes : ((chunks.map Prod.snd).flatten.length : ℤ) = request.fileSize)
    (hplace : disk.entries request.destPath ≠ some .directory)
    (hsafe : SafePublication base request faults) :
    Exact base request (publishUpload disk request faults chunks existed) := by
  obtain ⟨hrename, hremove, hstat, -⟩ := hsafe
  rw [publishUpload, if_neg hplace]
  simp only [hrename, hremove, hstat]
  refine ⟨?_, ?_, ?_⟩
  · have hrenamed : OthersWhole
        (disk.renamePart request.uploadId request.destPath .fully) request.uploadId :=
      fun other hne => hothers.of_setUpload other hne
    exact hrenamed.setUpload rfl
  · intro path size overwritten heq
    simp only [Option.some.injEq, ChunkAnswer.complete.injEq] at heq
    obtain ⟨rfl, rfl, -⟩ := heq
    refine ⟨chunks, ?_, ?_, hindices, hcount, hbytes, by rw [hpart]⟩
    · rw [← hcompleted]
      rfl
    · rw [UploadDisk.entries_removeDir, UploadDisk.renamePart]
      simp [hpart]
  · intro path hpath
    have hne : path ≠ request.destPath := fun heq => hpath _ _ (by rw [heq])
    rw [UploadDisk.entries_removeDir, UploadDisk.renamePart]
    simp only
    rw [Function.update_of_ne hne]
    exact hentries path hne

theorem finishUpload_exact {base : UploadDisk} {chunks : List (ℤ × List UInt8)}
    {state : WorkspaceUploadState} (hentries : disk.entries = base.entries)
    (hcompleted : disk.completed = base.completed)
    (hothers : OthersWhole disk request.uploadId)
    (hpart : (disk.uploads request.uploadId).part.getD [] = (chunks.map Prod.snd).flatten)
    (hindices : chunks.map Prod.fst = (List.range chunks.length).map Int.ofNat)
    (hcount : (chunks.length : ℤ) = request.chunkTotal)
    (hbytes : state.bytesWritten = ((chunks.map Prod.snd).flatten.length : ℤ))
    (hsafe : SafeFinish paths base request faults state) :
    Exact base request (finishUpload paths disk request state faults chunks) := by
  have hexists : existsOn disk request.destPath faults.existsAtEnd =
      existsOn base request.destPath faults.existsAtEnd := by
    rw [existsOn, existsOn, hentries]
  rw [finishUpload]
  rw [SafeFinish] at hsafe
  by_cases hsize : state.bytesWritten ≠ request.fileSize
  · rw [if_pos hsize] at hsafe ⊢
    exact refuseUpload_exact hentries hothers hsafe (by simp)
  rw [if_neg hsize] at hsafe ⊢
  rw [not_not] at hsize
  obtain ⟨hcrash, hsafe⟩ := hsafe
  rw [if_neg hcrash]
  simp only [hexists]
  by_cases hreal : (existsOn base request.destPath faults.existsAtEnd &&
      !paths.isRealWorkspacePath request.destPath) = true
  · rw [if_pos hreal] at hsafe ⊢
    exact refuseUpload_exact hentries hothers hsafe (by simp)
  rw [if_neg hreal] at hsafe ⊢
  by_cases howner : (existsOn base request.destPath faults.existsAtEnd &&
      !request.overwrite) = true
  · rw [if_pos howner] at hsafe ⊢
    exact refuseUpload_exact hentries hothers hsafe (by simp)
  rw [if_neg howner] at hsafe ⊢
  have hlength : ((chunks.map Prod.snd).flatten.length : ℤ) = request.fileSize :=
    hbytes.symm.trans hsize
  by_cases hthere : existsOn base request.destPath faults.existsAtEnd = true
  · rw [if_pos hthere] at hsafe ⊢
    obtain ⟨hstat, hsafe⟩ := hsafe
    simp only [hstat, hentries]
    by_cases hdirectory : base.entries request.destPath = some .directory
    · rw [if_pos hdirectory] at hsafe ⊢
      exact refuseUpload_exact hentries hothers hsafe (by simp)
    · rw [if_neg hdirectory] at hsafe ⊢
      obtain ⟨hunlink, hsafe⟩ := hsafe
      simp only [hunlink]
      refine publishUpload_exact (fun path hne => ?_) hcompleted hothers hpart hindices hcount
        hlength ?_ hsafe
      · simp only [UploadDisk.unlink]
        rw [Function.update_of_ne hne, hentries]
      · simp [UploadDisk.unlink]
  · rw [if_neg hthere] at hsafe ⊢
    refine publishUpload_exact (fun path _ => by rw [hentries]) hcompleted hothers hpart hindices
      hcount hlength ?_ hsafe
    rw [hentries]
    exact hsafe.2.2.2

theorem appendChunk_exact {base : UploadDisk} {state : WorkspaceUploadState}
    (hentries : disk.entries = base.entries) (hcompleted : disk.completed = base.completed)
    (hwhole : disk.AllWhole) (hstate : (disk.uploads request.uploadId).state = some state)
    (hlast : request.chunkIndex < request.chunkTotal)
    (hcheck : checkChunk state request = none)
    (hsafe : SafeAppend paths base request faults state) :
    Exact base request (appendChunk paths disk request state faults) := by
  have hdir := hwhole request.uploadId
  rw [UploadDir.Whole, hstate] at hdir
  obtain ⟨hpart, hindices, hnext, hbytes⟩ := hdir
  have hothers : OthersWhole disk request.uploadId := fun other _ => hwhole other
  -- The chunk is the next one of the upload that the state describes.
  have hmatches : state.chunkTotal = request.chunkTotal ∧
      request.chunkIndex = state.nextChunkIndex := by
    rw [checkChunk] at hcheck
    split_ifs at hcheck with hmeta hindex
    simp only [ne_eq, not_or, not_not] at hmeta hindex
    exact ⟨hmeta.2.2.2.1, hindex⟩
  rw [appendChunk]
  rw [SafeAppend] at hsafe
  cases hmake : faults.makeDirAgain with
  | some fault =>
    exact exact_of_same hwhole hentries fun path size overwritten =>
      ending_ne_complete (by simp [processingFailed])
  | none =>
    simp only [hmake, Option.isSome_none, Bool.false_eq_true, false_or] at hsafe
    cases happend : faults.append with
    | some fault =>
      simp only [happend, Option.isSome_some, if_true] at hsafe
      simp only [hsafe fault rfl]
      exact exact_of_same hwhole hentries fun path size overwritten =>
        ending_ne_complete (by simp [processingFailed])
    | none =>
      simp only [happend, Option.isSome_none, Bool.false_eq_true, if_false] at hsafe
      set chunks := (disk.uploads request.uploadId).accepted ++
        [(request.chunkIndex, request.data)] with hchunks
      have hnewPart : ((disk.appendPart request.uploadId request.data .fully).uploads
          request.uploadId).part.getD [] = (chunks.map Prod.snd).flatten := by
        simp [UploadDisk.appendPart, hpart, hchunks]
      have hnewIndices : chunks.map Prod.fst = (List.range chunks.length).map Int.ofNat := by
        rw [hchunks, List.length_append, List.length_singleton, List.range_succ, List.map_append,
          List.map_append, hindices, hmatches.2, hnext]
        rfl
      have hnewBytes : (state.count request.data).bytesWritten =
          ((chunks.map Prod.snd).flatten.length : ℤ) := by
        simp [WorkspaceUploadState.count, hbytes, hchunks]
      have hnewCount : (state.count request.data).nextChunkIndex = (chunks.length : ℤ) := by
        simp [WorkspaceUploadState.count, hnext, hchunks]
      have hnewOthers : OthersWhole (disk.appendPart request.uploadId request.data .fully)
          request.uploadId := hothers.of_setUpload
      have hcounted : ((disk.appendPart request.uploadId request.data .fully).writeState
          request.uploadId (state.count request.data) chunks .fully).AllWhole :=
        hnewOthers.setUpload ⟨hnewPart, hnewIndices, hnewCount, hnewBytes⟩
      simp only
      by_cases hmore : (state.count request.data).nextChunkIndex < state.chunkTotal
      · rw [if_pos hmore] at hsafe
        rw [if_pos (show (state.count request.data).nextChunkIndex <
          (state.count request.data).chunkTotal from hmore)]
        cases hrewrite : faults.rewrite with
        | some fault =>
          simp only [hsafe fault hrewrite]
          exact exact_of_same hcounted hentries fun path size overwritten =>
            ending_ne_complete (by simp [processingFailed])
        | none =>
          exact exact_of_same hcounted hentries fun path size overwritten => by simp
      · rw [if_neg hmore] at hsafe
        rw [if_neg (show ¬ (state.count request.data).nextChunkIndex <
          (state.count request.data).chunkTotal from hmore)]
        refine finishUpload_exact hentries hcompleted hnewOthers hnewPart hnewIndices ?_ hnewBytes
          hsafe
        rw [hnewCount] at hmore
        have hlength : (chunks.length : ℤ) = state.nextChunkIndex + 1 := by
          simp [hchunks, hnext]
        omega

end Steps

section Calls
variable {paths : UploadPaths} {disk : UploadDisk} {params : WorkspaceChunkUploadParams}
  {faults : ChunkFaults} {request : ChunkRequest}

theorem checkChunkParams_ok (hok : checkChunkParams paths disk params faults = .ok request) :
    request.chunkIndex < request.chunkTotal ∧ request.chunkTotal = params.chunkTotal ∧
      request.fileSize = params.fileSize := by
  rw [checkChunkParams] at hok
  simp only at hok
  repeat' split at hok
  all_goals try (cases hok; done)
  rename_i hindex _ _
  obtain rfl := Except.ok.inj hok
  exact ⟨not_le.1 hindex, rfl, rfl⟩

theorem checkChunkParams_error {ending : Option ChunkAnswer} {path : String} {size : ℕ}
    {overwritten : Bool} (herror : checkChunkParams paths disk params faults = .error ending) :
    ending ≠ some (.complete path size overwritten) := by
  rw [checkChunkParams] at herror
  simp only at herror
  repeat' split at herror
  all_goals
    cases herror
    try first
      | exact ending_ne_complete (by simp)
      | simp

theorem checkDestination_ne_complete {ending : Option ChunkAnswer} {path : String} {size : ℕ}
    {overwritten : Bool} (hrefused : checkDestination paths disk request faults = some ending) :
    ending ≠ some (.complete path size overwritten) := by
  rw [checkDestination] at hrefused
  repeat' split at hrefused
  all_goals
    cases hrefused
    try first
      | exact ending_ne_complete (by simp)
      | simp

theorem openUpload_error {ending : Option ChunkAnswer} {path : String} {size : ℕ}
    {overwritten : Bool} (herror : (openUpload paths disk request faults).2 = .error ending) :
    ending ≠ some (.complete path size overwritten) := by
  rw [openUpload] at herror
  by_cases hcrash : faults.readState.any UploadFault.crashes = true
  · rw [if_pos hcrash] at herror
    cases herror
    simp
  rw [if_neg hcrash] at herror
  cases hread : (if faults.readState.isSome then none
      else (disk.uploads request.uploadId).state) with
  | some state => simp [hread] at herror
  | none =>
    simp only [hread] at herror
    by_cases hindex : request.chunkIndex ≠ 0
    · rw [if_pos hindex] at herror
      cases herror
      simp
    rw [if_neg hindex] at herror
    cases hdestination : checkDestination paths disk request faults with
    | some refusal =>
      simp only [hdestination, Except.error.injEq] at herror
      exact herror ▸ checkDestination_ne_complete hdestination
    | none =>
      cases hmake : faults.makeDir with
      | some fault =>
        simp only [hdestination, hmake, Except.error.injEq] at herror
        exact herror ▸ ending_ne_complete (by simp)
      | none =>
        cases hwrite : faults.writeInitial with
        | some fault =>
          simp only [hdestination, hmake, hwrite, Except.error.injEq] at herror
          exact herror ▸ ending_ne_complete (by simp)
        | none => simp [hdestination, hmake, hwrite] at herror

theorem checkChunk_ne_complete {state : WorkspaceUploadState} {answer : ChunkAnswer}
    {path : String} {size : ℕ} {overwritten : Bool}
    (hrefused : checkChunk state request = some answer) :
    answer ≠ .complete path size overwritten := by
  rw [checkChunk] at hrefused
  split_ifs at hrefused <;> cases hrefused <;> simp

theorem completed_removeDir (uploadId : String) (extent : Extent) :
    (disk.removeDir uploadId extent).completed = disk.completed := by
  rw [UploadDisk.removeDir.eq_def]
  split <;> rfl

theorem completed_cleanup (stale : List (String × Extent)) :
    (disk.cleanupStaleChunkUploads stale).completed = disk.completed := by
  rw [UploadDisk.cleanupStaleChunkUploads]
  induction stale generalizing disk with
  | nil => rfl
  | cons removal rest ih => exact ih.trans (completed_removeDir _ _)

theorem completed_openUpload :
    (openUpload paths disk request faults).1.completed = disk.completed := by
  have hwritten (extent : Extent) :
      (disk.writeState request.uploadId request.initialState [] extent).completed =
        disk.completed := by
    cases extent <;> rfl
  rw [openUpload]
  repeat' split
  all_goals first
    | rfl
    | exact hwritten _

/-- One call whose faults are safe. -/
theorem uploadChunk_exact (hwhole : disk.AllWhole) (hsafe : SafeCall paths disk params faults) :
    (uploadChunk paths disk params faults).1.AllWhole ∧
      (∀ path size overwritten, (uploadChunk paths disk params faults).2 =
          some (.complete path size overwritten) →
        ∃ chunks : List (ℤ × List UInt8),
          (uploadChunk paths disk params faults).1.completed = disk.completed ++ [chunks] ∧
          (uploadChunk paths disk params faults).1.entries path =
            some (.file (chunks.map Prod.snd).flatten) ∧
          chunks.map Prod.fst = (List.range chunks.length).map Int.ofNat ∧
          (chunks.length : ℤ) = params.chunkTotal ∧
          ((chunks.map Prod.snd).flatten.length : ℤ) = params.fileSize ∧
          size = (chunks.map Prod.snd).flatten.length) ∧
      ∀ path, (∀ size overwritten, (uploadChunk paths disk params faults).2 ≠
          some (.complete path size overwritten)) →
        (uploadChunk paths disk params faults).1.entries path = disk.entries path := by
  obtain ⟨hstale, hsafe⟩ := hsafe
  obtain ⟨hcleaned, hcleanedEntries⟩ := UploadDisk.cleanup_whole hwhole hstale
  have hcleanedCompleted := @completed_cleanup disk faults.stale
  set cleaned := disk.cleanupStaleChunkUploads faults.stale with hcleanedDef
  rw [uploadChunk]
  simp only [← hcleanedDef]
  by_cases hcrash : faults.cleanupCrashes = true
  · rw [if_pos hcrash]
    exact ⟨hcleaned, by simp, fun path _ => by rw [hcleanedEntries]⟩
  rw [if_neg hcrash]
  cases hrequest : checkChunkParams paths cleaned params faults with
  | error ending =>
    exact ⟨hcleaned,
      fun path size overwritten heq => absurd heq (checkChunkParams_error hrequest),
      fun path _ => by rw [hcleanedEntries]⟩
  | ok request =>
    obtain ⟨hindex, htotal, hsize⟩ := checkChunkParams_ok hrequest
    simp only [hrequest] at hsafe
    obtain ⟨hopening, hsafe⟩ := hsafe
    obtain ⟨hopened, hopenedEntries, hopenedState⟩ :=
      @openUpload_whole paths cleaned request faults hcleaned hopening
    have hopenedCompleted := @completed_openUpload paths cleaned faults request
    cases hopen : openUpload paths cleaned request faults with
    | mk opened result =>
      rw [hopen] at hopened hopenedEntries hopenedState hopenedCompleted hsafe
      simp only [hopen]
      have hentries : opened.entries = disk.entries := hopenedEntries.trans hcleanedEntries
      have hcompleted : opened.completed = disk.completed :=
        hopenedCompleted.trans hcleanedCompleted
      cases result with
      | error ending =>
        have hending : (openUpload paths cleaned request faults).2 = .error ending := by
          rw [hopen]
        exact ⟨hopened,
          fun path size overwritten heq => absurd heq (openUpload_error hending),
          fun path _ => by simp only [hentries]⟩
      | ok state =>
        cases hcheck : checkChunk state request with
        | some answer =>
          simp only [hcheck]
          exact ⟨hopened, fun path size overwritten heq =>
              absurd (Option.some.inj heq) (checkChunk_ne_complete hcheck),
            fun path _ => by simp only [hentries]⟩
        | none =>
          simp only [hcheck]
          have hexact := appendChunk_exact hentries hcompleted hopened (hopenedState state rfl)
            hindex hcheck (hsafe hcheck)
          refine ⟨hexact.whole, fun path size overwritten heq => ?_, hexact.others⟩
          obtain ⟨chunks, hdone, hfile, hindices, hcount, hbytes, hlength⟩ :=
            hexact.complete path size overwritten heq
          exact ⟨chunks, hdone, hfile, hindices, hcount.trans htotal, hbytes.trans hsize, hlength⟩

theorem runUploads_whole {calls : List (WorkspaceChunkUploadParams × ChunkFaults)}
    (hwhole : disk.AllWhole) (hsafe : AllSafe paths disk calls) :
    (runUploads paths disk calls).AllWhole := by
  induction calls generalizing disk with
  | nil => exact hwhole
  | cons call calls ih => exact ih (uploadChunk_exact hwhole hsafe.1).1 hsafe.2

end Calls

section Samples

def samplePaths : UploadPaths where
  resolveWorkspacePath _ := some "/workspace"
  isEscapedExistingWorkspacePath _ := false
  isRealWorkspacePath _ := true
  maxUploadBytes := 1000

def sampleEntries (path : String) : Option DiskEntry :=
  if path = "/workspace" then some .directory
  else if path = "/workspace/a.txt" then some (.file [9]) else none

def sampleChunk (chunkIndex : ℤ) (data : List UInt8) : WorkspaceChunkUploadParams where
  pathParam := none
  uploadId := "u"
  chunkIndex := chunkIndex
  chunkTotal := 2
  fileName := "a.txt"
  fileSize := 4
  overwrite := true
  data := data

end Samples
end Piclaw
