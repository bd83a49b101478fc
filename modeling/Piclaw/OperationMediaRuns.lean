import Piclaw.OperationMedia

/-!
# Runs of the operation media store

Unless metadata call raw data compressed that decompress into other data, in every run media are
created once, deleted only when nothing refers to them, read back, and every committed request
is answered alike again.
-/

namespace Piclaw

theorem find_keyed {ρ κ : Type} [DecidableEq κ] {rows : List ρ} {key : ρ → κ}
    (hkeys : (rows.map key).Nodup) {row : ρ} (hrow : row ∈ rows) :
    rows.find? (fun r => decide (key r = key row)) = some row := by
  cases hfind : rows.find? (fun r => decide (key r = key row)) with
  | none => simpa using List.find?_eq_none.mp hfind row hrow
  | some found =>
    have hkey : key found = key row := by simpa using List.find?_some hfind
    exact congrArg some
      (List.inj_on_of_nodup_map hkeys (List.mem_of_find?_eq_some hfind) hrow hkey)

/-- The upload that a commit created. -/
def MediaCommit.upload : MediaCommit → Option UploadRow
  | .create request ref => some (OperationMediaStore.uploadRow request ref.mediaId)
  | _ => none

/-- The media that a commit deleted. -/
def MediaCommit.dropped : MediaCommit → Option ℕ
  | .delete request _ => some request.mediaId
  | _ => none

namespace OperationMediaStore

/-- The metadata call raw data compressed, and these decompress into other data. -/
def misread (codec : MediaCodec) (contentType : String) (payload : MediaPayload) : Bool :=
  payload.gzip && (packed codec payload.data contentType).isNone &&
    (codec.decompress payload.data).any fun data =>
      decide (data.length ≠ payload.data.length) ||
        decide (codec.sha256Bytes data ≠ codec.sha256Bytes payload.data)

/-- The event creates media whose data are misread. -/
def misreads (codec : MediaCodec) (s : OperationMediaStore) : MediaEvent → Bool
  | .admitCreate call =>
    match s.pending call with
    | some ⟨request, some payload⟩ =>
      (s.findUploadByKey request.effect.idempotencyKey).isNone &&
        (s.findUploadById request.uploadId).isNone && misread codec request.contentType payload
    | _ => false
  | _ => false

/-- No event of the run misreads. -/
def SafeRun (codec : MediaCodec) : OperationMediaStore → List MediaEvent → Prop
  | _, [] => True
  | s, event :: events => s.misreads codec event = false ∧ SafeRun codec (s.step codec event) events

/-- The row reads as the data of the digest and of the length. -/
structure Reads (codec : MediaCodec) (row : MediaRow) (sha256 : String) (byteLength : ℕ) :
    Prop where
  length : (maybeDecompress codec row.data row.gzip).length = byteLength
  digest : codec.sha256Bytes (maybeDecompress codec row.data row.gzip) = sha256

theorem reads_created {codec : MediaCodec} (hlossless : codec.Lossless) {id : ℕ}
    {filename contentType : String} {payload : MediaPayload}
    (hsafe : misread codec contentType payload = false) :
    Reads codec ⟨id, filename, contentType,
      (maybeCompress codec payload.data contentType payload.gzip).1,
      (maybeCompress codec payload.data contentType payload.gzip).2⟩
      (codec.sha256Bytes payload.data) payload.data.length := by
  unfold maybeCompress
  cases hpacked : packed codec payload.data contentType with
  | some bytes =>
    have hcompress : codec.compress payload.data = some bytes := by
      unfold packed at hpacked
      split_ifs at hpacked
      exact (Option.filter_eq_some_iff.mp hpacked).1
    have hread : maybeDecompress codec bytes true = payload.data := by
      simp [maybeDecompress, hlossless.decompress_compress _ _ hcompress]
    exact ⟨congrArg List.length hread, congrArg codec.sha256Bytes hread⟩
  | none =>
    cases hgzip : payload.gzip with
    | false => exact ⟨rfl, rfl⟩
    | true =>
      cases hdata : codec.decompress payload.data with
      | none =>
        have hread : maybeDecompress codec payload.data true = payload.data := by
          simp [maybeDecompress, hdata]
        exact ⟨congrArg List.length hread, congrArg codec.sha256Bytes hread⟩
      | some data =>
        have hread : maybeDecompress codec payload.data true = data := by
          simp [maybeDecompress, hdata]
        simp only [misread, hgzip, hpacked, hdata, Option.isNone_none, Bool.and_self,
          Bool.true_and, Option.any_some, Bool.or_eq_false_iff, decide_eq_false_iff_not,
          not_not] at hsafe
        exact ⟨(congrArg List.length hread).trans hsafe.1,
          (congrArg codec.sha256Bytes hread).trans hsafe.2⟩

/-- The hash of a committed request was the one it carries. -/
def Hashed (codec : MediaCodec) : MediaCommit → Prop
  | .create request ref =>
    request.effect.requestHash = codec.hashCreate request ∧ ref.sha256 = request.sha256
  | .bind request _ => request.effect.requestHash = codec.hashBind request
  | .delete request _ => request.effect.requestHash = codec.hashDelete request

/-- What the store keeps: the keys of its tables, the media behind live uploads and references,
and the row that answers each committed request. -/
structure Sound (codec : MediaCodec) (s : OperationMediaStore) : Prop where
  recorded : s.history = s.commits.filterMap MediaCommit.upload
  keys : (s.history.map UploadRow.idempotencyKey).Nodup
  uploadIds : (s.history.map UploadRow.uploadId).Nodup
  mediaIds : (s.history.map UploadRow.mediaId).Nodup
  rowIds : (s.media.map MediaRow.id).Nodup
  issued : ∀ row ∈ s.history, row.mediaId ≤ s.mediaSequence
  rowsIssued : ∀ row ∈ s.media, row.id ≤ s.mediaSequence
  uploaded : ∀ row ∈ s.uploads, row ∈ s.history
  live : ∀ media ∈ s.media, ∀ row ∈ s.history, row.mediaId = media.id → row ∈ s.uploads
  kept : ∀ row ∈ s.history, row ∈ s.uploads ∨ row.mediaId ∈ s.commits.filterMap MediaCommit.dropped
  stored : ∀ request ref, .create request ref ∈ s.commits →
    uploadRow request ref.mediaId ∈ s.uploads → ∃ media ∈ s.media, media.id = ref.mediaId ∧
      media.filename = request.filename ∧ media.contentType = request.contentType ∧
      Reads codec media request.sha256 request.byteLength
  boundUploads : ∀ row ∈ s.bindings, ∃ upload ∈ s.uploads, upload.mediaId = row.mediaId
  messageRows : ∀ link ∈ s.messageMedia, ∃ media ∈ s.media, media.id = link.2
  outboxRows : ∀ link ∈ s.outboxRefs, ∃ media ∈ s.media, media.id = link.2
  hashed : ∀ commit ∈ s.commits, Hashed codec commit
  bound : ∀ request binding, .bind request binding ∈ s.commits →
    ∃ row, s.findBindingByKey request.effect.idempotencyKey = some row ∧
      row.requestHash = request.effect.requestHash ∧ bindingFromRow row = binding
  logged : ∀ request deleted, .delete request deleted ∈ s.commits →
    ∃ row, s.findDeletion request.effect.idempotencyKey = some row ∧
      row.requestHash = request.effect.requestHash ∧ row.deleted = deleted
  called : ∀ call request payload, s.pending call = some ⟨request, payload⟩ →
    request.effect.requestHash = codec.hashCreate request ∧
      ∀ read ∈ payload, codec.sha256Bytes read.data = request.sha256 ∧
        read.data.length = request.byteLength

theorem sound_initial (codec : MediaCodec) : Sound codec initial := by
  constructor <;> simp [initial]

variable {codec : MediaCodec} {s : OperationMediaStore}

theorem Sound.upload_mem (h : Sound codec s) {request : CreateMediaRequest} {ref : MediaRef}
    (hcommit : .create request ref ∈ s.commits) : uploadRow request ref.mediaId ∈ s.history := by
  rw [h.recorded]
  exact List.mem_filterMap.mpr ⟨_, hcommit, rfl⟩

/-- Another commit than the last one was there before. -/
theorem mem_of_append {commits : List MediaCommit} {commit other : MediaCommit}
    (hother : other ∈ commits ++ [commit]) (hne : other ≠ commit) : other ∈ commits :=
  (List.mem_append.mp hother).resolve_right fun hlast => hne (List.mem_singleton.mp hlast)

theorem Sound.hashed_append (h : Sound codec s) {commit : MediaCommit}
    (hcommit : Hashed codec commit) : ∀ other ∈ s.commits ++ [commit], Hashed codec other := by
  intro other hother
  rcases List.mem_append.mp hother with hother | hother
  · exact h.hashed other hother
  · exact (List.mem_singleton.mp hother) ▸ hcommit

/-- Each upload has its media row. -/
theorem Sound.row_of_upload (h : Sound codec s) {row : UploadRow} (hrow : row ∈ s.uploads) :
    ∃ media ∈ s.media, media.id = row.mediaId := by
  have hhistory := h.uploaded row hrow
  rw [h.recorded] at hhistory
  obtain ⟨commit, hcommit, hupload⟩ := List.mem_filterMap.mp hhistory
  cases commit with
  | create request ref =>
    obtain rfl : uploadRow request ref.mediaId = row := by simpa [MediaCommit.upload] using hupload
    obtain ⟨media, hmedia, hid, -⟩ := h.stored request ref hcommit hrow
    exact ⟨media, hmedia, hid⟩
  | bind => cases hupload
  | delete => cases hupload

/-- Only the pending calls change. -/
theorem Sound.setPending (h : Sound codec s) {pending : ℕ → Option PendingCreate} {nextCall : ℕ}
    (hcalled : ∀ call request payload, pending call = some ⟨request, payload⟩ →
      request.effect.requestHash = codec.hashCreate request ∧
        ∀ read ∈ payload, codec.sha256Bytes read.data = request.sha256 ∧
          read.data.length = request.byteLength) :
    Sound codec { s with pending, nextCall } :=
  { h with called := hcalled }

theorem called_update (h : Sound codec s) {call : ℕ} {entry : Option PendingCreate}
    (hentry : ∀ request payload, entry = some ⟨request, payload⟩ →
      request.effect.requestHash = codec.hashCreate request ∧
        ∀ read ∈ payload, codec.sha256Bytes read.data = request.sha256 ∧
          read.data.length = request.byteLength)
    (other : ℕ) (request : CreateMediaRequest) (payload : Option MediaPayload)
    (hpending : Function.update s.pending call entry other = some ⟨request, payload⟩) :
    request.effect.requestHash = codec.hashCreate request ∧
      ∀ read ∈ payload, codec.sha256Bytes read.data = request.sha256 ∧
        read.data.length = request.byteLength := by
  by_cases hother : other = call
  · subst other
    rw [Function.update_self] at hpending
    exact hentry request payload hpending
  · rw [Function.update_of_ne hother] at hpending
    exact h.called other request payload hpending

theorem Sound.dropPending (h : Sound codec s) (call : ℕ) :
    Sound codec { s with pending := Function.update s.pending call none } :=
  h.setPending (called_update h fun _ _ hnone => nomatch hnone)

theorem Sound.submitCreate (h : Sound codec s) (request : CreateMediaRequest) :
    Sound codec (s.submitCreate codec request).1 := by
  unfold OperationMediaStore.submitCreate
  by_cases hhash : request.effect.requestHash = codec.hashCreate request
  case neg => rw [if_pos hhash]; exact h
  rw [if_neg (not_not.mpr hhash)]
  split
  · exact h
  by_cases hvalid : (!validCreateRequest request) = true
  · rw [if_pos hvalid]
    exact h
  · rw [if_neg hvalid]
    refine h.setPending (called_update h fun made payload hmade => ?_)
    cases hmade
    exact ⟨hhash, fun read hread => nomatch hread⟩

theorem Sound.readPayloads (h : Sound codec s) (call : ℕ) (data : Option VerifiedData)
    (thumbnail : Bool) (metadata : Option Bool) :
    Sound codec (s.readPayloads codec call data thumbnail metadata).1 := by
  unfold OperationMediaStore.readPayloads
  split
  case h_2 => exact h
  case h_1 request hpending =>
    have hhash := (h.called call request none hpending).1
    split
    · exact h.dropPending call
    · rename_i verified
      split_ifs with hdigest
      · exact h.dropPending call
      · exact h.dropPending call
      · exact h.dropPending call
      · have hverified : codec.sha256Bytes verified.bytes = request.sha256 ∧
            verified.bytes.length = request.byteLength := by
          simpa [not_or] using hdigest
        split
        · exact h.dropPending call
        · refine h.setPending (called_update h fun made payload hmade => ?_)
          cases hmade
          refine ⟨hhash, fun read hread => ?_⟩
          cases hread
          exact hverified
      · have hverified : codec.sha256Bytes verified.bytes = request.sha256 ∧
            verified.bytes.length = request.byteLength := by
          simpa [not_or] using hdigest
        refine h.setPending (called_update h fun made payload hmade => ?_)
        cases hmade
        refine ⟨hhash, fun read hread => ?_⟩
        cases hread
        exact hverified

/-- Of the media only one more row is there, under an id that no upload has. -/
theorem Sound.createMedia (h : Sound codec s) (filename contentType : String) (data : List UInt8)
    (gzip : Bool) : Sound codec (s.createMedia codec filename contentType data gzip) where
  recorded := h.recorded
  keys := h.keys
  uploadIds := h.uploadIds
  mediaIds := h.mediaIds
  rowIds := by
    have hfresh : ∀ media ∈ s.media, media.id ≠ s.mediaSequence + 1 := fun media hmedia =>
      (Nat.lt_succ_of_le (h.rowsIssued media hmedia)).ne
    simpa [OperationMediaStore.createMedia, List.nodup_append, h.rowIds] using hfresh
  issued row hrow := (h.issued row hrow).trans (Nat.le_succ _)
  rowsIssued row hrow := by
    rcases List.mem_append.mp hrow with hrow | hrow
    · exact (h.rowsIssued row hrow).trans (Nat.le_succ _)
    · rw [List.mem_singleton.mp hrow]
      exact le_rfl
  uploaded := h.uploaded
  live media hmedia row hrow hid := by
    rcases List.mem_append.mp hmedia with hmedia | hmedia
    · exact h.live media hmedia row hrow hid
    · rw [List.mem_singleton.mp hmedia] at hid
      exact absurd (h.issued row hrow) (by simp [hid])
  kept := h.kept
  stored request ref hcommit hupload := by
    obtain ⟨media, hmedia, hread⟩ := h.stored request ref hcommit hupload
    exact ⟨media, List.mem_append_left _ hmedia, hread⟩
  boundUploads := h.boundUploads
  messageRows link hlink := by
    obtain ⟨media, hmedia, hid⟩ := h.messageRows link hlink
    exact ⟨media, List.mem_append_left _ hmedia, hid⟩
  outboxRows link hlink := by
    obtain ⟨media, hmedia, hid⟩ := h.outboxRows link hlink
    exact ⟨media, List.mem_append_left _ hmedia, hid⟩
  hashed := h.hashed
  bound := h.bound
  logged := h.logged
  called := h.called

theorem not_mem_of_findUploadByKey {idempotencyKey : String}
    (hfind : s.findUploadByKey idempotencyKey = none) :
    ∀ row ∈ s.history, row.idempotencyKey ≠ idempotencyKey := by
  simpa [findUploadByKey] using hfind

theorem not_mem_of_findUploadById {uploadId : String}
    (hfind : s.findUploadById uploadId = none) : ∀ row ∈ s.history, row.uploadId ≠ uploadId := by
  simpa [findUploadById] using hfind

/-- A fresh upload and its media row are created together. -/
theorem Sound.record (h : Sound codec s) (hlossless : codec.Lossless)
    {request : CreateMediaRequest} {payload : MediaPayload}
    (hhash : request.effect.requestHash = codec.hashCreate request)
    (hdigest : codec.sha256Bytes payload.data = request.sha256)
    (hlength : payload.data.length = request.byteLength)
    (hkey : s.findUploadByKey request.effect.idempotencyKey = none)
    (hupload : s.findUploadById request.uploadId = none)
    (hsafe : misread codec request.contentType payload = false) :
    Sound codec
      { s.createMedia codec request.filename request.contentType payload.data payload.gzip with
        history := s.history ++ [uploadRow request (s.mediaSequence + 1)]
        uploads := s.uploads ++ [uploadRow request (s.mediaSequence + 1)]
        commits := s.commits ++ [.create request ⟨s.mediaSequence + 1, request.sha256⟩] } := by
  have hcreated := h.createMedia request.filename request.contentType payload.data payload.gzip
  have hfreshId : ∀ row ∈ s.history, row.mediaId ≠ s.mediaSequence + 1 := fun row hrow =>
    (Nat.lt_succ_of_le (h.issued row hrow)).ne
  have hread := @reads_created codec hlossless (s.mediaSequence + 1) request.filename
    request.contentType payload hsafe
  rw [hdigest, hlength] at hread
  exact {
    recorded := by
      simp [h.recorded, MediaCommit.upload]
    keys := by
      simpa [List.nodup_append, h.keys, uploadRow] using not_mem_of_findUploadByKey hkey
    uploadIds := by
      simpa [List.nodup_append, h.uploadIds, uploadRow] using not_mem_of_findUploadById hupload
    mediaIds := by
      simpa [List.nodup_append, h.mediaIds, uploadRow] using hfreshId
    rowIds := hcreated.rowIds
    issued := fun row hrow => by
      rcases List.mem_append.mp hrow with hrow | hrow
      · exact hcreated.issued row hrow
      · rw [List.mem_singleton.mp hrow]
        exact le_rfl
    rowsIssued := hcreated.rowsIssued
    uploaded := fun row hrow => by
      rcases List.mem_append.mp hrow with hrow | hrow
      · exact List.mem_append_left _ (h.uploaded row hrow)
      · exact List.mem_append_right _ hrow
    live := fun media hmedia row hrow hid => by
      rcases List.mem_append.mp hrow with hrow | hrow
      · exact List.mem_append_left _ (hcreated.live media hmedia row hrow hid)
      · exact List.mem_append_right _ hrow
    kept := fun row hrow => by
      rcases List.mem_append.mp hrow with hrow | hrow
      · rcases h.kept row hrow with hlive | hdropped
        · exact .inl (List.mem_append_left _ hlive)
        · right
          rw [List.filterMap_append]
          exact List.mem_append_left _ hdropped
      · exact .inl (List.mem_append_right _ hrow)
    stored := fun made ref hcommit hmade => by
      rcases List.mem_append.mp hcommit with hcommit | hcommit
      · have hrow : uploadRow made ref.mediaId ∈ s.uploads := by
          rcases List.mem_append.mp hmade with hmade | hmade
          · exact hmade
          · have hid : ref.mediaId = s.mediaSequence + 1 :=
              congrArg UploadRow.mediaId (List.mem_singleton.mp hmade)
            exact absurd hid (hfreshId _ (h.upload_mem hcommit))
        exact hcreated.stored made ref hcommit hrow
      · cases List.mem_singleton.mp hcommit
        exact ⟨_, List.mem_append_right _ (List.mem_singleton_self _), rfl, rfl, rfl, hread⟩
    boundUploads := fun row hrow => by
      obtain ⟨upload, hmem, hid⟩ := h.boundUploads row hrow
      exact ⟨upload, List.mem_append_left _ hmem, hid⟩
    messageRows := hcreated.messageRows
    outboxRows := hcreated.outboxRows
    hashed := h.hashed_append ⟨hhash, rfl⟩
    bound := fun made binding hcommit =>
      h.bound made binding (mem_of_append hcommit (by simp))
    logged := fun made deleted hcommit =>
      h.logged made deleted (mem_of_append hcommit (by simp))
    called := h.called }

theorem Sound.createUpload (h : Sound codec s) (hlossless : codec.Lossless)
    {request : CreateMediaRequest} {payload : MediaPayload}
    (hhash : request.effect.requestHash = codec.hashCreate request)
    (hdigest : codec.sha256Bytes payload.data = request.sha256)
    (hlength : payload.data.length = request.byteLength)
    (hsafe : s.findUploadByKey request.effect.idempotencyKey = none →
      s.findUploadById request.uploadId = none →
        misread codec request.contentType payload = false) :
    Sound codec (s.createUpload codec request payload).1 := by
  unfold OperationMediaStore.createUpload
  cases hkey : s.findUploadByKey request.effect.idempotencyKey with
  | some row => exact h
  | none =>
    cases hupload : s.findUploadById request.uploadId with
    | some row => exact h
    | none => exact h.record hlossless hhash hdigest hlength hkey hupload (hsafe hkey hupload)

theorem admitCreate_eq {call : ℕ} {request : CreateMediaRequest} {payload : MediaPayload}
    (hpending : s.pending call = some ⟨request, some payload⟩) :
    s.admitCreate codec call =
      ({ (s.createUpload codec request payload).1 with
          pending := Function.update s.pending call none },
        some (s.createUpload codec request payload).2) := by
  unfold admitCreate
  rw [hpending]

theorem Sound.admitCreate (h : Sound codec s) (hlossless : codec.Lossless) (call : ℕ)
    (hsafe : s.misreads codec (.admitCreate call) = false) :
    Sound codec (s.admitCreate codec call).1 := by
  cases hpending : s.pending call with
  | none =>
    unfold OperationMediaStore.admitCreate
    rw [hpending]
    exact h
  | some entry =>
    obtain ⟨request, _ | payload⟩ := entry
    · unfold OperationMediaStore.admitCreate
      rw [hpending]
      exact h
    · have hcalled := h.called call request (some payload) hpending
      obtain ⟨hdigest, hlength⟩ := hcalled.2 payload rfl
      have hcreated := h.createUpload hlossless hcalled.1 hdigest hlength fun hkey hupload => by
        simpa [misreads, hpending, hkey, hupload] using hsafe
      rw [admitCreate_eq hpending]
      exact hcreated.setPending (called_update h fun _ _ hnone => nomatch hnone)

/-- Where no upload is bound yet, the binding is committed. -/
theorem Sound.bindToOperation (h : Sound codec s) (request : BindOperationMediaRequest) :
    Sound codec (s.bindToOperation codec request).1 := by
  unfold OperationMediaStore.bindToOperation
  by_cases hhash : request.effect.requestHash = codec.hashBind request
  case neg => rw [if_pos hhash]; exact h
  rw [if_neg (not_not.mpr hhash)]
  cases hkey : s.findBindingByKey request.effect.idempotencyKey with
  | some row => exact h
  | none =>
    cases hupload : s.findUpload request.mediaId with
    | none => exact h
    | some upload =>
      dsimp only [Option.isNone_some, Bool.false_eq_true, if_false]
      cases hbinding : s.findBinding request.effect.operationId request.mediaId request.role with
      | some row => exact h
      | none =>
        have hmem : upload ∈ s.uploads := List.mem_of_find?_eq_some hupload
        have hid : upload.mediaId = request.mediaId := by
          simpa using List.find?_some hupload
        exact { h with
          recorded := by simp [h.recorded, MediaCommit.upload]
          kept := fun row hrow => by
            simpa [List.filterMap_append, MediaCommit.dropped] using h.kept row hrow
          stored := fun made ref hcommit hmade =>
            h.stored made ref (mem_of_append hcommit (by simp)) hmade
          boundUploads := fun row hrow => by
            rcases List.mem_append.mp hrow with hrow | hrow
            · exact h.boundUploads row hrow
            · rw [List.mem_singleton.mp hrow]
              exact ⟨upload, hmem, hid⟩
          hashed := h.hashed_append hhash
          bound := fun made binding hcommit => by
            rcases List.mem_append.mp hcommit with hcommit | hcommit
            · obtain ⟨row, hfind, hrow⟩ := h.bound made binding hcommit
              exact ⟨row, by simpa [findBindingByKey, List.find?_append] using .inl hfind, hrow⟩
            · cases List.mem_singleton.mp hcommit
              refine ⟨_, ?_, rfl, rfl⟩
              have hnone : s.bindings.find? (fun row =>
                  decide (row.idempotencyKey = request.effect.idempotencyKey)) = none := hkey
              simp [findBindingByKey, List.find?_append, hnone]
          logged := fun made deleted hcommit =>
            h.logged made deleted (mem_of_append hcommit (by simp)) }

theorem deleteUnreferencedMedia_spec {mediaIds : List ℕ} {cleaned : OperationMediaStore}
    (hclean : s.deleteUnreferencedMedia mediaIds = some cleaned) :
    cleaned = { s with media := s.media.filter fun row => !s.removable mediaIds row } ∧
      ∀ row ∈ s.media, s.removable mediaIds row = true → s.held row = false := by
  unfold deleteUnreferencedMedia at hclean
  split_ifs at hclean with hheld
  refine ⟨(Option.some.inj hclean).symm, fun row hrow hremovable => ?_⟩
  simp only [List.any_eq_true, Bool.and_eq_true, not_exists, not_and, Bool.not_eq_true] at hheld
  exact hheld row hrow hremovable

/-- No reference names the media row. -/
theorem not_referenced {mediaId : ℕ} (hfree : s.referenced mediaId = false) :
    (∀ row ∈ s.bindings, row.mediaId ≠ mediaId) ∧ (∀ link ∈ s.messageMedia, link.2 ≠ mediaId) ∧
      ∀ link ∈ s.outboxRefs, link.2 ≠ mediaId := by
  simp only [referenced, Bool.or_eq_false_iff, List.contains_eq_mem, decide_eq_false_iff_not,
    List.mem_map, not_exists, not_and] at hfree
  exact ⟨hfree.1.1, hfree.1.2, hfree.2⟩

/-- What the clean-up takes is no media of an upload, a message or an outbox row. -/
theorem Sound.cleanUp (h : Sound codec s) {mediaIds : List ℕ} {cleaned : OperationMediaStore}
    (hclean : s.deleteUnreferencedMedia mediaIds = some cleaned) : Sound codec cleaned := by
  obtain ⟨rfl, hheld⟩ := deleteUnreferencedMedia_spec hclean
  have hsub : (s.media.filter fun row => !s.removable mediaIds row).Sublist s.media :=
    List.filter_sublist
  have hstays : ∀ media ∈ s.media, (s.removable mediaIds media = true → s.held media = true) →
      media ∈ s.media.filter fun row => !s.removable mediaIds row := by
    intro media hmedia hkeep
    refine List.mem_filter.mpr ⟨hmedia, ?_⟩
    cases hremovable : s.removable mediaIds media with
    | false => rfl
    | true => exact absurd (hkeep hremovable) (by simp [hheld media hmedia hremovable])
  exact { h with
    rowIds := h.rowIds.sublist (hsub.map _)
    rowsIssued := fun row hrow => h.rowsIssued row (hsub.subset hrow)
    live := fun media hmedia => h.live media (hsub.subset hmedia)
    stored := fun request ref hcommit hupload => by
      obtain ⟨media, hmedia, hid, hread⟩ := h.stored request ref hcommit hupload
      refine ⟨media, hstays media hmedia fun _ => ?_, hid, hread⟩
      have hfound : (s.findUpload media.id).isSome = true :=
        List.find?_isSome.mpr ⟨_, hupload, decide_eq_true hid.symm⟩
      simp [held, hfound]
    messageRows := fun link hlink => by
      obtain ⟨media, hmedia, hid⟩ := h.messageRows link hlink
      refine ⟨media, hstays media hmedia fun hremovable => ?_, hid⟩
      have hlinked : media.id ∈ s.messageMedia.map Prod.snd :=
        List.mem_map.mpr ⟨link, hlink, hid.symm⟩
      simp [removable, hlinked] at hremovable
    outboxRows := fun link hlink => by
      obtain ⟨media, hmedia, hid⟩ := h.outboxRows link hlink
      refine ⟨media, hstays media hmedia fun _ => ?_, hid⟩
      have hlinked : media.id ∈ s.outboxRefs.map Prod.snd :=
        List.mem_map.mpr ⟨link, hlink, hid.symm⟩
      simp [held, hlinked] }

/-- A committed deletion takes the upload and the media row to which nothing refers. -/
theorem Sound.remove (h : Sound codec s) {request : DeleteMediaRequest} {media : List MediaRow}
    {row : DeletionRow} {deleted : Bool}
    (hhash : request.effect.requestHash = codec.hashDelete request)
    (hfind : s.findDeletion request.effect.idempotencyKey = none)
    (hfree : s.referenced request.mediaId = false)
    (hmedia : media = s.media.filter fun row => decide (row.id ≠ request.mediaId))
    (hrow : row = ⟨request.effect.idempotencyKey, request.effect.requestHash, request.mediaId,
      request.expectedSha256, deleted⟩) :
    Sound codec { s with
      media := media
      uploads := s.uploads.filter fun row => decide (row.mediaId ≠ request.mediaId)
      deletions := s.deletions ++ [row]
      commits := s.commits ++ [.delete request deleted] } := by
  obtain ⟨hbindings, hmessages, houtbox⟩ := not_referenced hfree
  have hsub : media.Sublist s.media := hmedia ▸ List.filter_sublist
  have hstays : ∀ other ∈ s.media, other.id ≠ request.mediaId → other ∈ media :=
    fun other hother hid => hmedia ▸ List.mem_filter.mpr ⟨hother, decide_eq_true hid⟩
  have hkeeps : ∀ upload ∈ s.uploads, upload.mediaId ≠ request.mediaId →
      upload ∈ s.uploads.filter fun row => decide (row.mediaId ≠ request.mediaId) :=
    fun upload hupload hid => List.mem_filter.mpr ⟨hupload, decide_eq_true hid⟩
  exact {
    recorded := by simp [h.recorded, MediaCommit.upload]
    keys := h.keys
    uploadIds := h.uploadIds
    mediaIds := h.mediaIds
    rowIds := h.rowIds.sublist (hsub.map _)
    issued := h.issued
    rowsIssued := fun other hother => h.rowsIssued other (hsub.subset hother)
    uploaded := fun upload hupload => h.uploaded upload (List.mem_of_mem_filter hupload)
    live := fun other hother upload hupload hid => by
      have hother' : other ∈ s.media ∧ other.id ≠ request.mediaId := by
        simpa [hmedia] using hother
      exact hkeeps upload (h.live other hother'.1 upload hupload hid) (hid ▸ hother'.2)
    kept := fun upload hupload => by
      rw [List.filterMap_append]
      by_cases hid : upload.mediaId = request.mediaId
      · exact .inr (List.mem_append_right _ (by simp [MediaCommit.dropped, hid]))
      · rcases h.kept upload hupload with hlive | hdropped
        · exact .inl (hkeeps upload hlive hid)
        · exact .inr (List.mem_append_left _ hdropped)
    stored := fun made ref hcommit hmade => by
      rcases List.mem_append.mp hcommit with hcommit | hcommit
      · obtain ⟨hmade, hid⟩ := List.mem_filter.mp hmade
        obtain ⟨other, hother, hotherId, hread⟩ := h.stored made ref hcommit hmade
        exact ⟨other, hstays other hother (hotherId ▸ of_decide_eq_true hid), hotherId, hread⟩
      · cases List.mem_singleton.mp hcommit
    boundUploads := fun binding hbinding => by
      obtain ⟨upload, hupload, hid⟩ := h.boundUploads binding hbinding
      exact ⟨upload, hkeeps upload hupload (hid ▸ hbindings binding hbinding), hid⟩
    messageRows := fun link hlink => by
      obtain ⟨other, hother, hid⟩ := h.messageRows link hlink
      exact ⟨other, hstays other hother (hid ▸ hmessages link hlink), hid⟩
    outboxRows := fun link hlink => by
      obtain ⟨other, hother, hid⟩ := h.outboxRows link hlink
      exact ⟨other, hstays other hother (hid ▸ houtbox link hlink), hid⟩
    hashed := h.hashed_append hhash
    bound := fun made binding hcommit =>
      h.bound made binding (mem_of_append hcommit (by simp))
    logged := fun made found hcommit => by
      rcases List.mem_append.mp hcommit with hcommit | hcommit
      · obtain ⟨prior, hprior, hrest⟩ := h.logged made found hcommit
        exact ⟨prior, by simpa [findDeletion, List.find?_append] using .inl hprior, hrest⟩
      · cases List.mem_singleton.mp hcommit
        have hnone : s.deletions.find? (fun row =>
            decide (row.idempotencyKey = request.effect.idempotencyKey)) = none := hfind
        exact ⟨row, by simp [findDeletion, List.find?_append, hnone, hrow], by rw [hrow], by
          rw [hrow]⟩
    called := h.called }

/-- What a request to delete does: nothing to the store, or all of its deletion. -/
theorem deleteIfUnreferenced_cases (request : DeleteMediaRequest) :
    (s.deleteIfUnreferenced codec request).1 = s ∨
      request.effect.requestHash = codec.hashDelete request ∧
        s.findDeletion request.effect.idempotencyKey = none ∧
        s.referenced request.mediaId = false ∧
        ∃ deleted, s.deleteIfUnreferenced codec request = ({ s with
          media := s.media.filter fun row => decide (row.id ≠ request.mediaId)
          uploads := s.uploads.filter fun row => decide (row.mediaId ≠ request.mediaId)
          deletions := s.deletions ++ [⟨request.effect.idempotencyKey,
            request.effect.requestHash, request.mediaId, request.expectedSha256, deleted⟩]
          commits := s.commits ++ [.delete request deleted] }, .ok deleted) := by
  unfold deleteIfUnreferenced
  by_cases hhash : request.effect.requestHash = codec.hashDelete request
  case neg => rw [if_pos hhash]; exact .inl rfl
  rw [if_neg (not_not.mpr hhash)]
  cases hprior : s.findDeletion request.effect.idempotencyKey with
  | some row => exact .inl rfl
  | none =>
    cases hupload : s.findUpload request.mediaId with
    | none => exact .inl rfl
    | some upload =>
      dsimp only
      by_cases hdigest : upload.sha256 = request.expectedSha256
      case neg => rw [if_pos hdigest]; exact .inl rfl
      rw [if_neg (not_not.mpr hdigest)]
      cases hfree : s.referenced request.mediaId with
      | true => exact .inl rfl
      | false =>
        rw [if_neg Bool.false_ne_true]
        split
        · exact .inl rfl
        · rename_i cleaned hclean
          obtain ⟨rfl, -⟩ := deleteUnreferencedMedia_spec hclean
          have hmessages : request.mediaId ∉ s.messageMedia.map Prod.snd := fun hlinked => by
            obtain ⟨link, hlink, hid⟩ := List.mem_map.mp hlinked
            exact (not_referenced hfree).2.1 link hlink hid
          have hrows : (s.media.filter fun row => !removable { s with
              uploads := s.uploads.filter fun row => decide (row.mediaId ≠ request.mediaId) }
                [request.mediaId] row) =
              s.media.filter fun row => decide (row.id ≠ request.mediaId) := by
            refine List.filter_congr fun row _ => ?_
            by_cases hid : row.id = request.mediaId
            · simpa [removable, hid] using hmessages
            · simp [removable, hid]
          refine .inr ⟨hhash, rfl, rfl, decide ((s.media.filter fun row =>
            decide (row.id ≠ request.mediaId)).length + 1 = s.media.length), ?_⟩
          simp only [hrows]

theorem Sound.deleteIfUnreferenced (h : Sound codec s) (request : DeleteMediaRequest) :
    Sound codec (s.deleteIfUnreferenced codec request).1 := by
  rcases @deleteIfUnreferenced_cases codec s request with
    hsame | ⟨hhash, hfind, hfree, deleted, hdeleted⟩
  · rw [hsame]
    exact h
  · rw [hdeleted]
    exact h.remove hhash hfind hfree rfl rfl

theorem mem_attached {α : Type} [DecidableEq α] {links : List α} {link other : α}
    (hmem : other ∈ attached links link) : other ∈ links ∨ other = link := by
  unfold attached at hmem
  split_ifs at hmem
  · exact .inl hmem
  · simpa using hmem

/-- Only media that exist get a reference. -/
theorem Sound.setMessageMedia (h : Sound codec s) {messageMedia : List (ℕ × ℕ)}
    (hlinks : ∀ link ∈ messageMedia, link ∈ s.messageMedia ∨ (s.findMedia link.2).isSome) :
    Sound codec { s with messageMedia } :=
  { h with
    messageRows := fun link hlink => by
      rcases hlinks link hlink with hold | hfound
      · exact h.messageRows link hold
      · obtain ⟨media, hmedia, hid⟩ := List.find?_isSome.mp hfound
        exact ⟨media, hmedia, of_decide_eq_true hid⟩ }

theorem Sound.setOutboxRefs (h : Sound codec s) {outboxRefs : List (String × ℕ)}
    (hlinks : ∀ link ∈ outboxRefs, link ∈ s.outboxRefs ∨ (s.findMedia link.2).isSome) :
    Sound codec { s with outboxRefs } :=
  { h with
    outboxRows := fun link hlink => by
      rcases hlinks link hlink with hold | hfound
      · exact h.outboxRows link hold
      · obtain ⟨media, hmedia, hid⟩ := List.find?_isSome.mp hfound
        exact ⟨media, hmedia, of_decide_eq_true hid⟩ }

theorem Sound.step (h : Sound codec s) (hlossless : codec.Lossless) {event : MediaEvent}
    (hsafe : s.misreads codec event = false) : Sound codec (s.step codec event) := by
  cases event with
  | submitCreate request => exact h.submitCreate request
  | readPayloads call data thumbnail metadata => exact h.readPayloads call data thumbnail metadata
  | failCreate call => exact h.dropPending call
  | admitCreate call => exact h.admitCreate hlossless call hsafe
  | bindToOperation request => exact h.bindToOperation request
  | deleteIfUnreferenced request => exact h.deleteIfUnreferenced request
  | createMedia filename contentType data gzip => exact h.createMedia filename contentType data gzip
  | attachToMessage message mediaId =>
    simp only [OperationMediaStore.step]
    split_ifs with hfound
    · refine h.setMessageMedia fun link hlink => ?_
      rcases mem_attached hlink with hold | rfl
      · exact .inl hold
      · exact .inr hfound
    · exact h
  | detachFromMessage message mediaId =>
    exact h.setMessageMedia fun link hlink => .inl (List.mem_of_mem_filter hlink)
  | attachToOutbox outbox mediaId =>
    simp only [OperationMediaStore.step]
    split_ifs with hfound
    · refine h.setOutboxRefs fun link hlink => ?_
      rcases mem_attached hlink with hold | rfl
      · exact .inl hold
      · exact .inr hfound
    · exact h
  | detachFromOutbox outbox mediaId =>
    exact h.setOutboxRefs fun link hlink => .inl (List.mem_of_mem_filter hlink)
  | cleanUp mediaIds =>
    simp only [OperationMediaStore.step]
    cases hclean : s.deleteUnreferencedMedia mediaIds with
    | none => exact h
    | some cleaned => exact h.cleanUp hclean

/-- By induction on the run. -/
theorem Sound.run (hlossless : codec.Lossless) {events : List MediaEvent} :
    ∀ {s : OperationMediaStore}, Sound codec s → SafeRun codec s events →
      Sound codec (s.run codec events) := by
  induction events with
  | nil => exact fun h _ => h
  | cons event events ih => exact fun h hsafe => ih (h.step hlossless hsafe.1) hsafe.2

/-- A request that committed is answered alike, and the store stays as it is. -/
def AnswersAgain (codec : MediaCodec) (s : OperationMediaStore) : MediaCommit → Prop
  | .create request ref => s.submitCreate codec request = (s, some (.ok ref))
  | .bind request binding => s.bindToOperation codec request = (s, .ok binding)
  | .delete request deleted => s.deleteIfUnreferenced codec request = (s, .ok deleted)

theorem Sound.answersAgain (h : Sound codec s) {commit : MediaCommit}
    (hcommit : commit ∈ s.commits) : s.AnswersAgain codec commit := by
  cases commit with
  | create request ref =>
    obtain ⟨hhash, hsha256⟩ := h.hashed _ hcommit
    have hfind : s.findUploadByKey request.effect.idempotencyKey =
        some (uploadRow request ref.mediaId) := find_keyed h.keys (h.upload_mem hcommit)
    have hreconcile : reconcileCreate request (uploadRow request ref.mediaId) = .ok ref := by
      simp [reconcileCreate, uploadRow, ← hsha256]
    change s.submitCreate codec request = (s, some (.ok ref))
    unfold OperationMediaStore.submitCreate
    rw [if_neg (not_not.mpr hhash), hfind]
    exact congrArg (fun answer => (s, some answer)) hreconcile
  | bind request binding =>
    have hhash : request.effect.requestHash = codec.hashBind request := h.hashed _ hcommit
    obtain ⟨row, hfind, hrow, hbinding⟩ := h.bound request binding hcommit
    change s.bindToOperation codec request = (s, .ok binding)
    unfold OperationMediaStore.bindToOperation
    rw [if_neg (not_not.mpr hhash), hfind]
    simp [hrow, hbinding]
  | delete request deleted =>
    have hhash : request.effect.requestHash = codec.hashDelete request := h.hashed _ hcommit
    obtain ⟨row, hfind, hrow, hdeleted⟩ := h.logged request deleted hcommit
    change s.deleteIfUnreferenced codec request = (s, .ok deleted)
    unfold OperationMediaStore.deleteIfUnreferenced
    rw [if_neg (not_not.mpr hhash), hfind]
    simp [hrow, hdeleted]

/-- What was created and not deleted is got. -/
theorem Sound.get_created (h : Sound codec s) {request : CreateMediaRequest} {ref : MediaRef}
    (hcommit : .create request ref ∈ s.commits)
    (hkept : ref.mediaId ∉ s.commits.filterMap MediaCommit.dropped) :
    s.get codec ref = .ok (some (storedRecord (uploadRow request ref.mediaId) request.filename
      request.contentType)) := by
  have hhistory := h.upload_mem hcommit
  have hlive : uploadRow request ref.mediaId ∈ s.uploads :=
    (h.kept _ hhistory).resolve_right hkept
  have hsha256 : request.sha256 = ref.sha256 := (h.hashed _ hcommit).2.symm
  obtain ⟨media, hmedia, hid, hfilename, hcontentType, hread⟩ := h.stored request ref hcommit hlive
  have hupload : s.findUpload ref.mediaId = some (uploadRow request ref.mediaId) := by
    cases hfind : s.findUpload ref.mediaId with
    | none => simpa [uploadRow] using List.find?_eq_none.mp hfind _ hlive
    | some found =>
      have hfound : found.mediaId = ref.mediaId := by simpa using List.find?_some hfind
      exact congrArg some (List.inj_on_of_nodup_map h.mediaIds
        (h.uploaded found (List.mem_of_find?_eq_some hfind)) hhistory hfound)
  have hrow : s.findMedia ref.mediaId = some media := hid ▸ find_keyed h.rowIds hmedia
  unfold OperationMediaStore.get
  rw [hupload, hrow]
  simp [uploadRow, hread.length, hread.digest, hsha256, hfilename, hcontentType]

/-- Only a fresh upload creates a row, and it is recorded. -/
theorem createUpload_cases (request : CreateMediaRequest) (payload : MediaPayload) :
    ((s.createUpload codec request payload).1 = s) ∨
      (∀ row ∈ s.history, row.uploadId ≠ request.uploadId ∧
        row.idempotencyKey ≠ request.effect.idempotencyKey) ∧
        ∃ media : MediaRow, (s.createUpload codec request payload).1.media = s.media ++ [media] ∧
          (s.createUpload codec request payload).1.history =
            s.history ++ [uploadRow request media.id] := by
  unfold OperationMediaStore.createUpload
  cases hkey : s.findUploadByKey request.effect.idempotencyKey with
  | some row => exact .inl rfl
  | none =>
    cases hupload : s.findUploadById request.uploadId with
    | some row => exact .inl rfl
    | none =>
      exact .inr ⟨fun row hrow => ⟨not_mem_of_findUploadById hupload row hrow,
        not_mem_of_findUploadByKey hkey row hrow⟩, _, rfl, rfl⟩

theorem admitCreate_cases (call : ℕ) :
    ((s.admitCreate codec call).1.media = s.media ∧
      (s.admitCreate codec call).1.history = s.history) ∨
      ∃ request payload, s.pending call = some ⟨request, some payload⟩ ∧
        (∀ row ∈ s.history, row.uploadId ≠ request.uploadId ∧
          row.idempotencyKey ≠ request.effect.idempotencyKey) ∧
          ∃ media : MediaRow, (s.admitCreate codec call).1.media = s.media ++ [media] ∧
            (s.admitCreate codec call).1.history = s.history ++ [uploadRow request media.id] := by
  cases hpending : s.pending call with
  | none => simp [OperationMediaStore.admitCreate, hpending]
  | some entry =>
    obtain ⟨request, _ | payload⟩ := entry
    · simp [OperationMediaStore.admitCreate, hpending]
    · rw [admitCreate_eq hpending]
      rcases @createUpload_cases codec s request payload with hsame | hcreated
      · have hmedia : (s.createUpload codec request payload).1.media = s.media := by rw [hsame]
        have hhistory : (s.createUpload codec request payload).1.history = s.history := by
          rw [hsame]
        exact .inl ⟨hmedia, hhistory⟩
      · exact .inr ⟨request, payload, rfl, hcreated⟩

/-- Media with an upload go only by a deletion that finds no reference. -/
theorem deleted_unreferenced {event : MediaEvent} {media : MediaRow} (hmedia : media ∈ s.media)
    {upload : UploadRow} (hupload : upload ∈ s.uploads) (hid : upload.mediaId = media.id)
    (hgone : media ∉ (s.step codec event).media) :
    ∃ request deleted, event = .deleteIfUnreferenced request ∧ request.mediaId = media.id ∧
      s.referenced media.id = false ∧
        (s.deleteIfUnreferenced codec request).2 = .ok deleted := by
  cases event with
  | submitCreate request =>
    have hsame : (s.submitCreate codec request).1.media = s.media := by
      unfold OperationMediaStore.submitCreate
      grind
    exact absurd (hsame ▸ hmedia) hgone
  | readPayloads call data thumbnail metadata =>
    have hsame : (s.readPayloads codec call data thumbnail metadata).1.media = s.media := by
      unfold OperationMediaStore.readPayloads
      grind
    exact absurd (hsame ▸ hmedia) hgone
  | failCreate call => exact absurd hmedia hgone
  | admitCreate call =>
    refine absurd ?_ hgone
    rcases @admitCreate_cases codec s call with ⟨hsame, -⟩ | ⟨_, _, _, _, _, hadded, -⟩
    · exact hsame ▸ hmedia
    · exact hadded ▸ List.mem_append_left _ hmedia
  | bindToOperation request =>
    have hsame : (s.bindToOperation codec request).1.media = s.media := by
      unfold OperationMediaStore.bindToOperation
      grind
    exact absurd (hsame ▸ hmedia) hgone
  | deleteIfUnreferenced request =>
    rcases @deleteIfUnreferenced_cases codec s request with
      hsame | ⟨-, -, hfree, deleted, hdeleted⟩
    · exact absurd ((congrArg OperationMediaStore.media hsame).symm ▸ hmedia) hgone
    · have hsame : media.id = request.mediaId := by
        by_contra hother
        refine hgone ?_
        simp only [OperationMediaStore.step, hdeleted]
        exact List.mem_filter.mpr ⟨hmedia, decide_eq_true hother⟩
      exact ⟨request, deleted, rfl, hsame.symm, hsame ▸ hfree, by rw [hdeleted]⟩
  | createMedia => exact absurd (List.mem_append_left _ hmedia) hgone
  | attachToMessage message mediaId =>
    simp only [OperationMediaStore.step] at hgone
    split_ifs at hgone
    · exact absurd hmedia hgone
    · exact absurd hmedia hgone
  | detachFromMessage => exact absurd hmedia hgone
  | attachToOutbox outbox mediaId =>
    simp only [OperationMediaStore.step] at hgone
    split_ifs at hgone
    · exact absurd hmedia hgone
    · exact absurd hmedia hgone
  | detachFromOutbox => exact absurd hmedia hgone
  | cleanUp mediaIds =>
    simp only [OperationMediaStore.step] at hgone
    cases hclean : s.deleteUnreferencedMedia mediaIds with
    | none =>
      rw [hclean] at hgone
      exact absurd hmedia hgone
    | some cleaned =>
      obtain ⟨rfl, hheld⟩ := deleteUnreferencedMedia_spec hclean
      simp only [hclean, Option.getD_some, List.mem_filter, hmedia, true_and, Bool.not_eq_true',
        Bool.not_eq_false] at hgone
      have hfound : (s.findUpload media.id).isSome = true :=
        List.find?_isSome.mpr ⟨upload, hupload, decide_eq_true hid⟩
      exact absurd (hheld media hmedia hgone) (by simp [held, hfound])

/-- Behind a reference are the media row and its upload. -/
theorem Sound.referenced_kept (h : Sound codec s) {mediaId : ℕ}
    (href : s.referenced mediaId = true) :
    ∃ media ∈ s.media, media.id = mediaId ∧
      ∀ row ∈ s.history, row.mediaId = mediaId → row ∈ s.uploads := by
  have hrow : ∃ media ∈ s.media, media.id = mediaId := by
    simp only [referenced, Bool.or_eq_true, List.contains_eq_mem, decide_eq_true_eq,
      List.mem_map] at href
    rcases href with (⟨row, hrow, rfl⟩ | ⟨link, hlink, rfl⟩) | ⟨link, hlink, rfl⟩
    · obtain ⟨upload, hupload, hid⟩ := h.boundUploads row hrow
      obtain ⟨media, hmedia, hmediaId⟩ := h.row_of_upload hupload
      exact ⟨media, hmedia, hmediaId.trans hid⟩
    · exact h.messageRows link hlink
    · exact h.outboxRows link hlink
  obtain ⟨media, hmedia, hid⟩ := hrow
  exact ⟨media, hmedia, hid, fun row hhistory hrowId =>
    h.live media hmedia row hhistory (hrowId.trans hid.symm)⟩

/-- In every safe run: a create makes one row for a new upload id and key, which the history
keeps; media of an upload go only by a deletion that finds no reference, and stay while there is
one; what is created and not deleted is got; and committed requests are answered alike again. -/
theorem run_keeps_media (codec : MediaCodec) (hlossless : codec.Lossless)
    (events : List MediaEvent) (hsafe : SafeRun codec initial events) :
    let s := initial.run codec events
    ((s.history.map UploadRow.idempotencyKey).Nodup ∧ (s.history.map UploadRow.uploadId).Nodup ∧
      ∀ call, ((s.admitCreate codec call).1.media = s.media ∧
          (s.admitCreate codec call).1.history = s.history) ∨
        ∃ request payload, s.pending call = some ⟨request, some payload⟩ ∧
          (∀ row ∈ s.history, row.uploadId ≠ request.uploadId ∧
            row.idempotencyKey ≠ request.effect.idempotencyKey) ∧
            ∃ media : MediaRow, (s.admitCreate codec call).1.media = s.media ++ [media] ∧
              (s.admitCreate codec call).1.history = s.history ++ [uploadRow request media.id]) ∧
    (∀ event, ∀ media ∈ s.media, (∃ upload ∈ s.uploads, upload.mediaId = media.id) →
      media ∉ (s.step codec event).media →
        ∃ request deleted, event = .deleteIfUnreferenced request ∧ request.mediaId = media.id ∧
          s.referenced media.id = false ∧
            (s.deleteIfUnreferenced codec request).2 = .ok deleted) ∧
    (∀ mediaId, s.referenced mediaId = true → ∃ media ∈ s.media, media.id = mediaId ∧
      ∀ row ∈ s.history, row.mediaId = mediaId → row ∈ s.uploads) ∧
    (∀ request ref, .create request ref ∈ s.commits →
      ref.mediaId ∉ s.commits.filterMap MediaCommit.dropped →
        s.get codec ref = .ok (some (storedRecord (uploadRow request ref.mediaId)
          request.filename request.contentType))) ∧
    ∀ commit ∈ s.commits, s.AnswersAgain codec commit := by
  have h : Sound codec (initial.run codec events) :=
    Sound.run hlossless (sound_initial codec) hsafe
  refine ⟨⟨h.keys, h.uploadIds, fun call => admitCreate_cases call⟩, ?_,
    fun mediaId href => h.referenced_kept href,
    fun request ref hcommit hkept => h.get_created hcommit hkept,
    fun commit hcommit => h.answersAgain hcommit⟩
  intro event media hmedia hupload hgone
  obtain ⟨upload, hmem, hid⟩ := hupload
  exact deleted_unreferenced hmedia hmem hid hgone

/-- The gzip stream of the one byte `x`. -/
def gzipOfX : List UInt8 :=
  [31, 139, 8, 0, 0, 0, 0, 0, 0, 3, 171, 0, 0, 131, 22, 220, 140, 1, 0, 0, 0]

def sampleCodec : MediaCodec where
  sha256Bytes bytes :=
    if bytes = gzipOfX then "5e59f6a6ade59da906eaee8bb73bf797aad45c04291ba75fb7c1a42d56e2592e"
    else "2d711642b726b04401627ca9fbac32f5c8530fb1903cc4db02258717921a4881"
  compress bytes := if bytes = [120] then some gzipOfX else none
  decompress bytes := if bytes = gzipOfX then some [120] else none
  hashCreate request := request.effect.idempotencyKey
  hashBind request := request.effect.idempotencyKey
  hashDelete request := request.effect.idempotencyKey

theorem lossless_sampleCodec : sampleCodec.Lossless where
  decompress_compress data packed hpacked := by
    have hdata : data = [120] ∧ gzipOfX = packed := by
      simpa [sampleCodec] using hpacked
    rw [hdata.1, ← hdata.2]
    rfl

def archiveRequest : CreateMediaRequest where
  effect := ⟨"create-1", "create-1", "operation"⟩
  uploadId := "upload-1"
  filename := "x.gz"
  contentType := "application/gzip"
  dataRef := "data-1"
  sha256 := "5e59f6a6ade59da906eaee8bb73bf797aad45c04291ba75fb7c1a42d56e2592e"
  byteLength := 21
  thumbnailRef := none
  metadataRef := some "metadata-1"
  createdAt := "2024-01-01T00:00:00.000Z"

def noteRequest : CreateMediaRequest where
  effect := ⟨"create-2", "create-2", "operation"⟩
  uploadId := "upload-2"
  filename := "x.txt"
  contentType := "text/plain"
  dataRef := "data-2"
  sha256 := "2d711642b726b04401627ca9fbac32f5c8530fb1903cc4db02258717921a4881"
  byteLength := 1
  thumbnailRef := none
  metadataRef := none
  createdAt := "2024-01-01T00:00:00.000Z"

def deleteNote : DeleteMediaRequest :=
  ⟨⟨"delete-1", "delete-1", "operation"⟩, 1, noteRequest.sha256⟩

/-- Two creates whose reads end in the other order; the archive is bound, and the note deleted once
no message holds it. -/
def sampleRun : List MediaEvent :=
  [.submitCreate archiveRequest, .submitCreate noteRequest,
    .readPayloads 1 (some ⟨[120], "text/plain"⟩) false none,
    .readPayloads 0 (some ⟨gzipOfX, "application/gzip"⟩) false (some false),
    .admitCreate 1, .admitCreate 0,
    .bindToOperation ⟨⟨"bind-1", "bind-1", "operation"⟩, 2, "draft", "2024-01-01T00:00:01.000Z"⟩,
    .attachToMessage 7 1, .deleteIfUnreferenced deleteNote, .detachFromMessage 7 1,
    .deleteIfUnreferenced deleteNote, .cleanUp [1, 2]]

theorem run_keeps_media_sample :
    (initial.run sampleCodec sampleRun).get sampleCodec ⟨2, archiveRequest.sha256⟩ =
        .ok (some (storedRecord (uploadRow archiveRequest 2) "x.gz" "application/gzip")) ∧
      (initial.run sampleCodec sampleRun).AnswersAgain sampleCodec (.delete deleteNote true) := by
  have hkept := run_keeps_media sampleCodec lossless_sampleCodec sampleRun
    ⟨rfl, rfl, rfl, rfl, rfl, rfl, rfl, rfl, rfl, rfl, rfl, rfl, trivial⟩
  exact ⟨hkept.2.2.2.1 archiveRequest ⟨2, archiveRequest.sha256⟩ (by decide) (by decide),
    hkept.2.2.2.2 (.delete deleteNote true) (by decide)⟩

/-- Metadata that call an archive compressed make `get` read what is in the archive. -/
theorem archive_misread :
    let s := initial.run sampleCodec [.submitCreate archiveRequest,
      .readPayloads 0 (some ⟨gzipOfX, "application/gzip"⟩) false (some true), .admitCreate 0]
    sampleCodec.Lossless ∧ .create archiveRequest ⟨1, archiveRequest.sha256⟩ ∈ s.commits ∧
      1 ∉ s.commits.filterMap MediaCommit.dropped ∧
        s.get sampleCodec ⟨1, archiveRequest.sha256⟩ = .refused .digestMismatch :=
  ⟨lossless_sampleCodec, by decide, by decide, by decide⟩

end OperationMediaStore
end Piclaw
