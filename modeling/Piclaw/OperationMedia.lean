import Piclaw.BranchHandles

/-!
# Media of operations

The operation media store: `create`, `bindToOperation`, `get` and `deleteIfUnreferenced` over the
media table, the live uploads, their history, three tables of references and the log of
deletions. Stored bytes pass the compression layer, which the metadata of the caller steer too.
-/

namespace Piclaw
open TextRuns

structure MediaEffect where
  idempotencyKey : String
  requestHash : String
  operationId : String
  deriving DecidableEq

structure CreateMediaRequest where
  effect : MediaEffect
  uploadId : String
  filename : String
  contentType : String
  dataRef : String
  sha256 : String
  byteLength : ℕ
  thumbnailRef : Option String
  metadataRef : Option String
  createdAt : String
  deriving DecidableEq

structure BindOperationMediaRequest where
  effect : MediaEffect
  mediaId : ℕ
  role : String
  boundAt : String
  deriving DecidableEq

structure DeleteMediaRequest where
  effect : MediaEffect
  mediaId : ℕ
  expectedSha256 : String
  deriving DecidableEq

/-- The digest, the gzip functions of the platform, where `none` is a throw, and the canonical
hash of each kind of request. -/
structure MediaCodec where
  sha256Bytes : List UInt8 → String
  compress : List UInt8 → Option (List UInt8)
  decompress : List UInt8 → Option (List UInt8)
  hashCreate : CreateMediaRequest → String
  hashBind : BindOperationMediaRequest → String
  hashDelete : DeleteMediaRequest → String

/-- What is decompressed is what was compressed. -/
structure MediaCodec.Lossless (codec : MediaCodec) : Prop where
  decompress_compress : ∀ data packed, codec.compress data = some packed →
    codec.decompress packed = some data

/-- `gzip` says whether the metadata of the row have `compressed: "gzip"`. -/
structure MediaRow where
  id : ℕ
  filename : String
  contentType : String
  data : List UInt8
  gzip : Bool
  deriving DecidableEq

structure UploadRow where
  idempotencyKey : String
  requestHash : String
  uploadId : String
  mediaId : ℕ
  sha256 : String
  byteLength : ℕ
  dataRef : String
  thumbnailRef : Option String
  metadataRef : Option String
  createdAt : String
  deriving DecidableEq

structure BindingRow where
  idempotencyKey : String
  requestHash : String
  operationId : String
  mediaId : ℕ
  role : String
  boundAt : String
  deriving DecidableEq

structure DeletionRow where
  idempotencyKey : String
  requestHash : String
  mediaId : ℕ
  expectedSha256 : String
  deleted : Bool
  deriving DecidableEq

inductive MediaStoreErrorTag
  | idempotencyConflict
  | digestMismatch
  | unsupportedMedia
  | mediaNotFound
  | bindingConflict
  | stillReferenced
  | storageUnavailable
  deriving DecidableEq

structure MediaRef where
  mediaId : ℕ
  sha256 : String
  deriving DecidableEq

structure OperationMediaBinding where
  operationId : String
  mediaId : ℕ
  role : String
  boundAt : String
  deriving DecidableEq

structure StoredMediaRecord where
  ref : MediaRef
  filename : String
  contentType : String
  byteLength : ℕ
  dataRef : String
  thumbnailRef : Option String
  metadataRef : Option String
  createdAt : String
  deriving DecidableEq

/-- A value, or an error of which the caller knows that nothing was applied, or one of which he
does not. -/
inductive MediaAnswer (α : Type)
  | ok (value : α)
  | refused (tag : MediaStoreErrorTag)
  | unknown
  deriving DecidableEq

/-- What `create` reads before its transaction: the payloads and whether the metadata have
`compressed: "gzip"`. -/
structure MediaPayload where
  data : List UInt8
  gzip : Bool
  deriving DecidableEq

structure PendingCreate where
  request : CreateMediaRequest
  payload : Option MediaPayload
  deriving DecidableEq

/-- What the resolver gives for the reference of the data, its length and its digest verified. -/
structure VerifiedData where
  bytes : List UInt8
  mediaType : String
  deriving DecidableEq

/-- A committed request with the value it committed. -/
inductive MediaCommit
  | create (request : CreateMediaRequest) (ref : MediaRef)
  | bind (request : BindOperationMediaRequest) (binding : OperationMediaBinding)
  | delete (request : DeleteMediaRequest) (deleted : Bool)
  deriving DecidableEq

/-- `commits` is a history. -/
structure OperationMediaStore where
  media : List MediaRow
  mediaSequence : ℕ
  history : List UploadRow
  uploads : List UploadRow
  bindings : List BindingRow
  messageMedia : List (ℕ × ℕ)
  outboxRefs : List (String × ℕ)
  deletions : List DeletionRow
  nextCall : ℕ
  pending : ℕ → Option PendingCreate
  commits : List MediaCommit

namespace OperationMediaStore

def skipCompression : List String :=
  ["image/png", "image/jpeg", "image/jpg", "image/gif", "image/webp", "image/avif", "image/bmp",
    "image/tiff", "audio/mpeg", "audio/ogg", "audio/wav", "audio/webm", "video/mp4", "video/webm",
    "video/ogg", "application/zip", "application/gzip", "application/x-gzip",
    "application/x-bzip2", "application/x-xz", "application/x-7z-compressed",
    "application/x-rar-compressed", "application/x-tar", "application/pdf", "application/wasm"]

def compressibleTypes : List String :=
  ["application/json", "application/xml", "application/javascript", "application/x-yaml",
    "application/yaml"]

def isCompressible (contentType : String) : Bool :=
  let ct := String.ofList ((stripEnds isTrimmed
    (contentType.toList.takeWhile fun c => decide (c ≠ ';'))).map Char.toLower)
  !skipCompression.contains ct &&
    ("text/".toList.isPrefixOf ct.toList || "image/svg".toList.isPrefixOf ct.toList ||
      compressibleTypes.contains ct)

/-- What the store makes of data whose compression helps; `none` keeps them raw. -/
def packed (codec : MediaCodec) (data : List UInt8) (contentType : String) :
    Option (List UInt8) :=
  if !isCompressible contentType || decide (data.length < 256) then none
  else (codec.compress data).filter fun packed => decide (packed.length < data.length)

/-- `maybeCompress`: the bytes and the flag that are stored. -/
def maybeCompress (codec : MediaCodec) (data : List UInt8) (contentType : String) (gzip : Bool) :
    List UInt8 × Bool :=
  match packed codec data contentType with
  | some packed => (packed, true)
  | none => (data, gzip)

def maybeDecompress (codec : MediaCodec) (data : List UInt8) (gzip : Bool) : List UInt8 :=
  if gzip then (codec.decompress data).getD data else data

/-- Attaching again changes nothing. -/
def attached {α : Type} [DecidableEq α] (links : List α) (link : α) : List α :=
  if link ∈ links then links else links ++ [link]

def initial : OperationMediaStore :=
  ⟨[], 0, [], [], [], [], [], [], 0, fun _ => none, []⟩

section Lookups
variable (s : OperationMediaStore)

def findUploadByKey (idempotencyKey : String) : Option UploadRow :=
  s.history.find? fun row => decide (row.idempotencyKey = idempotencyKey)

def findUploadById (uploadId : String) : Option UploadRow :=
  s.history.find? fun row => decide (row.uploadId = uploadId)

def findUpload (mediaId : ℕ) : Option UploadRow :=
  s.uploads.find? fun row => decide (row.mediaId = mediaId)

def findMedia (mediaId : ℕ) : Option MediaRow :=
  s.media.find? fun row => decide (row.id = mediaId)

def findBindingByKey (idempotencyKey : String) : Option BindingRow :=
  s.bindings.find? fun row => decide (row.idempotencyKey = idempotencyKey)

def findBinding (operationId : String) (mediaId : ℕ) (role : String) : Option BindingRow :=
  s.bindings.find? fun row => decide (row.operationId = operationId) &&
    decide (row.mediaId = mediaId) && decide (row.role = role)

def findDeletion (idempotencyKey : String) : Option DeletionRow :=
  s.deletions.find? fun row => decide (row.idempotencyKey = idempotencyKey)

/-- An operation, a message or an outbox row holds the media row. -/
def referenced (mediaId : ℕ) : Bool :=
  (s.bindings.map BindingRow.mediaId).contains mediaId ||
    (s.messageMedia.map Prod.snd).contains mediaId ||
      (s.outboxRefs.map Prod.snd).contains mediaId

end Lookups

def validCreateRequest (request : CreateMediaRequest) : Bool :=
  decide (request.uploadId ≠ "") && decide (request.filename ≠ "") &&
    decide (request.contentType ≠ "") && decide (request.dataRef ≠ "") &&
    decide (request.byteLength ≤ 9007199254740991) && decide (request.sha256.length = 64) &&
    request.sha256.toList.all fun c =>
      ('a' ≤ c && c ≤ 'f') || ('0' ≤ c && c ≤ '9')

def reconcileCreate (request : CreateMediaRequest) (row : UploadRow) : MediaAnswer MediaRef :=
  if row.sha256 ≠ request.sha256 ∨ row.byteLength ≠ request.byteLength then
    .refused .digestMismatch
  else if row.requestHash = request.effect.requestHash then .ok ⟨row.mediaId, row.sha256⟩
  else .refused .idempotencyConflict

/-- The row of a created upload. -/
def uploadRow (request : CreateMediaRequest) (mediaId : ℕ) : UploadRow where
  idempotencyKey := request.effect.idempotencyKey
  requestHash := request.effect.requestHash
  uploadId := request.uploadId
  mediaId := mediaId
  sha256 := request.sha256
  byteLength := request.byteLength
  dataRef := request.dataRef
  thumbnailRef := request.thumbnailRef
  metadataRef := request.metadataRef
  createdAt := request.createdAt

def bindingFromRow (row : BindingRow) : OperationMediaBinding :=
  ⟨row.operationId, row.mediaId, row.role, row.boundAt⟩

def storedRecord (upload : UploadRow) (filename contentType : String) : StoredMediaRecord where
  ref := ⟨upload.mediaId, upload.sha256⟩
  filename := filename
  contentType := contentType
  byteLength := upload.byteLength
  dataRef := upload.dataRef
  thumbnailRef := upload.thumbnailRef
  metadataRef := upload.metadataRef
  createdAt := upload.createdAt

section Operations
variable (codec : MediaCodec) (s : OperationMediaStore)

/-- `AUTOINCREMENT` gives no id twice. -/
def createMedia (filename contentType : String) (data : List UInt8) (gzip : Bool) :
    OperationMediaStore :=
  { s with
    media := s.media ++ [⟨s.mediaSequence + 1, filename, contentType,
      (maybeCompress codec data contentType gzip).1, (maybeCompress codec data contentType gzip).2⟩]
    mediaSequence := s.mediaSequence + 1 }

/-- `create` until it reads the payloads; no answer means that it goes on. -/
def submitCreate (request : CreateMediaRequest) :
    OperationMediaStore × Option (MediaAnswer MediaRef) :=
  if request.effect.requestHash ≠ codec.hashCreate request then
    (s, some (.refused .idempotencyConflict))
  else match (s.findUploadByKey request.effect.idempotencyKey).or
      (s.findUploadById request.uploadId) with
  | some row => (s, some (reconcileCreate request row))
  | none =>
    if !validCreateRequest request then (s, some (.refused .unsupportedMedia))
    else ({ s with
      nextCall := s.nextCall + 1
      pending := Function.update s.pending s.nextCall (some ⟨request, none⟩) }, none)

/-- `create` has read the payloads: the data, whether the thumbnail was there, and of metadata
that are a JSON object whether they have `compressed: "gzip"`. -/
def readPayloads (call : ℕ) (data : Option VerifiedData) (thumbnail : Bool)
    (metadata : Option Bool) : OperationMediaStore × Option (MediaAnswer MediaRef) :=
  match s.pending call with
  | some ⟨request, none⟩ =>
    let refuse tag := ({ s with pending := Function.update s.pending call none },
      some (MediaAnswer.refused tag))
    match data with
    | none => refuse .digestMismatch
    | some data =>
      if codec.sha256Bytes data.bytes ≠ request.sha256 ∨ data.bytes.length ≠ request.byteLength then
        refuse .digestMismatch
      else if data.mediaType ≠ request.contentType then refuse .unsupportedMedia
      else if request.thumbnailRef.any (fun ref => decide (ref ≠ "")) && !thumbnail then
        refuse .unsupportedMedia
      else if request.metadataRef.any (fun ref => decide (ref ≠ "")) then
        match metadata with
        | none => refuse .unsupportedMedia
        | some gzip =>
          ({ s with
              pending := Function.update s.pending call
                (some ⟨request, some ⟨data.bytes, gzip⟩⟩) }, none)
      else
        ({ s with
            pending := Function.update s.pending call
              (some ⟨request, some ⟨data.bytes, false⟩⟩) }, none)
  | _ => (s, none)

/-- The transaction of `create`. -/
def createUpload (request : CreateMediaRequest) (payload : MediaPayload) :
    OperationMediaStore × MediaAnswer MediaRef :=
  match s.findUploadByKey request.effect.idempotencyKey with
  | some row =>
    (s, if row.requestHash = request.effect.requestHash then .ok ⟨row.mediaId, row.sha256⟩
      else .refused .idempotencyConflict)
  | none =>
    match s.findUploadById request.uploadId with
    | some row => (s, reconcileCreate request row)
    | none =>
      let row := uploadRow request (s.mediaSequence + 1)
      let ref : MediaRef := ⟨s.mediaSequence + 1, request.sha256⟩
      ({ s.createMedia codec request.filename request.contentType payload.data payload.gzip with
          history := s.history ++ [row]
          uploads := s.uploads ++ [row]
          commits := s.commits ++ [.create request ref] }, .ok ref)

/-- A call whose payloads are read is admitted to its transaction. -/
def admitCreate (call : ℕ) : OperationMediaStore × Option (MediaAnswer MediaRef) :=
  match s.pending call with
  | some ⟨request, some payload⟩ =>
    let outcome := s.createUpload codec request payload
    ({ outcome.1 with pending := Function.update s.pending call none }, some outcome.2)
  | _ => (s, none)

def bindToOperation (request : BindOperationMediaRequest) :
    OperationMediaStore × MediaAnswer OperationMediaBinding :=
  if request.effect.requestHash ≠ codec.hashBind request then (s, .refused .idempotencyConflict)
  else match s.findBindingByKey request.effect.idempotencyKey with
  | some row =>
    (s, if row.requestHash = request.effect.requestHash then .ok (bindingFromRow row)
      else .refused .idempotencyConflict)
  | none =>
    if (s.findUpload request.mediaId).isNone then (s, .refused .mediaNotFound)
    else match s.findBinding request.effect.operationId request.mediaId request.role with
      | some row =>
        (s, if row.requestHash = request.effect.requestHash then .ok (bindingFromRow row)
          else .refused .bindingConflict)
      | none =>
        let row : BindingRow := ⟨request.effect.idempotencyKey, request.effect.requestHash,
          request.effect.operationId, request.mediaId, request.role, request.boundAt⟩
        ({ s with
            bindings := s.bindings ++ [row]
            commits := s.commits ++ [.bind request (bindingFromRow row)] },
          .ok (bindingFromRow row))

/-- `DELETE FROM media` takes these rows, which no message holds. -/
def removable (mediaIds : List ℕ) (row : MediaRow) : Bool :=
  decide (row.id ∈ mediaIds) && !(s.messageMedia.map Prod.snd).contains row.id

/-- A foreign key of an upload, a binding or an outbox row refers to the row. -/
def held (row : MediaRow) : Bool :=
  (s.findUpload row.id).isSome || (s.bindings.map BindingRow.mediaId).contains row.id ||
    (s.outboxRefs.map Prod.snd).contains row.id

/-- It fails as a whole where a foreign key refers to one of the rows. -/
def deleteUnreferencedMedia (mediaIds : List ℕ) : Option OperationMediaStore :=
  if s.media.any fun row => s.removable mediaIds row && s.held row then none
  else some { s with media := s.media.filter fun row => !s.removable mediaIds row }

/-- The transaction of `deleteIfUnreferenced`; a throw leaves the store as it was. -/
def deleteIfUnreferenced (request : DeleteMediaRequest) :
    OperationMediaStore × MediaAnswer Bool :=
  if request.effect.requestHash ≠ codec.hashDelete request then (s, .refused .idempotencyConflict)
  else match s.findDeletion request.effect.idempotencyKey with
  | some row =>
    (s, if row.requestHash = request.effect.requestHash then .ok row.deleted
      else .refused .idempotencyConflict)
  | none =>
    match s.findUpload request.mediaId with
    | none => (s, .refused .mediaNotFound)
    | some upload =>
      if upload.sha256 ≠ request.expectedSha256 then (s, .refused .digestMismatch)
      else if s.referenced request.mediaId then (s, .refused .stillReferenced)
      else
        let dropped : OperationMediaStore := { s with
          uploads := s.uploads.filter fun row => decide (row.mediaId ≠ request.mediaId) }
        match dropped.deleteUnreferencedMedia [request.mediaId] with
        | none => (s, .unknown)
        | some cleaned =>
          let deleted := decide (cleaned.media.length + 1 = s.media.length)
          ({ cleaned with
              deletions := s.deletions ++ [⟨request.effect.idempotencyKey,
                request.effect.requestHash, request.mediaId, request.expectedSha256, deleted⟩]
              commits := s.commits ++ [.delete request deleted] }, .ok deleted)

def get (ref : MediaRef) : MediaAnswer (Option StoredMediaRecord) :=
  match s.findUpload ref.mediaId with
  | none => .ok none
  | some upload =>
    if upload.sha256 ≠ ref.sha256 then .refused .digestMismatch
    else match s.findMedia ref.mediaId with
      | none => .refused .digestMismatch
      | some media =>
        let data := maybeDecompress codec media.data media.gzip
        if data.length ≠ upload.byteLength ∨ codec.sha256Bytes data ≠ upload.sha256 then
          .refused .digestMismatch
        else .ok (some (storedRecord upload media.filename media.contentType))

/-- Requests of which every payload read may end at any time, and what else touches the tables:
ordinary uploads, the media of messages and of the outbox, and the clean-up after messages. -/
inductive MediaEvent
  | submitCreate (request : CreateMediaRequest)
  | readPayloads (call : ℕ) (data : Option VerifiedData) (thumbnail : Bool)
    (metadata : Option Bool)
  | failCreate (call : ℕ)
  | admitCreate (call : ℕ)
  | bindToOperation (request : BindOperationMediaRequest)
  | deleteIfUnreferenced (request : DeleteMediaRequest)
  | createMedia (filename contentType : String) (data : List UInt8) (gzip : Bool)
  | attachToMessage (message mediaId : ℕ)
  | detachFromMessage (message mediaId : ℕ)
  | attachToOutbox (outbox : String) (mediaId : ℕ)
  | detachFromOutbox (outbox : String) (mediaId : ℕ)
  | cleanUp (mediaIds : List ℕ)

/-- A foreign key lets only media that exist be attached. -/
def step : MediaEvent → OperationMediaStore
  | .submitCreate request => (s.submitCreate codec request).1
  | .readPayloads call data thumbnail metadata =>
    (s.readPayloads codec call data thumbnail metadata).1
  | .failCreate call => { s with pending := Function.update s.pending call none }
  | .admitCreate call => (s.admitCreate codec call).1
  | .bindToOperation request => (s.bindToOperation codec request).1
  | .deleteIfUnreferenced request => (s.deleteIfUnreferenced codec request).1
  | .createMedia filename contentType data gzip =>
    s.createMedia codec filename contentType data gzip
  | .attachToMessage message mediaId =>
    if (s.findMedia mediaId).isSome then
      { s with messageMedia := attached s.messageMedia (message, mediaId) }
    else s
  | .detachFromMessage message mediaId =>
    { s with messageMedia := s.messageMedia.filter fun link => decide (link ≠ (message, mediaId)) }
  | .attachToOutbox outbox mediaId =>
    if (s.findMedia mediaId).isSome then
      { s with outboxRefs := attached s.outboxRefs (outbox, mediaId) }
    else s
  | .detachFromOutbox outbox mediaId =>
    { s with outboxRefs := s.outboxRefs.filter fun link => decide (link ≠ (outbox, mediaId)) }
  | .cleanUp mediaIds => (s.deleteUnreferencedMedia mediaIds).getD s

def run (events : List MediaEvent) : OperationMediaStore :=
  events.foldl (fun s event => s.step codec event) s

end Operations
end OperationMediaStore
end Piclaw
