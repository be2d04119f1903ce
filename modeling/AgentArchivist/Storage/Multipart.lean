import AgentArchivist.Storage.RawWrite

/-! # The streaming multipart writer

One session: chunks of any size are cut into parts of `PART_BYTES`, and the session
ends with `commit` or `abort`. The methods that borrow the writer return it beside
their result, since what they wrote before a failure stays; the methods that consume
it end with `Drop`. -/
namespace AgentArchivist.Storage.Multipart
open Protocol
open ObjectKey Vocabulary Storage.RawWrite

def PART_BYTES : Nat := 8 * 1024 * 1024

def partBound : StorageError :=
  ⟨.malformedInput, "part count exceeds the portable multipart bound"⟩
def deadSession : StorageError := ⟨.malformedInput, "multipart session is no longer usable"⟩
def finishedStream : StorageError := ⟨.malformedInput, "multipart stream already finished"⟩
def unfinishedStream : StorageError := ⟨.malformedInput, "finish the stream before committing"⟩
def emptyStream : StorageError :=
  ⟨.malformedInput, "an empty stream cannot complete a content-addressed object"⟩
def wrongCommitment : StorageError :=
  ⟨.malformedInput, "backend returned a commitment for a different part"⟩

structure MultipartWriterError where
  failure : StorageError
  cleanup : Option StorageError
deriving DecidableEq

inductive Session where
  | live
  | flushed
  | failed
deriving DecidableEq

structure MultipartWriter where
  upload : MultipartUploadId
  blob : BlobObjectKey
  buffer : List UInt8
  nextOrdinal : Nat
  parts : List PartCommitment
  uploadedBytes : Nat
  session : Session
  terminal : Bool

/-- The next part ordinal, while there is one. -/
def partOrdinal (next : Nat) : Option PartNumber :=
  if next < 2 ^ 16 then (PartNumber.new next).toOption else none

namespace MultipartWriter

def begin (blob : BlobObjectKey) : StoreM (Except MultipartWriterError MultipartWriter) := do
  match ← beginMultipart blob with
  | .error failure => pure (.error ⟨failure, none⟩)
  | .ok upload =>
    register upload
    pure (.ok
      { upload, blob, buffer := [], nextOrdinal := 1, parts := [], uploadedBytes := 0,
        session := .live, terminal := false })

def terminateByAbort (w : MultipartWriter) : StoreM (Except StorageError Unit × MultipartWriter) := do
  match ← abortMultipart w.upload with
  | .ok () =>
    release w.upload
    pure (.ok (), { w with terminal := true })
  | .error error =>
    abandon w.upload
    pure (.error error, w)

/-- Mark the session failed, abort it and report both failures. -/
def fail (w : MultipartWriter) (failure : StorageError) :
    StoreM (MultipartWriterError × MultipartWriter) := do
  match ← terminateByAbort { w with session := .failed } with
  | (.ok (), w) => pure (⟨failure, none⟩, w)
  | (.error cleanup, w) => pure (⟨failure, some cleanup⟩, w)

/-- `return Err(self.fail(failure).await)`. -/
def refuse {α : Type} (w : MultipartWriter) (failure : StorageError) :
    StoreM (Except MultipartWriterError α × MultipartWriter) := do
  let (error, w) ← w.fail failure
  pure (.error error, w)

/-- Send `len` bytes from the front of the buffer as the next part. -/
def uploadPart (w : MultipartWriter) (len : Nat) :
    StoreM (Except MultipartWriterError Unit × MultipartWriter) :=
  match partOrdinal w.nextOrdinal with
  | none => w.refuse partBound
  | some number => do
    match ← writePart w.upload number (w.buffer.take len) with
    | .error failure => w.refuse failure
    | .ok commitment =>
      if commitment.number ≠ number then w.refuse wrongCommitment
      else pure (.ok (),
        { w with nextOrdinal := w.nextOrdinal + 1, uploadedBytes := w.uploadedBytes + len,
                 parts := w.parts ++ [commitment], buffer := w.buffer.drop len })

/-- The loop of `write_chunk` over what is left of the chunk. A turn consumes at least one byte,
or sends a full part first, so that one turn more than there are bytes is enough. -/
def writeLoop : Nat → MultipartWriter → List UInt8 →
    StoreM (Except MultipartWriterError Unit × MultipartWriter)
  | 0, w, _ => pure (.ok (), w)
  | turns + 1, w, rest =>
    if rest = [] then pure (.ok (), w)
    else
      let take := min (PART_BYTES - w.buffer.length) rest.length
      let w := { w with buffer := w.buffer ++ rest.take take }
      if w.buffer.length = PART_BYTES then do
        match ← w.uploadPart PART_BYTES with
        | (.error error, w) => pure (.error error, w)
        | (.ok (), w) => writeLoop turns w (rest.drop take)
      else writeLoop turns w (rest.drop take)

def writeChunk (w : MultipartWriter) (chunk : List UInt8) :
    StoreM (Except MultipartWriterError Unit × MultipartWriter) :=
  match w.session with
  | .failed => pure (.error ⟨deadSession, none⟩, w)
  | .flushed => pure (.error ⟨finishedStream, none⟩, w)
  | .live => writeLoop (chunk.length + 1) w chunk

def finish (w : MultipartWriter) : StoreM (Except MultipartWriterError Unit × MultipartWriter) :=
  match w.session with
  | .live =>
    if w.buffer.length > 0 then do
      match ← w.uploadPart w.buffer.length with
      | (.error error, w) => pure (.error error, w)
      | (.ok (), w) => pure (.ok (), { w with session := .flushed })
    else pure (.ok (), { w with session := .flushed })
  | .flushed => pure (.ok (), w)
  | .failed => pure (.error ⟨deadSession, none⟩, w)

def drop (w : MultipartWriter) : StoreM Unit :=
  if w.terminal then pure () else abandon w.upload

/-- The body of `commit`, before the writer is dropped. -/
def complete (w : MultipartWriter) :
    StoreM (Except MultipartWriterError StorageOutcome × MultipartWriter) :=
  if w.session = .failed then pure (.error ⟨deadSession, none⟩, w)
  else if w.buffer ≠ [] then w.refuse unfinishedStream
  else if w.parts = [] then w.refuse emptyStream
  else do
    match ← commitMultipart w.upload w.parts with
    | .ok outcome =>
      release w.upload
      pure (.ok outcome, { w with terminal := true })
    | .error failure => w.refuse failure

def commit (w : MultipartWriter) : StoreM (Except MultipartWriterError StorageOutcome) := do
  let (result, w) ← w.complete
  w.drop
  pure result

def abort (w : MultipartWriter) : StoreM (Except StorageError Unit) := do
  let (result, w) ← w.terminateByAbort
  w.drop
  pure result

end MultipartWriter

/-! ## The registry of open uploads -/

structure RegistryEntry where
  upload : MultipartUploadId
  abandoned : Bool
deriving DecidableEq

namespace OpenUploads

def register (entries : List RegistryEntry) (upload : MultipartUploadId) : List RegistryEntry :=
  entries ++ [⟨upload, false⟩]

def release (entries : List RegistryEntry) (upload : MultipartUploadId) : List RegistryEntry :=
  entries.filter fun entry => entry.upload ≠ upload

/-- The first entry of the upload is flagged. -/
def abandon : List RegistryEntry → MultipartUploadId → List RegistryEntry
  | [], _ => []
  | entry :: rest, upload =>
    if entry.upload = upload then { entry with abandoned := true } :: rest
    else entry :: abandon rest upload

def abandonedUploads (entries : List RegistryEntry) : List MultipartUploadId :=
  (entries.filter (·.abandoned)).map (·.upload)

end OpenUploads

structure CleanupFailure where
  upload : MultipartUploadId
  error : StorageError
deriving DecidableEq

/-- Abort the targets one by one; those whose abort failed are reported. -/
def abortTargets : List MultipartUploadId → StoreM (List CleanupFailure)
  | [] => pure []
  | upload :: rest => do
    match ← abortMultipart upload with
    | .ok () =>
      release upload
      abortTargets rest
    | .error error =>
      let failures ← abortTargets rest
      pure (⟨upload, error⟩ :: failures)

def abortAbandoned : StoreM (List CleanupFailure) := do
  let targets ← abandoned
  abortTargets targets

end AgentArchivist.Storage.Multipart
