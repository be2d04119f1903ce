import AgentArchivist.Lib.Word
import AgentArchivist.Protocol.Derivation
import AgentArchivist.Storage.Multipart

/-! # The content-addressed blob commit

The canonical stream goes through the encoder into one multipart session under the
claimed address, and the session is completed only after the digest and the size of
the stream were found to be the declared ones. -/
namespace AgentArchivist.Storage.Blob
open Lib Protocol
open Word Derivation ObjectKey Vocabulary Multipart RawWrite

def digestMismatch : StorageError :=
  ⟨.integrityConflict, "computed canonical digest does not match the declared blob digest"⟩
def sizeMismatch : StorageError :=
  ⟨.malformedInput, "decoded canonical size does not match the declared size"⟩

structure BlobExpectation where
  content : BlobDigest
  uncompressedBytes : UInt64
deriving DecidableEq

/-- The storage transform that the caller supplies, over its own states. -/
structure BlobEncoder (ε : Type) where
  update : ε → Slice → ε × Except StorageError (List UInt8)
  finish : ε → Except StorageError (List UInt8)

structure BlobCommit where
  key : BlobObjectKey
  outcome : StorageOutcome
  uncompressedBytes : UInt64
  storedBytes : UInt64
  storedSha256 : List UInt8
  parts : Nat
deriving DecidableEq

structure BlobCommitError where
  failure : StorageError
  cleanup : Option StorageError
deriving DecidableEq

def BlobCommitError.ofWriter (error : MultipartWriterError) : BlobCommitError :=
  ⟨error.failure, error.cleanup⟩

/-- The local variables of `commit_blob` while it streams. -/
structure Streaming (ε : Type) where
  writer : MultipartWriter
  encoder : ε
  canonicalHasher : Sha256.Hasher
  canonicalBytes : UInt64
  storedHasher : Sha256.Hasher
  storedBytes : UInt64

/-- Abort the writer because of `failure`. -/
def abortWriter (writer : MultipartWriter) (failure : StorageError) : StoreM BlobCommitError := do
  match ← writer.abort with
  | .ok () => pure ⟨failure, none⟩
  | .error cleanup => pure ⟨failure, some cleanup⟩

/-- Send one batch of encoded output through the writer; where it fails the writer is dropped. -/
def drainEncoded {ε : Type} (s : Streaming ε) (encoded : List UInt8) :
    StoreM (Except BlobCommitError (Streaming ε)) :=
  if encoded = [] then pure (.ok s)
  else do
    match ← s.writer.writeChunk encoded with
    | (.error error, writer) =>
      writer.drop
      pure (.error (.ofWriter error))
    | (.ok (), writer) =>
      pure (.ok
        { s with
          writer := writer
          storedHasher := Sha256.update s.storedHasher encoded
          storedBytes := saturatingAdd s.storedBytes (UInt64.ofNat encoded.length) })

def Streaming.read {ε : Type} (s : Streaming ε) (chunk : Slice) (encoder : ε) : Streaming ε :=
  { s with
    canonicalHasher := Sha256.update s.canonicalHasher chunk.bytes
    canonicalBytes := saturatingAdd s.canonicalBytes (UInt64.ofNat chunk.bytes.length)
    encoder := encoder }

/-- The loop over the canonical chunks. -/
def streamChunks {ε : Type} (encoder : BlobEncoder ε) :
    List Slice → Streaming ε → StoreM (Except BlobCommitError (Streaming ε))
  | [], s => pure (.ok s)
  | chunk :: rest, s =>
    match encoder.update s.encoder chunk with
    | (_, .error failure) => do
      let error ← abortWriter s.writer failure
      pure (.error error)
    | (state, .ok stored) => do
      match ← drainEncoded (s.read chunk state) stored with
      | .error error => pure (.error error)
      | .ok s => streamChunks encoder rest s

/-- The end of the stream: the encoder's last output, then the writer's last part. -/
def finishStream {ε : Type} (encoder : BlobEncoder ε) (s : Streaming ε) :
    StoreM (Except BlobCommitError (Streaming ε)) :=
  match encoder.finish s.encoder with
  | .error failure => do
    let error ← abortWriter s.writer failure
    pure (.error error)
  | .ok stored => do
    match ← drainEncoded s stored with
    | .error error => pure (.error error)
    | .ok s =>
      match ← s.writer.finish with
      | (.error error, writer) =>
        writer.drop
        pure (.error (.ofWriter error))
      | (.ok (), writer) => pure (.ok { s with writer := writer })

/-- Validate before complete. -/
def validateAndCommit {ε : Type} (key : BlobObjectKey) (expectation : BlobExpectation)
    (s : Streaming ε) : StoreM (Except BlobCommitError BlobCommit) :=
  if Sha256.finalize s.canonicalHasher ≠ expectation.content.raw then do
    let error ← abortWriter s.writer digestMismatch
    pure (.error error)
  else if s.canonicalBytes ≠ expectation.uncompressedBytes then do
    let error ← abortWriter s.writer sizeMismatch
    pure (.error error)
  else do
    match ← s.writer.commit with
    | .error error => pure (.error (.ofWriter error))
    | .ok outcome =>
      pure (.ok
        { key, outcome
          uncompressedBytes := s.canonicalBytes
          storedBytes := s.storedBytes
          storedSha256 := Sha256.finalize s.storedHasher
          parts := s.writer.parts.length })

def commitBlob {ε : Type} (tenant : TenantId) (expectation : BlobExpectation)
    (encoder : BlobEncoder ε) (state : ε) (canonical : List Slice) :
    StoreM (Except BlobCommitError BlobCommit) := do
  let key := BlobObjectKey.new tenant .zstdV1 expectation.content
  match ← MultipartWriter.begin key with
  | .error error => pure (.error (.ofWriter error))
  | .ok writer =>
    let s : Streaming ε := ⟨writer, state, Sha256.new, 0, Sha256.new, 0⟩
    match ← streamChunks encoder canonical s with
    | .error error => pure (.error error)
    | .ok s =>
      match ← finishStream encoder s with
      | .error error => pure (.error error)
      | .ok s => validateAndCommit key expectation s

end AgentArchivist.Storage.Blob
