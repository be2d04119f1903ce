import AgentArchivist.Storage.Blob
import AgentArchivist.Storage.OpenSessions

/-! # The stream of a blob commit

What the encoder makes of the canonical stream, and what the locals of the blob commit are
after a part of it: the digest and the count of what was read, and the parts sent. -/
namespace AgentArchivist.Storage.BlobStream
open Lib Protocol
open Proc Word Derivation ObjectKey Blob OpenSessions RawWrite WriterParts

def stream (canonical : List Slice) : List UInt8 := canonical.flatMap (·.bytes)

/-- All that an encoder makes of a stream. -/
def encodeFrom {ε : Type} (encoder : BlobEncoder ε) : ε → List Slice → Except StorageError (List UInt8)
  | state, [] => encoder.finish state
  | state, chunk :: rest =>
    match encoder.update state chunk with
    | (_, .error failure) => .error failure
    | (state, .ok stored) => (encodeFrom encoder state rest).map (stored ++ ·)

/-- The stored bytes are those of a stream with the declared digest and size. -/
structure Checked {ε : Type} (expectation : BlobExpectation) (encoder : BlobEncoder ε) (state : ε)
    (canonical : List Slice) (stored : List UInt8) : Prop where
  encoded : encodeFrom encoder state canonical = .ok stored
  digest : digestOf (stream canonical) = expectation.content
  size : (stream canonical).length = expectation.uncompressedBytes.toNat

/-- The session was opened for the blob. -/
def Opened (key : BlobObjectKey) (upload : MultipartUploadId) (t : Trace Store) : Prop :=
  ⟨.beginMultipart key, Except.ok upload⟩ ∈ t

theorem Opened.snoc {key upload} (t : Trace Store) (e : Event Store) (h : Opened key upload t) :
    Opened key upload (t ++ [e]) :=
  List.mem_append_left _ h

variable {ε : Type} {u : MultipartUploadId}

/-! ## Streaming -/

/-- The locals after `read`, with `out` written. -/
structure Counted (read : List Slice) (s : Streaming ε) (u : MultipartUploadId) : Prop where
  upload : s.writer.upload = u
  hasher : s.canonicalHasher = Sha256.update Sha256.new (stream read)
  count : s.canonicalBytes.toNat = min (stream read).length (2 ^ 64 - 1)

structure Streamed (read : List Slice) (out : List UInt8) (s : Streaming ε) (u : MultipartUploadId)
    (t : Trace Store) : Prop extends Counted read s u where
  live : ∃ ps, Live s.writer ps out t

variable {s : Streaming ε}

theorem Counted.read {read} (h : Counted read s u) (chunk : Slice) (state : ε) :
    Counted (read ++ [chunk]) (s.read chunk state) u := by
  have hstream : stream (read ++ [chunk]) = stream read ++ chunk.bytes := by simp [stream]
  have hlen : (UInt64.ofNat chunk.bytes.length).toNat = chunk.bytes.length :=
    UInt64.toNat_ofNat_of_lt' (Nat.lt_trans chunk.fits (by decide))
  refine ⟨h.upload, ?_, ?_⟩
  · show Sha256.update s.canonicalHasher chunk.bytes = _
    rw [h.hasher, Sha256.update_update, hstream]
  · show (saturatingAdd s.canonicalBytes (UInt64.ofNat chunk.bytes.length)).toNat = _
    rw [toNat_saturatingAdd, h.count, hlen, hstream, List.length_append]
    omega

/-- The locals once the stream is finished. -/
structure Ready (read : List Slice) (stored : List UInt8) (s : Streaming ε) (u : MultipartUploadId)
    (t : Trace Store) : Prop extends Counted read s u where
  flushed : ∃ ps, Flushed s.writer ps stored t

/-- The locals of a session that was just begun. -/
theorem streamed_start (key : BlobObjectKey) (upload : MultipartUploadId) (state : ε) :
    Streamed [] []
      (⟨⟨upload, key, [], 1, [], 0, .live, false⟩, state, Sha256.new, 0, Sha256.new, 0⟩ : Streaming ε)
      upload [⟨.beginMultipart key, Except.ok upload⟩, ⟨.register upload, ()⟩] :=
  ⟨⟨rfl, (Sha256.update_nil _).symm, rfl⟩, [], Live.start rfl⟩

/-- The sessions were aborted with this answer, and are registered as abandoned if it failed. -/
def Cleaned (cleanup : Option StorageError) (t : Trace Store) : Prop :=
  ∀ upload ∈ begun t, ⟨.abortMultipart upload, cleanup.elim (Except.ok ()) Except.error⟩ ∈ t ∧
    (cleanup = none ∨ ⟨upload, true⟩ ∈ registry t)

/-- What the blob commit leaves: where it succeeds, a session of the blob was completed. -/
structure AfterBlob (key : BlobObjectKey) (r : Except BlobCommitError BlobCommit) (t : Trace Store) :
    Prop where
  completed : ∀ commit, r = .ok commit → commit.key = key ∧
    ∃ upload parts outcome, Opened key upload t ∧
      ⟨.commitMultipart upload parts, Except.ok outcome⟩ ∈ t
  cleaned : ∀ error, r = .error error → Cleaned error.cleanup t

/-- The stages after `begin`. -/
def stages {ε : Type} (key : BlobObjectKey) (expectation : BlobExpectation) (encoder : BlobEncoder ε)
    (canonical : List Slice) (s : Streaming ε) : StoreM (Except BlobCommitError BlobCommit) := do
  match ← streamChunks encoder canonical s with
  | .error error => pure (.error error)
  | .ok s =>
    match ← finishStream encoder s with
    | .error error => pure (.error error)
    | .ok s => validateAndCommit key expectation s

end AgentArchivist.Storage.BlobStream
