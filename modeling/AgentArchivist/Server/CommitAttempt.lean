import AgentArchivist.Auth.ReceiptSigning
import AgentArchivist.Server.Evidence
import AgentArchivist.Server.RequestBody
import AgentArchivist.Server.Transport
import AgentArchivist.Storage.Sequence

/-! # The commit of one attempt

One pass takes the payload through the transport stage into the blob commit. `DrainChunks` is
the iterator that the commit consumes: when it ends it decides on the attempt, and what it
decided is a gate on the encoder's epilogue. Behind a durable blob the two manifests land, and
then the receipt is signed.

The iterator makes no call to the store, so the chunks are taken from it ahead of the calls;
its verdict counts only where the commit came to the end of the chunks. -/
namespace AgentArchivist.Server.CommitAttempt
open Protocol Storage Auth
open Authority ControlRecord ReceiptKeys ReceiptSigning RequestVerification Derivation
open IngestEnvelope Json ObjectKey Vocabulary Evidence Parts RequestBody Transport Blob
open Manifests Multipart RawWrite Sequence

/-! ## Failures -/

inductive PayloadLimit where
  | splittableBytes (actualBytes limitBytes : Nat)
  | splittableRatio (maxRatio : UInt64)
  | unsplittableRecord (actualBytes : Nat) (limitBytes : UInt64)
deriving DecidableEq

inductive ServerFailure where
  | parse (error : IngestParseError)
  | authorization (rejection : AuthRejection)
  | integrityConflict
  | payloadLimit (limit : PayloadLimit)
  | rateLimited
  | deadlineElapsed
  | tooEarly
  | registryUnavailable
  | storageFailure
  | upstreamTimeout
  | partialCommit
  | internal
  | unavailable
deriving DecidableEq

def payloadLimit : TransportDecodeError → Option PayloadLimit
  | .recordTooLarge actualBytes limitBytes => some (.unsplittableRecord actualBytes limitBytes)
  | .expansionRatioExceeded maxRatio => some (.splittableRatio maxRatio)
  | .malformedFrame _ | .sourceRead _ | .codecSetup => none

def framingInvalid : ServerFailure := .parse (.framing (.framing .malformedDelimiter))

def declaredSizeMismatch : ServerFailure :=
  .parse (.envelope (.schemaInvalid "uncompressed_size"
    "declared size differs from the bytes the request carried"))

def decodeFailure (error : TransportDecodeError) : ServerFailure :=
  match payloadLimit error with
  | some limit => .payloadLimit limit
  | none =>
    match error with
    | .malformedFrame _ | .sourceRead _ => framingInvalid
    | .codecSetup | .recordTooLarge _ _ | .expansionRatioExceeded _ => .internal

/-- The failure of a store that holds nothing of the attempt. -/
def fromStorageKind : StorageErrorKind → ServerFailure
  | .integrityConflict => .integrityConflict
  | .unavailable | .capabilityUnavailable => .storageFailure
  | .scopeViolation | .malformedInput | .staleEpoch | .inventoryFault => .internal

/-- The failure behind a durable blob. -/
def provenanceFailure : StorageErrorKind → ServerFailure
  | .integrityConflict => .integrityConflict
  | .unavailable | .capabilityUnavailable => .partialCommit
  | .scopeViolation | .malformedInput | .staleEpoch | .inventoryFault => .internal

/-! ## The drain -/

structure VerifiedDigests where
  requestContent : RequestContentDigest
  envelope : EnvelopeDigest
  payloadCanonical : PayloadCanonicalDigest
  payloadTransport : PayloadTransportDigest

/-- The identities are the declared ones, the digests the computed ones. -/
def presentedRequest (envelope : Envelope) (digests : VerifiedDigests) : PresentedRequest where
  tenantId := envelope.tenantId
  uploaderClientId := envelope.uploaderClientId
  originClientId := envelope.originClientId
  harness := envelope.harness
  requestContentDigest := digests.requestContent
  envelopeDigest := digests.envelope
  payloadCanonicalDigest := digests.payloadCanonical
  payloadTransportDigest := digests.payloadTransport

/-- The digest of what a hasher was given. -/
def finalized (hasher : Sha256.Hasher) : Digest := ⟨Sha256.finalize hasher, Sha256.finalize_length _⟩

structure DrainChunks (δ : Type) where
  /-- There until the stream drains or fails. -/
  decoder : Option (TransportDecoder δ (DigestingPayload BodyChannel))
  declaredBytes : UInt64
  drainedBytes : Nat
  canonical : Sha256.Hasher
  envelope : Envelope
  envelopeDigest : EnvelopeDigest
  record : AttemptAuthorization
  evidence : UploaderEvidence
  now : Timestamp
  gate : Bool
  cause : Option ServerFailure

namespace DrainChunks
variable {δ : Type}

/-- Close the gate, for a cause. -/
def refuse (chunks : DrainChunks δ) (failure : ServerFailure) : DrainChunks δ :=
  { chunks with gate := false, cause := some failure }

/-- The verdict on a stream that drained, once the body closed behind it. -/
def decide (ed25519 : Verifier) (chunks : DrainChunks δ) (requestHasher transport : Sha256.Hasher) :
    DrainChunks δ :=
  if chunks.drainedBytes ≠ chunks.declaredBytes.toNat then chunks.refuse declaredSizeMismatch
  else
    let digests : VerifiedDigests :=
      { requestContent := finalized requestHasher
        envelope := chunks.envelopeDigest
        payloadCanonical := finalized chunks.canonical
        payloadTransport := finalized transport }
    let presented := presentedRequest chunks.envelope digests
    match authorizeAttempt ed25519 chunks.record presented chunks.evidence chunks.now with
    | .ok _ => { chunks with gate := true }
    | .error rejection => chunks.refuse (.authorization rejection)

/-- The next chunk; the loops within go around at most `fuel` times. -/
def next (ed25519 : Verifier) (codec : Codec δ) (fuel : Nat) (chunks : DrainChunks δ) :
    Option (Option (List UInt8) × DrainChunks δ) :=
  match chunks.decoder with
  | none => some (none, chunks)
  | some decoder =>
    match decoder.nextChunk codec fuel with
    | none => none
    | some (.ok (some chunk), decoder) =>
      some (some chunk,
        { chunks with
          decoder := some decoder
          drainedBytes := chunks.drainedBytes + chunk.length
          canonical := Sha256.update chunks.canonical chunk })
    | some (.ok none, decoder) =>
      let chunks := { chunks with decoder := none }
      match finishing fuel decoder.source.inner with
      | none => none
      | some (.error error, _) => some (none, chunks.refuse (.parse (.framing error)))
      | some (.ok (), tokenizer) =>
        some (none, chunks.decide ed25519 tokenizer.source.requestHasher decoder.source.transport)
    | some (.error error, _) =>
      some (none, { chunks with decoder := none }.refuse (decodeFailure error))

/-- All chunks, and the iterator at its end, after at most `rounds` of them. No allocation has
`2 ^ 63` bytes. -/
def all (ed25519 : Verifier) (codec : Codec δ) (fuel : Nat) :
    Nat → DrainChunks δ → Option (List Slice × DrainChunks δ)
  | 0, _ => none
  | rounds + 1, chunks =>
    match chunks.next ed25519 codec fuel with
    | none => none
    | some (none, chunks) => some ([], chunks)
    | some (some chunk, chunks) =>
      if fits : chunk.length < 2 ^ 63 then
        (all ed25519 codec fuel rounds chunks).map fun (rest, chunks) => (⟨chunk, fits⟩ :: rest, chunks)
      else none

end DrainChunks

/-! ## The gate -/

def gateRefused : StorageError :=
  ⟨.malformedInput, "the pipeline refused the attempt before its commit could complete"⟩

/-- The encoder behind the gate: its epilogue is refused where the gate is closed. -/
def gated {ε : Type} (encoder : BlobEncoder ε) (gate : Bool) : BlobEncoder ε where
  update := encoder.update
  finish state := if gate then encoder.finish state else .error gateRefused

/-- `commitBlob`, with whether it took the chunks to their end. -/
def commitBlobDrained {ε : Type} (tenant : TenantId) (expectation : BlobExpectation)
    (encoder : BlobEncoder ε) (state : ε) (canonical : List Slice) :
    StoreM (Except BlobCommitError BlobCommit × Bool) := do
  let key := BlobObjectKey.new tenant .zstdV1 expectation.content
  match ← MultipartWriter.begin key with
  | .error error => pure (.error (.ofWriter error), false)
  | .ok writer =>
    let s : Streaming ε := ⟨writer, state, Sha256.new, 0, Sha256.new, 0⟩
    match ← streamChunks encoder canonical s with
    | .error error => pure (.error error, false)
    | .ok s =>
      match ← finishStream encoder s with
      | .error error => pure (.error error, true)
      | .ok s => do
        let commit ← validateAndCommit key expectation s
        pure (commit, true)

/-! ## Receipts -/

/-- The schedules that were installed, the last one of a tenant counting. -/
structure ReceiptSigners (scheme : SignatureScheme) where
  installed : List (ReceiptKeySchedule scheme)

def ReceiptSigners.scheduleFor {scheme : SignatureScheme} (signers : ReceiptSigners scheme)
    (tenant : TenantId) : Option (ReceiptKeySchedule scheme) :=
  signers.installed.reverse.find? fun schedule => schedule.tenantId = tenant

inductive ReceiptIssue where
  | noSchedule
  | signing (error : ReceiptKeyError)

def manifestKeyText : ManifestKey → String
  | .occurrence key => key.text
  | .attestation key => key.text

def receiptMembers (envelope : Envelope) (blob : BlobCommit) (provenance : ProvenanceCommit)
    (authorizationKeyId : KeyId) (authorizationEpoch : UInt64) (commitTime : Timestamp) :
    List (String × Value) :=
  [("tenant_id", textValue envelope.tenantId),
   ("request_id", textValue envelope.requestId),
   ("occurrence_id", textValue envelope.occurrenceId),
   ("attestation_id", textValue envelope.attestationId),
   ("blob_digest", textValue envelope.blobDigest),
   ("blob_object_key", .text blob.key.text),
   ("occurrence_object_key", .text (manifestKeyText provenance.occurrence.key)),
   ("attestation_object_key", .text (manifestKeyText provenance.attestation.key)),
   ("blob_outcome", textValue blob.outcome),
   ("occurrence_outcome", textValue provenance.occurrence.outcome),
   ("attestation_outcome", textValue provenance.attestation.outcome),
   ("authorization_key_id", textValue authorizationKeyId),
   ("authorization_epoch", .int (Int64.ofInt (min authorizationEpoch.toNat (2 ^ 63 - 1)))),
   ("commit_time", textValue commitTime)]

def issue {scheme : SignatureScheme} (signers : ReceiptSigners scheme) (envelope : Envelope)
    (blob : BlobCommit) (provenance : ProvenanceCommit) (authorizationKeyId : KeyId)
    (authorizationEpoch : UInt64) (commitTime : Timestamp) : Except ReceiptIssue Receipt :=
  match signers.scheduleFor envelope.tenantId with
  | none => .error .noSchedule
  | some schedule =>
    (schedule.signReceipt ((receiptMembers envelope blob provenance authorizationKeyId
      authorizationEpoch commitTime).foldl (fun object m => Object.set m.1 m.2 object) [])).mapError
        .signing

/-! ## The attempt -/

def BYTE_MAX : Nat := 2 ^ 48

/-- The configured limits that the pipeline reads. -/
structure ServerConfig where
  envelopeMaxBytes : Nat
  recordMaxBytes : UInt64
  maxExpansionRatio : UInt32
  record : 0 < recordMaxBytes.toNat ∧ recordMaxBytes.toNat ≤ BYTE_MAX

def ServerConfig.limits (config : ServerConfig) : DecodeLimits :=
  ⟨config.recordMaxBytes, config.maxExpansionRatio.toUInt64⟩

/-- What a replica commits with: its configuration, the profile codec in both directions and the
receipt schedules. -/
structure ServerState (δ ε : Type) (scheme : SignatureScheme) where
  config : ServerConfig
  codec : Codec δ
  newEncoder : UInt64 → Option ε
  encoder : BlobEncoder ε
  receipts : ReceiptSigners scheme

variable {δ ε : Type} {scheme : SignatureScheme}

/-- The manifests behind a durable blob, then the receipt; what cannot be receipted stays a
partial commit. -/
def landTailAndReceipt (state : ServerState δ ε scheme) (envelope : Envelope)
    (delegation : Delegation) (blob : BlobCommit) (authorizationKeyId : KeyId)
    (authorizationEpoch : UInt64) (commitTime : Timestamp) :
    StoreM (Except ServerFailure Receipt) := do
  match ← commitProvenance envelope delegation with
  | .error error => pure (.error (provenanceFailure error.failure.kind))
  | .ok provenance =>
    match issue state.receipts envelope blob provenance authorizationKeyId authorizationEpoch
        commitTime with
    | .error _ => pure (.error .partialCommit)
    | .ok receipt => pure (.ok receipt)

/-- An attempt behind loaded evidence: what the request brought, and the clock at the two times
it is read. -/
structure Attempt where
  envelope : Envelope
  stream : PayloadStream BodyChannel
  record : AttemptAuthorization
  evidence : UploaderEvidence
  now : Timestamp
  commitTime : Timestamp

namespace Attempt
variable (state : ServerState δ ε scheme) (attempt : Attempt)

def expectation : BlobExpectation :=
  ⟨attempt.envelope.blobDigest, attempt.envelope.uncompressedSize.value⟩

def delegation : Delegation := if attempt.evidence.delegation.isSome then .relay else .direct

/-- The payload, of which nothing was read. -/
def source : DigestingPayload BodyChannel := ⟨attempt.stream, Sha256.new⟩

/-- The iterator before its first chunk: the gate starts open. -/
def chunks (decoder : TransportDecoder δ (DigestingPayload BodyChannel)) : DrainChunks δ where
  decoder := some decoder
  declaredBytes := attempt.expectation.uncompressedBytes
  drainedBytes := 0
  canonical := Sha256.new
  envelope := attempt.envelope
  envelopeDigest := attempt.envelope.envelopeDigest
  record := attempt.record
  evidence := attempt.evidence
  now := attempt.now
  gate := true
  cause := none

/-- The commit of the chunks, behind the verdict that the iterator ends with. -/
def commitChunks (encoder : ε) (canonical : List Slice) (verdict : DrainChunks δ) :
    StoreM (Except ServerFailure Receipt) := do
  let (commit, drained) ← commitBlobDrained attempt.envelope.tenantId attempt.expectation
    (gated state.encoder verdict.gate) encoder canonical
  -- a recorded cause is the true failure: the commit's own is the abort that the gate forced
  match (if drained then verdict.cause else none), commit with
  | some failure, _ => pure (.error failure)
  | none, .ok blob =>
    landTailAndReceipt state attempt.envelope attempt.delegation blob attempt.record.uploaderKeyId
      attempt.record.authorizationEpoch attempt.commitTime
  | none, .error error => pure (.error (fromStorageKind error.failure.kind))

/-- The program of an attempt, once the drain was given enough fuel. -/
def attemptCommit (fuel : Nat) : Option (StoreM (Except ServerFailure Receipt)) :=
  match TransportDecoder.new state.codec attempt.envelope.transportEncoding attempt.source
      state.config.limits with
  | .error error => some (pure (.error (decodeFailure error)))
  | .ok decoder =>
    match state.newEncoder attempt.expectation.uncompressedBytes with
    | none => some (pure (.error .internal))
    | some encoder =>
      ((attempt.chunks decoder).all scheme.verify state.codec fuel fuel).map fun drained =>
        attempt.commitChunks state encoder drained.1 drained.2

end Attempt

end AgentArchivist.Server.CommitAttempt
