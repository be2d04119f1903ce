import AgentArchivist.Protocol.Derivation
import AgentArchivist.Protocol.JsonCanonical

/-! # The ingest envelope

Reading an envelope from a JSON value, with every check in its order, and writing it
back. Members are read by one list (`fromValue`), written by another (`known`), and a
third, generated one (`ENVELOPE_FIELD_NAMES`) says which members are retained as
unknown. -/
namespace AgentArchivist.Protocol.IngestEnvelope
open Derivation Json Vocabulary

def PROTOCOL_VERSION : Int64 := 1
def ENVELOPE_VERSION : Int64 := 1
def CANONICAL_MAX_BYTES : Nat := 65536

def RESERVED_FIELDS : List String :=
  ["authorization_epoch", "authorization_key_id", "authorization_timestamp", "commit_time",
   "correlation_id", "signature"]

def ENVELOPE_FIELD_NAMES : List String :=
  ["adapter_artifact_id", "adapter_id", "adapter_projection_version", "artifact_kind",
   "attestation_id", "blob_digest", "capture_time", "compressed_size", "envelope_creation_time",
   "envelope_version", "generation", "harness", "id_source", "incoming_checksum",
   "incoming_checksum_algorithm", "inference_request_id", "occurrence_id",
   "orchestrator_attempt_id", "origin_client_id", "parent_session_id", "protocol_version",
   "range_end", "range_kind", "range_start", "request_id", "source_time", "storage_profile",
   "tenant_id", "trace_id", "transport_encoding", "uncompressed_size", "uploader_client_id",
   "upstream_session_id"]

inductive EnvelopeError where
  | malformed (reason : String) (source : Option ParseError)
  | versionUnsupported (field : String) (found : Int64)
  | schemaInvalid (field reason : String)
  | sizeExceeded (limitBytes : Nat)
deriving DecidableEq

/-- A `u64` below `2^63`: the reader produces no other, and the writer takes no other. -/
structure U63 where
  value : UInt64
  fits : value.toNat < 2 ^ 63
deriving DecidableEq

/-- The version 1 ingest envelope. -/
structure Envelope where
  tenantId : TenantId
  originClientId : ClientId
  uploaderClientId : ClientId
  harness : HarnessId
  upstreamSessionId : OpaqueId
  idSource : IdSource
  artifactKind : ArtifactKind
  adapterId : AdapterId
  adapterProjectionVersion : VersionToken
  adapterArtifactId : OpaqueId
  generation : GenerationId
  rangeKind : RangeKind
  rangeStart : U63
  rangeEnd : U63
  blobDigest : BlobDigest
  incomingChecksum : IncomingChecksum
  incomingChecksumAlgorithm : ChecksumAlgorithm
  storageProfile : StorageProfile
  transportEncoding : TransportEncoding
  compressedSize : U63
  uncompressedSize : U63
  occurrenceId : OccurrenceId
  attestationId : AttestationId
  requestId : RequestId
  captureTime : Timestamp
  envelopeCreationTime : Timestamp
  sourceTime : Option Timestamp
  parentSessionId : Option OpaqueId
  orchestratorAttemptId : Option OpaqueId
  traceId : Option OpaqueId
  inferenceRequestId : Option OpaqueId
  unknownFields : List (String × Value)

/-! ## Reading members -/

abbrev Result := Except EnvelopeError

def invalid (field reason : String) : EnvelopeError := .schemaInvalid field reason

def require (object : List (String × Value)) (field : String) : Result Value :=
  match Object.get field object with
  | some value => .ok value
  | none => .error (invalid field "required member is missing")

def text (value : Value) (field : String) : Result String :=
  match value with
  | .text text => .ok text
  | _ => .error (invalid field "member must be a string")

theorem u63_fits {n : Int64} (h : 0 ≤ n.toInt) : (UInt64.ofNat n.toInt.toNat).toNat < 2 ^ 63 := by
  have hn := Int64.toInt_lt n
  have hsize : n.toInt.toNat < 2 ^ 64 := by omega
  rw [UInt64.toNat_ofNat_of_lt' hsize]
  omega

def u63 (value : Value) (field : String) : Result U63 :=
  match value with
  | .int n =>
    if h : 0 ≤ n.toInt then .ok ⟨UInt64.ofNat n.toInt.toNat, u63_fits h⟩
    else .error (invalid field "integer is below zero")
  | _ => .error (invalid field "member must be an integer")

/-- `u63(require(object, field)?, field)`. -/
def integer (object : List (String × Value)) (field : String) : Result U63 := do
  let value ← require object field
  u63 value field

def typed {T : Type} [WireText T] (object : List (String × Value)) (field : String) : Result T := do
  let value ← require object field
  let raw ← text value field
  (WireText.fromStr raw).mapError fun _ => invalid field "value does not match the canonical grammar"

def version (object : List (String × Value)) (field : String) (known : Int64) : Result Unit := do
  match ← require object field with
  | .int found => if found = known then .ok () else .error (.versionUnsupported field found)
  | _ => .error (invalid field "member must be an integer")

def optional {T : Type} [WireText T] (object : List (String × Value)) (field : String) :
    Result (Option T) :=
  match Object.get field object with
  | none => .ok none
  | some (.text raw) =>
    ((WireText.fromStr raw).map some).mapError fun _ =>
      invalid field "value does not match the canonical grammar"
  | some _ => .error (invalid field "member must be a string when present, never null")

/-- The members this version does not define. -/
def retained (object : List (String × Value)) : List (String × Value) :=
  object.foldl (fun unknown m =>
    if ENVELOPE_FIELD_NAMES.contains m.1 then unknown else Object.set m.1 m.2 unknown) []

/-! ## Writing members -/

def textValue {T : Type} [WireText T] (t : T) : Value := .text (WireText.text t)

def u63Value (n : U63) : Value := .int (Int64.ofInt n.value.toNat)

namespace Envelope

/-- The members this version defines, in the order in which they are put; an absent
optional member is `none`. -/
def known (e : Envelope) : List (String × Option Value) :=
  [("protocol_version", some (.int PROTOCOL_VERSION)),
   ("envelope_version", some (.int ENVELOPE_VERSION)),
   ("tenant_id", some (textValue e.tenantId)),
   ("origin_client_id", some (textValue e.originClientId)),
   ("uploader_client_id", some (textValue e.uploaderClientId)),
   ("harness", some (textValue e.harness)),
   ("upstream_session_id", some (textValue e.upstreamSessionId)),
   ("id_source", some (textValue e.idSource)),
   ("artifact_kind", some (textValue e.artifactKind)),
   ("adapter_id", some (textValue e.adapterId)),
   ("adapter_projection_version", some (textValue e.adapterProjectionVersion)),
   ("adapter_artifact_id", some (textValue e.adapterArtifactId)),
   ("generation", some (textValue e.generation)),
   ("range_kind", some (textValue e.rangeKind)),
   ("range_start", some (u63Value e.rangeStart)),
   ("range_end", some (u63Value e.rangeEnd)),
   ("blob_digest", some (textValue e.blobDigest)),
   ("incoming_checksum", some (textValue e.incomingChecksum)),
   ("incoming_checksum_algorithm", some (textValue e.incomingChecksumAlgorithm)),
   ("storage_profile", some (textValue e.storageProfile)),
   ("transport_encoding", some (textValue e.transportEncoding)),
   ("compressed_size", some (u63Value e.compressedSize)),
   ("uncompressed_size", some (u63Value e.uncompressedSize)),
   ("occurrence_id", some (textValue e.occurrenceId)),
   ("attestation_id", some (textValue e.attestationId)),
   ("request_id", some (textValue e.requestId)),
   ("capture_time", some (textValue e.captureTime)),
   ("envelope_creation_time", some (textValue e.envelopeCreationTime)),
   ("source_time", e.sourceTime.map textValue),
   ("parent_session_id", e.parentSessionId.map textValue),
   ("orchestrator_attempt_id", e.orchestratorAttemptId.map textValue),
   ("trace_id", e.traceId.map textValue),
   ("inference_request_id", e.inferenceRequestId.map textValue)]

/-- The known members that are there. -/
def present (e : Envelope) : List (String × Value) :=
  e.known.filterMap fun m => m.2.map fun v => (m.1, v)

/-- The envelope as a JSON value: known members put one by one, then the retained ones. -/
def toValue (e : Envelope) : Value :=
  .object ((e.present ++ e.unknownFields).foldl (fun object m => Object.set m.1 m.2 object) [])

def canonicalBytes (e : Envelope) : List UInt8 := Json.canonicalBytes e.toValue

/-- SHA-256 over the canonical bytes. -/
def envelopeDigest (e : Envelope) : EnvelopeDigest := digestOf e.canonicalBytes

/-! ## Checks -/

def rederiveSessionHash (e : Envelope) : SessionHash :=
  sessionHash e.tenantId e.originClientId e.harness (strOf e.upstreamSessionId)

def rederiveArtifactHash (e : Envelope) : ArtifactHash :=
  artifactHash e.rederiveSessionHash e.artifactKind e.adapterId e.adapterProjectionVersion
    (strOf e.adapterArtifactId)

def rederiveOccurrenceId (e : Envelope) : OccurrenceId :=
  Derivation.occurrenceId e.rederiveSessionHash e.rederiveArtifactHash e.generation e.rangeKind
    e.rangeStart.value e.rangeEnd.value e.blobDigest

def rederiveAttestationId (e : Envelope) : AttestationId :=
  Derivation.attestationId e.occurrenceId e.uploaderClientId e.requestId

def semanticChecks (e : Envelope) : Result Unit :=
  if !calendarValid e.captureTime then
    .error (invalid "capture_time" "timestamp is not a real calendar instant")
  else if !calendarValid e.envelopeCreationTime then
    .error (invalid "envelope_creation_time" "timestamp is not a real calendar instant")
  else if e.sourceTime.any (fun t => !calendarValid t) then
    .error (invalid "source_time" "timestamp is not a real calendar instant")
  else if e.rangeEnd.value < e.rangeStart.value then
    .error (invalid "range_end" "range_end precedes range_start")
  else if e.transportEncoding = .identity ∧ e.compressedSize ≠ e.uncompressedSize then
    .error (invalid "compressed_size"
      "identity transport must declare equal compressed and uncompressed sizes")
  else if e.transportEncoding = .identity ∧ e.incomingChecksum ≠ e.blobDigest then
    .error (invalid "incoming_checksum" "identity transport checksum must equal the blob digest")
  else .ok ()

def verifyIdentities (e : Envelope) : Result Unit :=
  if e.rederiveOccurrenceId ≠ e.occurrenceId then
    .error (invalid "occurrence_id" "declared identity does not match the re-derived one")
  else if e.rederiveAttestationId ≠ e.attestationId then
    .error (invalid "attestation_id" "declared identity does not match the re-derived one")
  else .ok ()

def sizeCheck (e : Envelope) : Result Unit :=
  if e.canonicalBytes.length > CANONICAL_MAX_BYTES then .error (.sizeExceeded CANONICAL_MAX_BYTES)
  else .ok ()

end Envelope

/-! ## Reading an envelope -/

/-- The fields, read in the source's order. -/
def readFields (object : List (String × Value)) : Result Envelope := do
  let adapterArtifactId ← typed object "adapter_artifact_id"
  let adapterId ← typed object "adapter_id"
  let adapterProjectionVersion ← typed object "adapter_projection_version"
  let artifactKind ← typed object "artifact_kind"
  let attestationId ← typed object "attestation_id"
  let blobDigest ← typed object "blob_digest"
  let captureTime ← typed object "capture_time"
  let compressedSize ← integer object "compressed_size"
  let envelopeCreationTime ← typed object "envelope_creation_time"
  let generation ← typed object "generation"
  let harness ← typed object "harness"
  let idSource ← typed object "id_source"
  let incomingChecksum ← typed object "incoming_checksum"
  let incomingChecksumAlgorithm ← typed object "incoming_checksum_algorithm"
  let occurrenceId ← typed object "occurrence_id"
  let originClientId ← typed object "origin_client_id"
  let rangeEnd ← integer object "range_end"
  let rangeKind ← typed object "range_kind"
  let rangeStart ← integer object "range_start"
  let requestId ← typed object "request_id"
  let storageProfile ← typed object "storage_profile"
  let tenantId ← typed object "tenant_id"
  let transportEncoding ← typed object "transport_encoding"
  let uncompressedSize ← integer object "uncompressed_size"
  let upstreamSessionId ← typed object "upstream_session_id"
  let uploaderClientId ← typed object "uploader_client_id"
  let sourceTime ← optional object "source_time"
  let parentSessionId ← optional object "parent_session_id"
  let orchestratorAttemptId ← optional object "orchestrator_attempt_id"
  let traceId ← optional object "trace_id"
  let inferenceRequestId ← optional object "inference_request_id"
  .ok
    { tenantId, originClientId, uploaderClientId, harness, upstreamSessionId, idSource, artifactKind,
      adapterId, adapterProjectionVersion, adapterArtifactId, generation, rangeKind, rangeStart,
      rangeEnd, blobDigest, incomingChecksum, incomingChecksumAlgorithm, storageProfile,
      transportEncoding, compressedSize, uncompressedSize, occurrenceId, attestationId, requestId,
      captureTime, envelopeCreationTime, sourceTime, parentSessionId, orchestratorAttemptId, traceId,
      inferenceRequestId, unknownFields := retained object }

/-- Validate an already-parsed JSON value as an envelope. -/
def fromValue (value : Value) : Result Envelope :=
  match value with
  | .object object =>
    match RESERVED_FIELDS.find? fun field => Object.contains field object with
    | some field => .error (invalid field "reserved per-attempt or server member")
    | none => do
      version object "protocol_version" PROTOCOL_VERSION
      version object "envelope_version" ENVELOPE_VERSION
      let envelope ← readFields object
      envelope.semanticChecks
      envelope.verifyIdentities
      envelope.sizeCheck
      .ok envelope
  | _ => .error (.malformed "envelope part is not a JSON object" none)

/-- Parse and fully validate an envelope from its wire bytes. -/
def parse (bytes : List UInt8) : Result Envelope :=
  match Json.parse bytes with
  | .ok value => fromValue value
  | .error source =>
    .error (.malformed "bounded parse of the envelope bytes failed" (some source))

end AgentArchivist.Protocol.IngestEnvelope
