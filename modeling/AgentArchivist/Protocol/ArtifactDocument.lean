import AgentArchivist.Protocol.InferenceArtifact
import AgentArchivist.Protocol.Members
import Mathlib.Data.List.ReduceOption

/-! # The inference artifact on the wire

Reading a record from a JSON value, with every check in its order, and writing it back.
The payload retains members it does not know, the metadata refuses them, and a member of
another kind is refused rather than retained. -/
namespace AgentArchivist.Protocol.InferenceArtifact
open AgentArchivist.Lib.Utf8 (utf8)
open AgentArchivist.Protocol.IngestEnvelope (textValue)
open Protocol.Json Protocol.Members Protocol.Vocabulary

def INFERENCE_ARTIFACT_VERSION : Int64 := 1

def RESERVED_FIELDS : List String :=
  ["access_token", "alpn", "api_key", "api_token", "authorization", "authorization_epoch",
   "authorization_key_id", "authorization_timestamp", "bearer_token", "blob_key", "blob_url",
   "certificate", "certificate_chain", "cipher_suite", "client_certificate", "client_secret",
   "cookie", "credential", "endpoint", "ip_packet", "object_key", "password", "private_key",
   "proxy_authorization", "refresh_token", "request_id", "secret", "session_token", "set_cookie",
   "signature", "signature_algorithm", "storage_path", "tcp_segment", "tls_handshake",
   "tls_record", "tls_session_ticket", "tls_version", "transport_encoding", "upload_url", "uri",
   "url", "www_authenticate", "x_api_key"]

def RECORD_FIELD_NAMES : List String :=
  ["artifact_kind", "attempt_ordinal", "backoff_ms", "capture_time", "error_class",
   "event_ordinal", "inference_artifact_version", "inference_request_id", "metadata",
   "origin_client_id", "payload", "provider_attempt_id", "retry_of_attempt_ordinal",
   "retry_reason", "tenant_id", "timeout_ms", "trace_id", "usage_source"]

/-- What failed, in one line. -/
inductive Reason where
  | line (text : String)
  /-- The line that quotes, in `Debug` form, a metadata name outside the closed allowlist. -/
  | outsideAllowlist (name : String)
deriving DecidableEq

inductive InferenceArtifactError where
  | malformed (reason : String) (source : Option ParseError)
  | versionUnsupported (found : Int64)
  | schemaInvalid (field : String) (reason : Reason)
deriving DecidableEq

abbrev Result := Except InferenceArtifactError

def invalid (field reason : String) : InferenceArtifactError := .schemaInvalid field (.line reason)

/-! ## The payload -/

namespace Payload

def fromValue (value : Value) : Result Payload :=
  match value with
  | .object object => do
    let payloadDigest ← typed invalid object "payload_digest"
    let payloadSize ← integer invalid object "payload_size"
    if payloadSize < 1 then
      .error (invalid "payload"
        "payload_size must be at least 1; an empty body is the member's absence")
    else
      .ok
        { payloadDigest := payloadDigest
          payloadSize := payloadSize
          unknownFields := retained ["payload_digest", "payload_size"] object }
  | _ => .error (invalid "payload" "member must be an object when present, never null")

def known (p : Payload) : List (String × Option Value) :=
  [("payload_digest", some (textValue p.payloadDigest)),
   ("payload_size", some (u63Value p.payloadSize))]

def toValue (p : Payload) : Value := written p.known p.unknownFields

end Payload

/-! ## The metadata -/

/-- `^[ -~]{1,256}$`. -/
def isPrintableAscii (raw : String) : Bool :=
  raw ≠ "" && (utf8 raw).length ≤ 256 && (utf8 raw).all fun b => 0x20 ≤ b && b ≤ 0x7e

def printableAscii (value : Value) : Result String :=
  match value with
  | .text raw =>
    if isPrintableAscii raw then .ok raw
    else .error (invalid "metadata" "metadata entry must be 1-256 printable ASCII bytes")
  | _ => .error (invalid "metadata" "metadata entry must be a string")

namespace Metadata

def empty : Metadata where
  contentType := none
  providerRequestId := none
  httpStatus := none
  rateLimitLimit := none
  rateLimitRemaining := none
  rateLimitReset := none
  usageInputTokens := none
  usageOutputTokens := none
  usageTotalTokens := none

def isEmpty (m : Metadata) : Bool :=
  m.contentType.isNone && m.providerRequestId.isNone && m.httpStatus.isNone &&
    m.rateLimitLimit.isNone && m.rateLimitRemaining.isNone && m.rateLimitReset.isNone &&
    m.usageInputTokens.isNone && m.usageOutputTokens.isNone && m.usageTotalTokens.isNone

/-- The loop body of `from_value`. -/
def readEntry (m : Metadata) (entry : String × Value) : Result Metadata :=
  match entry.1 with
  | "content_type" => do
    let contentType ← printableAscii entry.2
    .ok { m with contentType := some contentType }
  | "provider_request_id" => do
    let providerRequestId ← printableAscii entry.2
    .ok { m with providerRequestId := some providerRequestId }
  | "http_status" => do
    let status ← u63 invalid entry.2 "metadata"
    if 100 ≤ status ∧ status ≤ 599 then .ok { m with httpStatus := some status }
    else .error (invalid "metadata" "metadata.http_status must be between 100 and 599")
  | "rate_limit_limit" => do
    let limit ← u63 invalid entry.2 "metadata"
    .ok { m with rateLimitLimit := some limit }
  | "rate_limit_remaining" => do
    let remaining ← u63 invalid entry.2 "metadata"
    .ok { m with rateLimitRemaining := some remaining }
  | "rate_limit_reset" => do
    let reset ← u63 invalid entry.2 "metadata"
    .ok { m with rateLimitReset := some reset }
  | "usage_input_tokens" => do
    let tokens ← u63 invalid entry.2 "metadata"
    .ok { m with usageInputTokens := some tokens }
  | "usage_output_tokens" => do
    let tokens ← u63 invalid entry.2 "metadata"
    .ok { m with usageOutputTokens := some tokens }
  | "usage_total_tokens" => do
    let tokens ← u63 invalid entry.2 "metadata"
    .ok { m with usageTotalTokens := some tokens }
  | other => .error (.schemaInvalid "metadata" (.outsideAllowlist other))

def fromValue (value : Value) : Result Metadata :=
  match value with
  | .object object => do
    let m ← object.foldlM readEntry empty
    if m.isEmpty then
      .error (invalid "metadata"
        "member is present but carries no allowlisted entry; omit it instead of an empty object")
    else .ok m
  | _ => .error (invalid "metadata" "member must be an object when present, never null")

def known (m : Metadata) : List (String × Option Value) :=
  [("content_type", m.contentType.map .text),
   ("provider_request_id", m.providerRequestId.map .text),
   ("http_status", m.httpStatus.map u63Value),
   ("rate_limit_limit", m.rateLimitLimit.map u63Value),
   ("rate_limit_remaining", m.rateLimitRemaining.map u63Value),
   ("rate_limit_reset", m.rateLimitReset.map u63Value),
   ("usage_input_tokens", m.usageInputTokens.map u63Value),
   ("usage_output_tokens", m.usageOutputTokens.map u63Value),
   ("usage_total_tokens", m.usageTotalTokens.map u63Value)]

/-- Omitted where no entry is present. -/
def toValue (m : Metadata) : Option Value := if m.isEmpty then none else some (written m.known [])

def counters (m : Metadata) : List UInt64 :=
  [m.httpStatus, m.rateLimitLimit, m.rateLimitRemaining, m.rateLimitReset, m.usageInputTokens,
   m.usageOutputTokens, m.usageTotalTokens].reduceOption

end Metadata

/-! ## The kind and its members -/

def kindSpecificMembers : InferenceArtifactKind → List String
  | .providerRequest => []
  | .providerResponse => []
  | .streamingEvent => ["event_ordinal"]
  | .retry => ["retry_of_attempt_ordinal", "retry_reason", "backoff_ms"]
  | .usage => ["usage_source"]
  | .transportError => ["error_class", "timeout_ms"]

/-- The first member of another kind that the object holds, and that kind. -/
def foreignMember (kind : InferenceArtifactKind) (object : List (String × Value)) :
    Option (InferenceArtifactKind × String) :=
  [.providerRequest, .providerResponse, .streamingEvent, .retry, .usage, .transportError].findSome?
    fun owner =>
      if owner = kind then none
      else ((kindSpecificMembers owner).find? fun member => Object.contains member object).map
        fun member => (owner, member)

def payloadRequired : InferenceArtifactKind → Bool
  | .providerRequest => true
  | .providerResponse => true
  | .streamingEvent => true
  | _ => false

/-- The members that a record of the kind requires. -/
def requiredMembers (kind : InferenceArtifactKind) (object : List (String × Value)) :
    Result BoundaryEvent :=
  match kind with
  | .providerRequest => .ok .providerRequest
  | .providerResponse => .ok .providerResponse
  | .streamingEvent => do
    let eventOrdinal ← integer invalid object "event_ordinal"
    .ok (.streamingEvent eventOrdinal)
  | .retry => do
    let retryOf ← integer invalid object "retry_of_attempt_ordinal"
    let retryReason ← typed invalid object "retry_reason"
    let backoffMs ← optionalU63 invalid object "backoff_ms"
    .ok (.retry retryOf retryReason backoffMs)
  | .usage => do
    let usageSource ← typed invalid object "usage_source"
    .ok (.usage usageSource)
  | .transportError => do
    let errorClass ← typed invalid object "error_class"
    let timeoutMs ← optionalU63 invalid object "timeout_ms"
    .ok (.transportError errorClass timeoutMs)

def parseEvent (object : List (String × Value)) : Result BoundaryEvent := do
  let kind : InferenceArtifactKind ← typed invalid object "artifact_kind"
  match foreignMember kind object with
  | some (owner, member) =>
    .error (invalid member ("member is specific to the " ++ ClosedEnum.token owner ++
      " kind and never present on a " ++ ClosedEnum.token kind ++ " record"))
  | none =>
    if payloadRequired kind && !Object.contains "payload" object then
      .error (invalid "payload"
        ("a " ++ ClosedEnum.token kind ++ " record requires the captured bytes"))
    else requiredMembers kind object

/-- The members of every kind; those of another kind are absent. -/
def specific (eventOrdinal retryOf retryReason backoffMs usageSource errorClass timeoutMs :
    Option Value) : List (String × Option Value) :=
  [("event_ordinal", eventOrdinal), ("retry_of_attempt_ordinal", retryOf),
   ("retry_reason", retryReason), ("backoff_ms", backoffMs), ("usage_source", usageSource),
   ("error_class", errorClass), ("timeout_ms", timeoutMs)]

def BoundaryEvent.known : BoundaryEvent → List (String × Option Value)
  | .providerRequest => specific none none none none none none none
  | .providerResponse => specific none none none none none none none
  | .streamingEvent n => specific (some (u63Value n)) none none none none none none
  | .retry n reason backoffMs =>
    specific none (some (u63Value n)) (some (textValue reason)) (backoffMs.map u63Value) none none
      none
  | .usage source => specific none none none none (some (textValue source)) none none
  | .transportError errorClass timeoutMs =>
    specific none none none none none (some (textValue errorClass)) (timeoutMs.map u63Value)

def BoundaryEvent.counters : BoundaryEvent → List UInt64
  | .streamingEvent n => [n]
  | .retry n _ backoffMs => n :: backoffMs.toList
  | .transportError _ timeoutMs => timeoutMs.toList
  | _ => []

/-! ## The record -/

def version (object : List (String × Value)) : Result Unit := do
  match ← require invalid object "inference_artifact_version" with
  | .int found =>
    if found = INFERENCE_ARTIFACT_VERSION then .ok () else .error (.versionUnsupported found)
  | _ => .error (invalid "inference_artifact_version" "member must be an integer")

/-- An optional member that is an object. -/
def optionalMember {T : Type} (fromValue : Value → Result T) (object : List (String × Value))
    (field : String) : Result (Option T) :=
  match Object.get field object with
  | none => .ok none
  | some member => (fromValue member).map some

namespace InferenceArtifact

def semanticChecks (r : InferenceArtifact) : Result Unit :=
  if r.captureTime.any fun time => !calendarValid time then
    .error (invalid "capture_time" "timestamp is not a real calendar instant")
  else
    match r.event with
    | .retry retryOf _ _ =>
      if r.attemptOrdinal ≤ retryOf then
        .error (invalid "retry_of_attempt_ordinal"
          "must be strictly less than this record's attempt_ordinal")
      else .ok ()
    | .usage _ =>
      match r.metadata with
      | none => .error (invalid "metadata" "a usage record requires the usage counters")
      | some m =>
        match [("usage_input_tokens", m.usageInputTokens.isSome),
            ("usage_output_tokens", m.usageOutputTokens.isSome),
            ("usage_total_tokens", m.usageTotalTokens.isSome)].find? fun counter => !counter.2 with
        | some counter =>
          .error (invalid "metadata" ("a usage record requires metadata." ++ counter.1))
        | none => .ok ()
    | _ => .ok ()

def readMembers (object : List (String × Value)) : Result InferenceArtifact := do
  let tenantId ← typed invalid object "tenant_id"
  let originClientId ← typed invalid object "origin_client_id"
  let traceId ← typed invalid object "trace_id"
  let inferenceRequestId ← typed invalid object "inference_request_id"
  let providerAttemptId ← typed invalid object "provider_attempt_id"
  let attemptOrdinal ← integer invalid object "attempt_ordinal"
  let captureTime ← Members.optional invalid object "capture_time"
  let payload ← optionalMember Payload.fromValue object "payload"
  let metadata ← optionalMember Metadata.fromValue object "metadata"
  let event ← parseEvent object
  .ok
    { tenantId := tenantId
      originClientId := originClientId
      traceId := traceId
      inferenceRequestId := inferenceRequestId
      providerAttemptId := providerAttemptId
      attemptOrdinal := attemptOrdinal
      captureTime := captureTime
      payload := payload
      metadata := metadata
      event := event
      unknownFields := retained RECORD_FIELD_NAMES object }

def fromValue (value : Value) : Result InferenceArtifact :=
  match value with
  | .object object =>
    -- before any member is read
    match RESERVED_FIELDS.find? fun field => Object.contains field object with
    | some field => .error (invalid field "reserved member of the capture boundary")
    | none => do
      version object
      let artifact ← readMembers object
      artifact.semanticChecks
      .ok artifact
  | _ => .error (.malformed "inference artifact is not a JSON object" none)

def parse (bytes : List UInt8) : Result InferenceArtifact :=
  match Json.parse bytes with
  | .ok value => fromValue value
  | .error source =>
    .error (.malformed "bounded parse of the artifact bytes failed" (some source))

/-- The members this version defines, in the order in which they are set. -/
def known (r : InferenceArtifact) : List (String × Option Value) :=
  [("artifact_kind", some (textValue r.kind)),
   ("attempt_ordinal", some (u63Value r.attemptOrdinal)),
   ("capture_time", r.captureTime.map textValue),
   ("inference_artifact_version", some (.int INFERENCE_ARTIFACT_VERSION)),
   ("inference_request_id", some (textValue r.inferenceRequestId)),
   ("origin_client_id", some (textValue r.originClientId)),
   ("payload", r.payload.map Payload.toValue),
   ("metadata", r.metadata.bind Metadata.toValue),
   ("provider_attempt_id", some (textValue r.providerAttemptId)),
   ("tenant_id", some (textValue r.tenantId)),
   ("trace_id", some (textValue r.traceId))] ++ r.event.known

/-- The counters that are written. -/
def counters (r : InferenceArtifact) : List UInt64 :=
  r.attemptOrdinal :: ((r.payload.map Payload.payloadSize).toList ++
    (r.metadata.map Metadata.counters).getD [] ++ r.event.counters)

/-- The record as a value; none where a counter does not fit and `u63_value` panics. -/
def toValue (r : InferenceArtifact) : Option Value :=
  if ∀ n ∈ r.counters, Fits n then some (written r.known r.unknownFields) else none

def canonicalBytes (r : InferenceArtifact) : Option (List UInt8) := r.toValue.map Json.canonicalBytes

end InferenceArtifact

end AgentArchivist.Protocol.InferenceArtifact
