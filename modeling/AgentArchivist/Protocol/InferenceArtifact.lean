import AgentArchivist.Protocol.Json
import AgentArchivist.Protocol.Vocabulary

/-! # The inference artifact

One record of what was observed at the provider boundary. A record carries no
proof of its semantic checks here: the sequencer builds records and the
reconstruction reads any. -/
namespace AgentArchivist.Protocol.InferenceArtifact
open Protocol
open Json Vocabulary

/-- Digest and size of the captured bytes. -/
structure Payload where
  payloadDigest : BlobDigest
  payloadSize : UInt64
  unknownFields : List (String × Value)

/-- The closed allowlist of header-derived values. -/
structure Metadata where
  contentType : Option String
  providerRequestId : Option String
  httpStatus : Option UInt64
  rateLimitLimit : Option UInt64
  rateLimitRemaining : Option UInt64
  rateLimitReset : Option UInt64
  usageInputTokens : Option UInt64
  usageOutputTokens : Option UInt64
  usageTotalTokens : Option UInt64
deriving DecidableEq

/-- The kind of a record and the members of that kind. -/
inductive BoundaryEvent where
  | providerRequest
  | providerResponse
  | streamingEvent (eventOrdinal : UInt64)
  | retry (retryOfAttemptOrdinal : UInt64) (retryReason : RetryReason) (backoffMs : Option UInt64)
  | usage (usageSource : UsageSource)
  | transportError (errorClass : TransportErrorClass) (timeoutMs : Option UInt64)
deriving DecidableEq

def BoundaryEvent.kind : BoundaryEvent → InferenceArtifactKind
  | .providerRequest => .providerRequest
  | .providerResponse => .providerResponse
  | .streamingEvent _ => .streamingEvent
  | .retry _ _ _ => .retry
  | .usage _ => .usage
  | .transportError _ _ => .transportError

structure InferenceArtifact where
  tenantId : TenantId
  originClientId : ClientId
  traceId : TraceId
  inferenceRequestId : InferenceRequestId
  providerAttemptId : ProviderAttemptId
  attemptOrdinal : UInt64
  captureTime : Option Timestamp
  payload : Option Payload
  metadata : Option Metadata
  event : BoundaryEvent
  unknownFields : List (String × Value)

def InferenceArtifact.kind (r : InferenceArtifact) : InferenceArtifactKind := r.event.kind

end AgentArchivist.Protocol.InferenceArtifact
