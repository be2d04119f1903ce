import AgentArchivist.Lib.Word
import AgentArchivist.Protocol.Vocabulary

/-! # Correlation identities

One operation owns a trace, one logical inference an inference request, and every
transport attempt a minted provider attempt identity with the next ordinal. What
`mint_…` returns is a parameter of the call that mints. -/
namespace AgentArchivist.Protocol.Correlation
open Lib.Word Protocol.Vocabulary

/-- The largest ordinal of the `u63` wire shape. -/
def MAX_ATTEMPT_ORDINAL : UInt64 := 9223372036854775807

inductive CorrelationError where
  | attemptOrdinalExhausted
deriving DecidableEq, Repr

structure OrchestratorOperation where
  traceId : TraceId
deriving DecidableEq

structure LogicalInference where
  traceId : TraceId
  inferenceRequestId : InferenceRequestId
  nextAttemptOrdinal : UInt64
deriving DecidableEq

/-- One provider transport attempt. -/
structure ProviderAttempt where
  traceId : TraceId
  inferenceRequestId : InferenceRequestId
  id : ProviderAttemptId
  attemptOrdinal : UInt64
deriving DecidableEq

def OrchestratorOperation.startInference (operation : OrchestratorOperation)
    (minted : InferenceRequestId) : LogicalInference where
  traceId := operation.traceId
  inferenceRequestId := minted
  nextAttemptOrdinal := 0

/-- Start the next provider transport attempt. -/
def LogicalInference.startAttempt (inference : LogicalInference) (minted : ProviderAttemptId) :
    Except CorrelationError ProviderAttempt × LogicalInference :=
  if MAX_ATTEMPT_ORDINAL < inference.nextAttemptOrdinal then
    (.error .attemptOrdinalExhausted, inference)
  else
    (.ok
      { traceId := inference.traceId
        inferenceRequestId := inference.inferenceRequestId
        id := minted
        attemptOrdinal := inference.nextAttemptOrdinal },
     { inference with nextAttemptOrdinal := saturatingAdd inference.nextAttemptOrdinal 1 })

end AgentArchivist.Protocol.Correlation
