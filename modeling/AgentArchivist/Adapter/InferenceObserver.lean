import AgentArchivist.Lib.Calling
import AgentArchivist.Protocol.ArtifactDocument
import AgentArchivist.Protocol.AttemptSequence

/-! # The inference observer

One logical inference as an integration reports it: attempts, decoded bytes, outcomes,
flushes and the close. The sink is what the observer calls: it may accept or refuse any
artifact and answer a flush with any state. -/
namespace AgentArchivist.Adapter.InferenceObserver
open Lib Protocol
open Calling Proc Word AttemptSequence Correlation InferenceArtifact Vocabulary

inductive FlushState where
  | notStarted
  | pending
  | acknowledged
  | incomplete
deriving DecidableEq

def FlushState.isAcknowledged : FlushState → Bool
  | .acknowledged => true
  | _ => false

inductive IntegrationFailure where
  | observerUnavailable
  | captureFailed
  | flushIncomplete
  | routeSelectionFailed
deriving DecidableEq

inductive SinkFailure where
  | unavailable
  | rejected
deriving DecidableEq

inductive InferenceObserverError where
  | notStarted
  | closed
  | alreadyStarted
  | attemptAlreadyStarted
  | noOpenAttempt
  | attemptNotFinished
  | sequence (error : SequenceError)
  | sink (failure : SinkFailure)
  | failed (failure : IntegrationFailure)
  | invalidCaptureTime
deriving DecidableEq

structure LogicalInferenceStart where
  traceId : TraceId
  inferenceRequestId : InferenceRequestId
  startedAt : Option Timestamp
deriving DecidableEq

inductive AttemptOutcome where
  | completed
  | transportError (errorClass : TransportErrorClass) (timeoutMs : Option UInt64)
  | incomplete

inductive LogicalInferenceOutcome where
  | complete
  | incomplete
deriving DecidableEq

structure LogicalInferenceClose where
  start : LogicalInferenceStart
  outcome : LogicalInferenceOutcome
  flushState : FlushState
  failure : Option IntegrationFailure
  emittedArtifacts : UInt64
deriving DecidableEq

/-! ## The sink -/

/-- A record with the canonical bytes that the sink persists. -/
structure CanonicalArtifact where
  artifact : InferenceArtifact
  canonicalBytes : List UInt8

/-- None where writing the record panics. -/
def CanonicalArtifact.new (artifact : InferenceArtifact) : Option CanonicalArtifact :=
  artifact.canonicalBytes.map fun canonicalBytes => ⟨artifact, canonicalBytes⟩

inductive SinkCall where
  | emit (artifact : CanonicalArtifact)
  | flush
  /-- A panic: it is never answered, so the operation does not return. -/
  | panic

def sink : Interface where
  Call := SinkCall
  Reply
    | .emit _ => Except SinkFailure Unit
    | .flush => FlushState
    | .panic => Empty

/-! ## The observer -/

/-- The state of `InferenceObserverV1`, apart from its sink. -/
structure InferenceObserverV1 where
  tenantId : TenantId
  originClientId : ClientId
  start : Option LogicalInferenceStart
  sequencer : Option AttemptSequencer
  activeAttempt : Option ProviderAttempt
  unclosedAttempt : Bool
  failure : Option IntegrationFailure
  flushState : FlushState
  emittedArtifacts : UInt64
  closed : Bool

def InferenceObserverV1.new (tenantId : TenantId) (originClientId : ClientId) :
    InferenceObserverV1 where
  tenantId := tenantId
  originClientId := originClientId
  start := none
  sequencer := none
  activeAttempt := none
  unclosedAttempt := false
  failure := none
  flushState := .notStarted
  emittedArtifacts := 0
  closed := false

abbrev ObserverM := Operation sink InferenceObserverError InferenceObserverV1

/-- `self.sink.emit`. -/
def sinkEmit (artifact : CanonicalArtifact) : ObserverM (Except SinkFailure Unit) :=
  request (I := sink) (SinkCall.emit artifact)

/-- `self.sink.flush`. -/
def sinkFlush : ObserverM FlushState := request (I := sink) SinkCall.flush

def panicked {α : Type} : ObserverM α := fun _ => .call (I := sink) SinkCall.panic nofun

def ensureStarted (o : InferenceObserverV1) : Except InferenceObserverError Unit :=
  if o.closed then .error .closed
  else
    match o.failure with
    | some failure => .error (.failed failure)
    | none => if o.start.isNone then .error .notStarted else .ok ()

def ensureCloseable (o : InferenceObserverV1) : Except InferenceObserverError Unit :=
  if o.closed then .error .closed
  else if o.start.isNone then .error .notStarted
  else .ok ()

def ensureEventReady (o : InferenceObserverV1) : Except InferenceObserverError Unit := do
  ensureStarted o
  if o.activeAttempt.isNone then .error .noOpenAttempt else .ok ()

def checkedCaptureTime (time : Option Timestamp) : Except InferenceObserverError Unit :=
  if time.any fun value => !calendarValid value then .error .invalidCaptureTime else .ok ()

def sequenceError : SequenceError → InferenceObserverError
  | .noOpenAttempt => .noOpenAttempt
  | other => .sequence other

/-- `self.sequencer.as_mut().ok_or(NotStarted)?`, and an operation of it. -/
def sequenced {α : Type} (operation : SequencerM α) : ObserverM α := do
  match (← get).sequencer with
  | none => throw .notStarted
  | some s =>
    let (result, s') := operation.run.run s
    modify fun o => { o with sequencer := some s' }
    MonadExcept.ofExcept (result.mapError sequenceError)

def emit (artifact : InferenceArtifact) : ObserverM Unit :=
  match CanonicalArtifact.new artifact with
  | none => panicked
  | some canonical => do
    match ← sinkEmit canonical with
    | .ok () => modify fun o => { o with emittedArtifacts := saturatingAdd o.emittedArtifacts 1 }
    | .error error =>
      modify fun o => { o with failure := some .captureFailed }
      throw (.sink error)

/-- What the observations have in common: an attempt is active, and its record is emitted. -/
def observe (operation : SequencerM InferenceArtifact) : ObserverM Unit := do
  MonadExcept.ofExcept (ensureEventReady (← get))
  let artifact ← sequenced operation
  emit artifact

def startLogicalInference (traceId : TraceId) (inferenceRequestId : InferenceRequestId)
    (startedAt : Option Timestamp) : ObserverM LogicalInferenceStart := do
  let o ← get
  if o.closed then throw .closed
  if o.start.isSome then throw .alreadyStarted
  MonadExcept.ofExcept (checkedCaptureTime startedAt)
  let inference := OrchestratorOperation.startInference ⟨traceId⟩ inferenceRequestId
  let start : LogicalInferenceStart :=
    { traceId := inference.traceId
      inferenceRequestId := inference.inferenceRequestId
      startedAt := startedAt }
  modify fun o => { o with
    sequencer := some (.new o.tenantId o.originClientId inference), start := some start }
  pure start

def startProviderAttempt (minted : ProviderAttemptId) : ObserverM ProviderAttempt := do
  let o ← get
  MonadExcept.ofExcept (ensureStarted o)
  if o.activeAttempt.isSome then throw .attemptAlreadyStarted
  let attempt ← sequenced (startAttempt minted)
  modify fun o => { o with activeAttempt := some attempt }
  pure attempt

def decodedRequestBytes (bytes : List UInt8) (metadata : Option Metadata)
    (captureTime : Option Timestamp) : ObserverM Unit :=
  observe (providerRequest bytes metadata captureTime)

def decodedResponseEvent (bytes : List UInt8) (metadata : Option Metadata)
    (captureTime : Option Timestamp) : ObserverM Unit :=
  observe (streamEvent bytes metadata captureTime)

def decodedResponseBytes (bytes : List UInt8) (metadata : Option Metadata)
    (captureTime : Option Timestamp) : ObserverM Unit :=
  observe (providerResponse bytes metadata captureTime)

def usage (usageSource : UsageSource) (reportingBytes : Option (List UInt8))
    (inputTokens outputTokens totalTokens : UInt64) (captureTime : Option Timestamp) :
    ObserverM Unit :=
  observe (Protocol.AttemptSequence.usage usageSource reportingBytes inputTokens outputTokens totalTokens
    captureTime)

def attemptOutcome (outcome : AttemptOutcome) (captureTime : Option Timestamp) : ObserverM Unit := do
  MonadExcept.ofExcept (ensureEventReady (← get))
  MonadExcept.ofExcept (checkedCaptureTime captureTime)
  match outcome with
  | .transportError errorClass timeoutMs => do
    let artifact ← sequenced (transportError errorClass timeoutMs captureTime)
    emit artifact
  | _ => pure ()
  modify fun o => { o with activeAttempt := none }

def startRetryAttempt (minted : ProviderAttemptId) (retryReason : RetryReason)
    (backoffMs : Option UInt64) (captureTime : Option Timestamp) : ObserverM ProviderAttempt := do
  let o ← get
  MonadExcept.ofExcept (ensureStarted o)
  if o.activeAttempt.isSome then throw .attemptNotFinished
  MonadExcept.ofExcept (checkedCaptureTime captureTime)
  let artifact ← sequenced (retry minted retryReason backoffMs captureTime)
  match ((← get).sequencer.bind AttemptSequencer.current).map AttemptTrack.attempt with
  | none => throw .noOpenAttempt
  | some attempt =>
    emit artifact
    modify fun o => { o with activeAttempt := some attempt }
    pure attempt

def flush : ObserverM FlushState := do
  MonadExcept.ofExcept (ensureStarted (← get))
  let state ← sinkFlush
  modify fun o => { o with flushState := state }
  pure state

def closeLogicalInference : ObserverM LogicalInferenceClose := do
  let o ← get
  MonadExcept.ofExcept (ensureCloseable o)
  match o.start with
  | none => throw .notStarted
  | some start =>
    if o.activeAttempt.isSome then
      modify fun o => { o with unclosedAttempt := true, activeAttempt := none }
    let flushState ← sinkFlush
    modify fun o => { o with flushState := flushState }
    let o ← get
    let failure := o.failure.or
      (if !flushState.isAcknowledged then some .flushIncomplete
       else if o.unclosedAttempt then some .captureFailed
       else none)
    modify fun o => { o with closed := true }
    pure
      { start := start
        outcome := if failure.isNone then .complete else .incomplete
        flushState := flushState
        failure := failure
        emittedArtifacts := o.emittedArtifacts }

end AgentArchivist.Adapter.InferenceObserver
