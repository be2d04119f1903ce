import AgentArchivist.Protocol.Correlation
import AgentArchivist.Protocol.Derivation
import AgentArchivist.Protocol.InferenceArtifact

/-! # The attempt sequencer

The capture-side state machine of one logical inference. An operation runs in
`SequencerM`, where what was written to the sequencer before a refusal stays
written, as it does behind the source's `&mut self`. -/
namespace AgentArchivist.Protocol.AttemptSequence
open Lib.Word Correlation Derivation InferenceArtifact Vocabulary

inductive SequenceError where
  | attemptOrdinalExhausted
  | attemptAlreadyStarted (attemptOrdinal : UInt64)
  | noOpenAttempt
  | attemptClosed (attemptOrdinal : UInt64)
  | requestAlreadyCaptured (attemptOrdinal : UInt64)
  | responseAlreadyCaptured (attemptOrdinal : UInt64)
  | streamEventAfterResponse (attemptOrdinal : UInt64)
  | transportErrorAfterResponse (attemptOrdinal : UInt64)
  | eventOrdinalExhausted (attemptOrdinal : UInt64)
  | emptyPayload (attemptOrdinal : UInt64)
  | invalidCaptureTime
  | usagePayloadMismatch
deriving DecidableEq, Repr

/-- The progress of the attempt that is being tracked. -/
structure AttemptTrack where
  attempt : ProviderAttempt
  nextEventOrdinal : UInt64
  requestCaptured : Bool
  responseCaptured : Bool
  failed : Bool
deriving DecidableEq

namespace AttemptTrack

def forAttempt (attempt : ProviderAttempt) : AttemptTrack where
  attempt := attempt
  nextEventOrdinal := 0
  requestCaptured := false
  responseCaptured := false
  failed := false

def attemptOrdinal (track : AttemptTrack) : UInt64 := track.attempt.attemptOrdinal

def ensureOpen (track : AttemptTrack) : Except SequenceError Unit :=
  if track.failed then .error (.attemptClosed track.attemptOrdinal) else .ok ()

end AttemptTrack

structure AttemptSequencer where
  tenantId : TenantId
  originClientId : ClientId
  inference : LogicalInference
  current : Option AttemptTrack

/-- A sequencer without a running attempt. -/
def AttemptSequencer.new (tenantId : TenantId) (originClientId : ClientId)
    (inference : LogicalInference) : AttemptSequencer where
  tenantId := tenantId
  originClientId := originClientId
  inference := inference
  current := none

abbrev SequencerM := ExceptT SequenceError (StateM AttemptSequencer)

/-! ## Parts of the operations -/

def checkedTime (captureTime : Option Timestamp) : Except SequenceError Unit :=
  match captureTime with
  | some time => if calendarValid time then .ok () else .error .invalidCaptureTime
  | none => .ok ()

/-- `self.current.as_mut().ok_or(NoOpenAttempt)?`. -/
def currentTrack : SequencerM AttemptTrack := do
  match (← get).current with
  | some track => pure track
  | none => throw .noOpenAttempt

/-- What is assigned through the track that `current` lends. -/
def setTrack (track : AttemptTrack) : SequencerM Unit :=
  modify fun s => { s with current := some track }

/-- Digest and size of the bytes that were observed. -/
def payload (bytes : List UInt8) (track : AttemptTrack) : Except SequenceError Payload :=
  if bytes.isEmpty then .error (.emptyPayload track.attemptOrdinal)
  else .ok
    { payloadDigest := blobDigest bytes
      payloadSize := UInt64.ofNat (min bytes.length (2 ^ 64 - 1))
      unknownFields := [] }

def stamp (track : AttemptTrack) (s : AttemptSequencer) (event : BoundaryEvent)
    (payload : Option Payload) (metadata : Option Metadata) (captureTime : Option Timestamp) :
    InferenceArtifact where
  tenantId := s.tenantId
  originClientId := s.originClientId
  traceId := track.attempt.traceId
  inferenceRequestId := track.attempt.inferenceRequestId
  providerAttemptId := track.attempt.id
  attemptOrdinal := track.attempt.attemptOrdinal
  captureTime := captureTime
  payload := payload
  metadata := metadata
  event := event
  unknownFields := []

def mintAttempt (minted : ProviderAttemptId) : SequencerM ProviderAttempt := do
  let s ← get
  let (result, inference) := s.inference.startAttempt minted
  set { s with inference := inference }
  match result with
  | .ok attempt => pure attempt
  | .error .attemptOrdinalExhausted => throw .attemptOrdinalExhausted

/-! ## Operations -/

def startAttempt (minted : ProviderAttemptId) : SequencerM ProviderAttempt := do
  if let some track := (← get).current then throw (.attemptAlreadyStarted track.attemptOrdinal)
  let attempt ← mintAttempt minted
  setTrack (.forAttempt attempt)
  pure attempt

def providerRequest (bytes : List UInt8) (metadata : Option Metadata)
    (captureTime : Option Timestamp) : SequencerM InferenceArtifact := do
  MonadExcept.ofExcept (checkedTime captureTime)
  let track ← currentTrack
  MonadExcept.ofExcept track.ensureOpen
  if track.requestCaptured then throw (.requestAlreadyCaptured track.attemptOrdinal)
  let payload ← MonadExcept.ofExcept (payload bytes track)
  setTrack { track with requestCaptured := true }
  pure (stamp track (← get) .providerRequest (some payload) metadata captureTime)

def providerResponse (bytes : List UInt8) (metadata : Option Metadata)
    (captureTime : Option Timestamp) : SequencerM InferenceArtifact := do
  MonadExcept.ofExcept (checkedTime captureTime)
  let track ← currentTrack
  MonadExcept.ofExcept track.ensureOpen
  if track.responseCaptured then throw (.responseAlreadyCaptured track.attemptOrdinal)
  let payload ← MonadExcept.ofExcept (payload bytes track)
  setTrack { track with responseCaptured := true }
  pure (stamp track (← get) .providerResponse (some payload) metadata captureTime)

def streamEvent (bytes : List UInt8) (metadata : Option Metadata)
    (captureTime : Option Timestamp) : SequencerM InferenceArtifact := do
  MonadExcept.ofExcept (checkedTime captureTime)
  let track ← currentTrack
  MonadExcept.ofExcept track.ensureOpen
  if track.responseCaptured then throw (.streamEventAfterResponse track.attemptOrdinal)
  let eventOrdinal := track.nextEventOrdinal
  let payload ← MonadExcept.ofExcept (payload bytes track)
  match checkedAdd eventOrdinal 1 with
  | none => throw (.eventOrdinalExhausted track.attemptOrdinal)
  | some next =>
    setTrack { track with nextEventOrdinal := next }
    pure (stamp track (← get) (.streamingEvent eventOrdinal) (some payload) metadata captureTime)

/-- A stream-event report carries the bytes of its event, a response-body report none. -/
def usagePayload (usageSource : UsageSource) (reportingBytes : Option (List UInt8))
    (track : AttemptTrack) : Except SequenceError (Option Payload) :=
  match usageSource, reportingBytes with
  | .streamEvent, some bytes => (payload bytes track).map some
  | .responseBody, none => .ok none
  | .streamEvent, none => .error .usagePayloadMismatch
  | .responseBody, some _ => .error .usagePayloadMismatch

def usage (usageSource : UsageSource) (reportingBytes : Option (List UInt8))
    (inputTokens outputTokens totalTokens : UInt64) (captureTime : Option Timestamp) :
    SequencerM InferenceArtifact := do
  MonadExcept.ofExcept (checkedTime captureTime)
  let track ← currentTrack
  MonadExcept.ofExcept track.ensureOpen
  let payload ← MonadExcept.ofExcept (usagePayload usageSource reportingBytes track)
  let metadata : Metadata :=
    { contentType := none
      providerRequestId := none
      httpStatus := none
      rateLimitLimit := none
      rateLimitRemaining := none
      rateLimitReset := none
      usageInputTokens := some inputTokens
      usageOutputTokens := some outputTokens
      usageTotalTokens := some totalTokens }
  pure (stamp track (← get) (.usage usageSource) payload (some metadata) captureTime)

def transportError (errorClass : TransportErrorClass) (timeoutMs : Option UInt64)
    (captureTime : Option Timestamp) : SequencerM InferenceArtifact := do
  MonadExcept.ofExcept (checkedTime captureTime)
  let track ← currentTrack
  MonadExcept.ofExcept track.ensureOpen
  if track.responseCaptured then throw (.transportErrorAfterResponse track.attemptOrdinal)
  setTrack { track with failed := true }
  pure (stamp track (← get) (.transportError errorClass timeoutMs) none none captureTime)

/-- The record is stamped with the successor, which replaces the track only after it. -/
def retry (minted : ProviderAttemptId) (retryReason : RetryReason) (backoffMs : Option UInt64)
    (captureTime : Option Timestamp) : SequencerM InferenceArtifact := do
  MonadExcept.ofExcept (checkedTime captureTime)
  let track ← currentTrack
  let next ← mintAttempt minted
  let artifact := stamp (.forAttempt next) (← get)
    (.retry track.attemptOrdinal retryReason backoffMs) none none captureTime
  setTrack (.forAttempt next)
  pure artifact

/-! ## Runs -/

/-- One call with its arguments; `minted` is what minting returns if the call mints. -/
inductive Operation where
  | startAttempt (minted : ProviderAttemptId)
  | providerRequest (bytes : List UInt8) (metadata : Option Metadata)
      (captureTime : Option Timestamp)
  | providerResponse (bytes : List UInt8) (metadata : Option Metadata)
      (captureTime : Option Timestamp)
  | streamEvent (bytes : List UInt8) (metadata : Option Metadata) (captureTime : Option Timestamp)
  | usage (usageSource : UsageSource) (reportingBytes : Option (List UInt8))
      (inputTokens outputTokens totalTokens : UInt64) (captureTime : Option Timestamp)
  | transportError (errorClass : TransportErrorClass) (timeoutMs : Option UInt64)
      (captureTime : Option Timestamp)
  | retry (minted : ProviderAttemptId) (retryReason : RetryReason) (backoffMs : Option UInt64)
      (captureTime : Option Timestamp)

/-- What a call returned. -/
inductive Outcome where
  | attempt (attempt : ProviderAttempt)
  | record (artifact : InferenceArtifact)
  | refused (error : SequenceError)

def answer {α : Type} (returned : α → Outcome) (operation : SequencerM α) (s : AttemptSequencer) :
    Outcome × AttemptSequencer :=
  match operation.run.run s with
  | (.ok a, s') => (returned a, s')
  | (.error error, s') => (.refused error, s')

def step (s : AttemptSequencer) : Operation → Outcome × AttemptSequencer
  | .startAttempt minted => answer .attempt (startAttempt minted) s
  | .providerRequest bytes metadata time => answer .record (providerRequest bytes metadata time) s
  | .providerResponse bytes metadata time => answer .record (providerResponse bytes metadata time) s
  | .streamEvent bytes metadata time => answer .record (streamEvent bytes metadata time) s
  | .usage source bytes input output total time =>
    answer .record (usage source bytes input output total time) s
  | .transportError errorClass timeoutMs time =>
    answer .record (transportError errorClass timeoutMs time) s
  | .retry minted reason backoffMs time => answer .record (retry minted reason backoffMs time) s

end AgentArchivist.Protocol.AttemptSequence
