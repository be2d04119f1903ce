import AgentArchivist.Lib.Grouping
import AgentArchivist.Lib.Word
import AgentArchivist.Protocol.InferenceArtifact

/-! # Reconstructing attempts from records

The read-side fold: records are grouped by ordinal and identity, each group is
folded into a view, and what does not fit is disclosed as an anomaly. The loops
that push to one list of anomalies are functions that return what they push, in
the source's order. -/
namespace AgentArchivist.Protocol.AttemptReconstruction
open Lib
open Grouping Utf8 Word InferenceArtifact Vocabulary

structure PayloadRef where
  digest : BlobDigest
  size : UInt64
deriving DecidableEq

def PayloadRef.ofPayload (payload : Payload) : PayloadRef where
  digest := payload.payloadDigest
  size := payload.payloadSize

structure AttemptTransportError where
  errorClass : TransportErrorClass
  timeoutMs : Option UInt64
deriving DecidableEq

/-- The retry that entered an attempt, kept on the successor. -/
structure RetryTransition where
  reason : RetryReason
  ofAttemptOrdinal : UInt64
  backoffMs : Option UInt64
deriving DecidableEq

structure UsageObservation where
  source : UsageSource
  inputTokens : UInt64
  outputTokens : UInt64
  totalTokens : UInt64
  payload : Option PayloadRef
deriving DecidableEq

structure StreamEventRef where
  eventOrdinal : UInt64
  payload : PayloadRef
deriving DecidableEq

inductive AttemptTerminalState where
  | completed
  | transportFailed (errorClass : TransportErrorClass)
  | abandonedMidStream (events : UInt64)
  | truncated
deriving DecidableEq

inductive AttemptOutcome where
  | failed (errorClass : TransportErrorClass)
  | responded
  | streamed (events : UInt64)
  | requested
  | entered
  | unevidenced
deriving DecidableEq

inductive PartitionField where
  | traceId
  | tenantId
  | originClientId
deriving DecidableEq

inductive ReconstructionAnomaly where
  | conflictingAttemptOrdinal (attemptOrdinal : UInt64)
  | inconsistentAttemptIdentity
  | unresolvedRetryCitation (attemptOrdinal citedOrdinal : UInt64)
  | duplicateEventOrdinal (attemptOrdinal eventOrdinal : UInt64)
  | eventOrdinalGap (attemptOrdinal expectedOrdinal : UInt64)
  | conflictingAttemptEvidence (attemptOrdinal : UInt64) (kind : InferenceArtifactKind)
  | inconsistentPartition (field : PartitionField)
deriving DecidableEq

inductive ReconstructionError where
  | mixedInference
deriving DecidableEq

structure AttemptReconstruction where
  providerAttemptId : ProviderAttemptId
  attemptOrdinal : UInt64
  request : Option PayloadRef
  response : Option PayloadRef
  streamEvents : List StreamEventRef
  transportError : Option AttemptTransportError
  enteredVia : Option RetryTransition
  usageReports : List UsageObservation
  artifacts : List InferenceArtifact
  terminalState : AttemptTerminalState
  outcome : AttemptOutcome

structure InferenceReconstruction where
  inferenceRequestId : Option InferenceRequestId
  traceId : Option TraceId
  attempts : List AttemptReconstruction
  anomalies : List ReconstructionAnomaly

/-! ## Grouping -/

/-- Identities are ordered as their texts are, byte by byte. -/
def cmpId : ProviderAttemptId → ProviderAttemptId → Ordering := compareOn fun id => utf8 id.asStr

def cmpKey : UInt64 × ProviderAttemptId → UInt64 × ProviderAttemptId → Ordering :=
  compareLex (compareOn Prod.fst) fun a b => cmpId a.2 b.2

def groups (artifacts : List InferenceArtifact) :
    List ((UInt64 × ProviderAttemptId) × List InferenceArtifact) :=
  group cmpKey (artifacts.map fun a => ((a.attemptOrdinal, a.providerAttemptId), a))

/-- More than one identity under an ordinal, or more than one ordinal under an identity. -/
def identityAnomalies (keys : List (UInt64 × ProviderAttemptId)) : List ReconstructionAnomaly :=
  let ordinalIdentities := group compare keys
  let identityOrdinals := group cmpId (keys.map fun k => (k.2, k.1))
  (ordinalIdentities.filterMap fun entry =>
    if 1 < entry.2.length then some (.conflictingAttemptOrdinal entry.1) else none) ++
  if identityOrdinals.any fun entry => 1 < entry.2.length then [.inconsistentAttemptIdentity] else []

/-! ## One attempt -/

/-- The view of a group while its members are read, the event ordinals seen and the
anomalies pushed. -/
structure Fold where
  view : AttemptReconstruction
  eventOrdinals : List UInt64
  anomalies : List ReconstructionAnomaly

def usageObservation (member : InferenceArtifact) (source : UsageSource) :
    Option UsageObservation := do
  let metadata ← member.metadata
  let inputTokens ← metadata.usageInputTokens
  let outputTokens ← metadata.usageOutputTokens
  let totalTokens ← metadata.usageTotalTokens
  some { source, inputTokens, outputTokens, totalTokens, payload := member.payload.map .ofPayload }

def Fold.conflict (f : Fold) (kind : InferenceArtifactKind) : Fold :=
  { f with anomalies :=
      f.anomalies ++ [.conflictingAttemptEvidence f.view.attemptOrdinal kind] }

/-- Read one member. -/
def Fold.member (f : Fold) (member : InferenceArtifact) : Fold :=
  match member.event with
  | .providerRequest =>
    if f.view.request.isSome then f.conflict .providerRequest
    else { f with view := { f.view with request := member.payload.map .ofPayload } }
  | .providerResponse =>
    if f.view.response.isSome then f.conflict .providerResponse
    else { f with view := { f.view with response := member.payload.map .ofPayload } }
  | .streamingEvent eventOrdinal =>
    let seen := f.eventOrdinals.contains eventOrdinal
    let event := member.payload.map fun p => StreamEventRef.mk eventOrdinal (.ofPayload p)
    { view := { f.view with streamEvents := f.view.streamEvents ++ event.toList }
      eventOrdinals := if seen then f.eventOrdinals else eventOrdinal :: f.eventOrdinals
      anomalies :=
        if seen then f.anomalies ++ [.duplicateEventOrdinal f.view.attemptOrdinal eventOrdinal]
        else f.anomalies }
  | .retry ofAttemptOrdinal reason backoffMs =>
    if f.view.enteredVia.isSome then f.conflict .retry
    else { f with view := { f.view with
      enteredVia := some { reason, ofAttemptOrdinal, backoffMs } } }
  | .usage source =>
    { f with view := { f.view with
      usageReports := f.view.usageReports ++ (usageObservation member source).toList } }
  | .transportError errorClass timeoutMs =>
    if f.view.transportError.isSome then f.conflict .transportError
    else { f with view := { f.view with transportError := some { errorClass, timeoutMs } } }

/-- The first event that breaks the dense order. -/
def eventGap (attemptOrdinal expected : UInt64) : List StreamEventRef → List ReconstructionAnomaly
  | [] => []
  | event :: rest =>
    if event.eventOrdinal ≠ expected then [.eventOrdinalGap attemptOrdinal expected]
    else eventGap attemptOrdinal (saturatingAdd expected 1) rest

def terminalState (view : AttemptReconstruction) : AttemptTerminalState :=
  match view.transportError with
  | some error => .transportFailed error.errorClass
  | none =>
    if view.response.isSome then .completed
    else if !view.streamEvents.isEmpty then
      .abandonedMidStream (UInt64.ofNat view.streamEvents.length)
    else .truncated

def outcome (view : AttemptReconstruction) : AttemptOutcome :=
  match view.transportError with
  | some error => .failed error.errorClass
  | none =>
    if view.response.isSome then .responded
    else if !view.streamEvents.isEmpty then .streamed (UInt64.ofNat view.streamEvents.length)
    else if view.request.isSome then .requested
    else if view.enteredVia.isSome then .entered
    else .unevidenced

/-- The view of a group before its members are read. -/
def emptyView (key : UInt64 × ProviderAttemptId) (members : List InferenceArtifact) :
    AttemptReconstruction where
  providerAttemptId := key.2
  attemptOrdinal := key.1
  request := none
  response := none
  streamEvents := []
  transportError := none
  enteredVia := none
  usageReports := []
  artifacts := members
  terminalState := .truncated
  outcome := .unevidenced

/-- The view of one group and the anomalies found in it. -/
def attemptView (key : UInt64 × ProviderAttemptId) (members : List InferenceArtifact) :
    AttemptReconstruction × List ReconstructionAnomaly :=
  let f := members.foldl Fold.member ⟨emptyView key members, [], []⟩
  let sorted := { f.view with
    streamEvents := f.view.streamEvents.mergeSort fun a b => decide (a.eventOrdinal ≤ b.eventOrdinal) }
  let settled := { sorted with terminalState := terminalState sorted }
  ({ settled with outcome := outcome settled },
   f.anomalies ++ eventGap key.1 0 sorted.streamEvents)

/-! ## The inference -/

/-- A retry that cites an attempt without records. -/
def unresolvedRetry (presentOrdinals : List UInt64) (attempt : AttemptReconstruction) :
    Option ReconstructionAnomaly :=
  attempt.enteredVia.bind fun transition =>
    if presentOrdinals.contains transition.ofAttemptOrdinal then none
    else some (.unresolvedRetryCitation attempt.attemptOrdinal transition.ofAttemptOrdinal)

def unresolvedRetries (attempts : List AttemptReconstruction) : List ReconstructionAnomaly :=
  attempts.filterMap (unresolvedRetry (attempts.map (·.attemptOrdinal)))

/-- `InconsistentPartition` where a member is not unanimous. -/
def partitionAnomaly {α : Type} [DecidableEq α] (artifacts : List InferenceArtifact)
    (first : InferenceArtifact) (member : InferenceArtifact → α) (field : PartitionField) :
    List ReconstructionAnomaly :=
  if artifacts.all fun a => member a = member first then [] else [.inconsistentPartition field]

def reconstructInference (artifacts : List InferenceArtifact) :
    Except ReconstructionError InferenceReconstruction :=
  match artifacts.head? with
  | none => .ok ⟨none, none, [], []⟩
  | some first =>
    if artifacts.any fun a => a.inferenceRequestId ≠ first.inferenceRequestId then
      .error .mixedInference
    else
      let gs := groups artifacts
      let views := gs.map fun g => attemptView g.1 g.2
      let attempts := views.map Prod.fst
      .ok
        { inferenceRequestId := some first.inferenceRequestId
          traceId := if artifacts.all fun a => a.traceId = first.traceId then some first.traceId
            else none
          attempts := attempts
          anomalies :=
            partitionAnomaly artifacts first (·.traceId) .traceId ++
            partitionAnomaly artifacts first (·.tenantId) .tenantId ++
            partitionAnomaly artifacts first (·.originClientId) .originClientId ++
            identityAnomalies (gs.map Prod.fst) ++
            views.flatMap Prod.snd ++ unresolvedRetries attempts }

end AgentArchivist.Protocol.AttemptReconstruction
