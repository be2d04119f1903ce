import AgentArchivist.Adapter.ObserverExchange
import AgentArchivist.Protocol.AttemptBlocks

/-! # The flush gate of an ephemeral job

The gate counts the close reports of a job's exchanges. It reads their flush states and
not their outcomes: its completion says that every flush was acknowledged, which the
completeness of the closes implies and which does not imply it. -/
namespace AgentArchivist.Adapter.EphemeralFlush
open Lib List
open InferenceObserver ObserverExchange Calling Proc Word
open AgentArchivist.Protocol.AttemptBlocks (firstAttempt sampleExchange)

inductive FlushAbandonment where
  | timeout
  | cancelled
  | authPause
  | storageOutage
deriving DecidableEq

inductive EphemeralCapturePolicy where
  | requireCompleteCapture
  | bestEffort
deriving DecidableEq

inductive EphemeralCompletion where
  | complete
  | incomplete
deriving DecidableEq

structure EphemeralFlushReport where
  flushState : FlushState
  abandonment : Option FlushAbandonment
  outcome : EphemeralCompletion
  policy : EphemeralCapturePolicy
  failure : Option IntegrationFailure
  logicalInferences : UInt64
  acknowledged : UInt64
  emittedArtifacts : UInt64

structure EphemeralFlushGate where
  policy : EphemeralCapturePolicy
  logicalInferences : UInt64
  acknowledged : UInt64
  unacknowledged : UInt64
  emittedArtifacts : UInt64
  abandoned : Option FlushAbandonment

namespace EphemeralFlushGate

def new (policy : EphemeralCapturePolicy) : EphemeralFlushGate where
  policy := policy
  logicalInferences := 0
  acknowledged := 0
  unacknowledged := 0
  emittedArtifacts := 0
  abandoned := none

/-- The teardowns recorded so far, and the gate with this one among them. -/
def record (gate : EphemeralFlushGate) (close : LogicalInferenceClose) :
    UInt64 × EphemeralFlushGate :=
  let gate := { gate with
    logicalInferences := saturatingAdd gate.logicalInferences 1
    emittedArtifacts := saturatingAdd gate.emittedArtifacts close.emittedArtifacts }
  let gate :=
    if close.flushState.isAcknowledged then
      { gate with acknowledged := saturatingAdd gate.acknowledged 1 }
    else { gate with unacknowledged := saturatingAdd gate.unacknowledged 1 }
  (gate.logicalInferences, gate)

/-- Close an observer and record what it reports; a refusal records nothing. -/
def teardown (gate : EphemeralFlushGate) : ObserverM (LogicalInferenceClose × EphemeralFlushGate) := do
  let close ← closeLogicalInference
  pure (close, (gate.record close).2)

def report (gate : EphemeralFlushGate) : EphemeralFlushReport :=
  let abandoned := gate.abandoned.isSome
  let flushState :=
    if abandoned || gate.unacknowledged > 0 then .incomplete
    else if gate.logicalInferences > 0 then .acknowledged
    else .notStarted
  let outcome :=
    if !abandoned && gate.unacknowledged == 0 && gate.logicalInferences > 0 then .complete
    else .incomplete
  { flushState := flushState
    abandonment := gate.abandoned
    outcome := outcome
    policy := gate.policy
    failure :=
      if gate.policy = .requireCompleteCapture ∧ outcome = .incomplete then some .flushIncomplete
      else none
    logicalInferences := gate.logicalInferences
    acknowledged := gate.acknowledged
    emittedArtifacts := gate.emittedArtifacts }

def finish (gate : EphemeralFlushGate) : EphemeralFlushReport := gate.report

def abandon (gate : EphemeralFlushGate) (cause : FlushAbandonment) : EphemeralFlushReport :=
  { gate with abandoned := some cause }.report

end EphemeralFlushGate

/-! ## Jobs -/

/-- A close report with the exchange it closed. -/
structure Recorded where
  close : LogicalInferenceClose
  answers : List (Except InferenceObserverError Answer)
  trace : Trace sink

def Recorded.acknowledged (r : Recorded) : Bool := r.close.flushState.isAcknowledged

/-- The gate after some exchanges were closed through it, or closed and recorded. A report may
be recorded as often as the job likes. -/
inductive Job (policy : EphemeralCapturePolicy) : EphemeralFlushGate → List Recorded → Prop
  | new : Job policy (.new policy) []
  | teardown {gate gate' : EphemeralFlushGate} {recorded : List Recorded}
      {o o' : InferenceObserverV1} {answers : List (Except InferenceObserverError Answer)}
      {t t' : Trace sink} {close : LogicalInferenceClose} :
      Job policy gate recorded → Exchange o answers t →
      Performs gate.teardown o t (.ok (close, gate')) o' t' →
      Job policy gate' (recorded ++ [⟨close, answers, t'⟩])
  | record {gate : EphemeralFlushGate} {recorded : List Recorded} {o o' : InferenceObserverV1}
      {answers : List (Except InferenceObserverError Answer)} {t t' : Trace sink}
      {close : LogicalInferenceClose} :
      Job policy gate recorded → Exchange o answers t →
      Performs closeLogicalInference o t (.ok close) o' t' →
      Job policy (gate.record close).2 (recorded ++ [⟨close, answers, t'⟩])

/-! ## What the gate counts -/

/-- A saturating count of `n` things. -/
def Counts (count : UInt64) (n : Nat) : Prop := count.toNat = min n (2 ^ 64 - 1)

theorem Counts.succ {count n} (h : Counts count n) : Counts (saturatingAdd count 1) (n + 1) := by
  unfold Counts at h ⊢
  rw [toNat_saturatingAdd, h]
  have : (1 : UInt64).toNat = 1 := rfl
  omega

theorem Counts.zero_iff {count n} (h : Counts count n) : count = 0 ↔ n = 0 := by
  rw [← UInt64.toNat_inj, h]
  have : (0 : UInt64).toNat = 0 := rfl
  omega

structure Tallies (policy : EphemeralCapturePolicy) (gate : EphemeralFlushGate)
    (recorded : List Recorded) : Prop where
  policy : gate.policy = policy
  logicalInferences : Counts gate.logicalInferences recorded.length
  acknowledged : Counts gate.acknowledged (recorded.countP Recorded.acknowledged)
  unacknowledged : Counts gate.unacknowledged (recorded.countP fun r => !r.acknowledged)
  orderly : gate.abandoned = none

variable {policy : EphemeralCapturePolicy} {gate gate' : EphemeralFlushGate}
  {recorded : List Recorded} {o o' : InferenceObserverV1}
  {answers : List (Except InferenceObserverError Answer)} {t t' : Trace sink}

theorem Tallies.record (h : Tallies policy gate recorded) (r : Recorded) :
    Tallies policy (gate.record r.close).2 (recorded ++ [r]) := by
  obtain ⟨hpolicy, hall, hack, hunack, horderly⟩ := h
  unfold EphemeralFlushGate.record
  cases hr : r.close.flushState.isAcknowledged with
  | true =>
    have hacknowledged : r.acknowledged = true := hr
    refine ⟨hpolicy, ?_, ?_, ?_, horderly⟩
    · simpa using hall.succ
    · simpa [hacknowledged] using hack.succ
    · simpa [hacknowledged] using hunack
  | false =>
    have hacknowledged : r.acknowledged = false := hr
    refine ⟨hpolicy, ?_, ?_, ?_, horderly⟩
    · simpa using hall.succ
    · simpa [hacknowledged] using hack
    · simpa [hacknowledged] using hunack.succ

/-- A teardown is a close whose report is recorded. -/
theorem teardown_ok {close} (h : Performs gate.teardown o t (.ok (close, gate')) o' t') :
    Performs closeLogicalInference o t (.ok close) o' t' ∧ gate' = (gate.record close).2 := by
  obtain ⟨close', o1, t1, hclose, hrecord⟩ := h.of_bind
  cases hrecord
  exact ⟨hclose, rfl⟩

theorem job_tallies (h : Job policy gate recorded) : Tallies policy gate recorded := by
  induction h with
  | new => exact ⟨rfl, rfl, rfl, rfl, rfl⟩
  | teardown _ _ hclose ih =>
    rw [(teardown_ok hclose).2]
    exact ih.record ⟨_, _, _⟩
  | record _ _ _ ih => exact ih.record ⟨_, _, _⟩

theorem job_reports (h : Job policy gate recorded) :
    ∀ r ∈ recorded, r.close.outcome = .complete ↔
      Accepted r.trace ∧ Finished (marks r.answers) ∧ r.acknowledged := by
  induction h with
  | new => exact fun r hr => (not_mem_nil hr).elim
  | teardown _ hexchange hclose ih =>
    exact forall_mem_append.mpr ⟨ih, forall_mem_singleton.mpr
      (closeLogicalInference_reports hexchange (teardown_ok hclose).1).2⟩
  | record _ hexchange hclose ih =>
    exact forall_mem_append.mpr ⟨ih, forall_mem_singleton.mpr
      (closeLogicalInference_reports hexchange hclose).2⟩

/-- The gate claims completion where something was recorded and every flush acknowledged. -/
theorem finish_complete (h : Tallies policy gate recorded) : gate.finish.outcome = .complete ↔
    recorded ≠ [] ∧ ∀ r ∈ recorded, r.acknowledged := by
  have hall := h.logicalInferences.zero_iff
  have hunack := h.unacknowledged.zero_iff
  have houtcome : gate.finish.outcome = .complete ↔
      gate.unacknowledged = 0 ∧ gate.logicalInferences ≠ 0 := by
    simp [EphemeralFlushGate.finish, EphemeralFlushGate.report, h.orderly, UInt64.pos_iff_ne_zero]
  rw [houtcome, hunack, Ne, hall, and_comm]
  simp

theorem finish_failure (h : gate.finish.outcome = .complete) : gate.finish.failure = none := by
  refine if_neg fun hwithheld => ?_
  have hincomplete : gate.finish.outcome = .incomplete := hwithheld.2
  rw [h] at hincomplete
  cases hincomplete

/-! ## Sample jobs -/

/-- A sink that acknowledges every flush and answers every artifact alike. -/
def acknowledging (emitted : Except SinkFailure Unit) : (c : SinkCall) → Option (sink.Reply c)
  | .emit _ => some emitted
  | .flush => some FlushState.acknowledged
  | .panic => none

/-- One attempt that times out. -/
def timedOut : List Call :=
  [.startLogicalInference sampleExchange.traceId sampleExchange.inferenceRequestId none,
   .startProviderAttempt firstAttempt, .attemptOutcome (.transportError .readTimeout none) none]

def sampleObserver : InferenceObserverV1 := .new sampleExchange.tenantId sampleExchange.originClientId

/-- The exchange and its close, over a sink that answers every artifact alike. -/
def sampleClose (emitted : Except SinkFailure Unit) : Option Recorded := do
  let (o, answers, t) ← exchanged (acknowledging emitted) timedOut sampleObserver [] []
  let ((close, _), t') ←
    answered (I := sink) (acknowledging emitted) (closeLogicalInference.run.run o) t
  pure ⟨← close.toOption, answers, t'⟩

theorem sampleClose_job (policy : EphemeralCapturePolicy) {emitted} {r}
    (h : sampleClose emitted = some r) :
    Job policy ((EphemeralFlushGate.new policy).record r.close).2 [r] := by
  obtain ⟨⟨o, answers, t⟩, hexchange, h⟩ := Option.bind_eq_some_iff.mp h
  obtain ⟨⟨⟨close, o'⟩, t'⟩, hclose, h⟩ := Option.bind_eq_some_iff.mp h
  obtain ⟨close', hok, h⟩ := Option.bind_eq_some_iff.mp h
  cases close with
  | error e => cases hok
  | ok close =>
    cases hok
    cases h
    exact .record .new (exchange_of_exchanged (.new _ _) hexchange) (runs_of_answered hclose)

/-- A job claims completion only of complete closes exactly where no acknowledged flush hides an
exchange that lost an artifact or left an attempt open. -/
theorem ephemeral_completion (policy : EphemeralCapturePolicy) :
    (∀ gate recorded, Job policy gate recorded →
      ((gate.finish.outcome = .complete → ∀ r ∈ recorded, r.close.outcome = .complete) ↔
        ((∀ r ∈ recorded, r.acknowledged) →
          ∀ r ∈ recorded, Accepted r.trace ∧ Finished (marks r.answers)))) ∧
    ∀ o answers t close o' t', Exchange o answers t →
      Performs closeLogicalInference o t (.ok close) o' t' → close.outcome = .complete →
      Accepted t' ∧ Finished (marks answers) ∧
        t' = t ++ [⟨SinkCall.flush, FlushState.acknowledged⟩] := by
  refine ⟨fun gate recorded h => ?_, ?_⟩
  · have hreports := job_reports h
    rw [finish_complete (job_tallies h)]
    constructor
    · intro hclaim hack r hr
      have hcomplete := hclaim ⟨ne_nil_of_mem hr, hack⟩ r hr
      obtain ⟨haccepted, hfinished, -⟩ := (hreports r hr).mp hcomplete
      exact ⟨haccepted, hfinished⟩
    · intro hkept ⟨_, hack⟩ r hr
      obtain ⟨haccepted, hfinished⟩ := hkept hack r hr
      exact (hreports r hr).mpr ⟨haccepted, hfinished, hack r hr⟩
  · intro o answers t close o' t' h hclose hcomplete
    obtain ⟨hflush, hreport⟩ := closeLogicalInference_reports h hclose
    obtain ⟨haccepted, hfinished, hack⟩ := hreport.mp hcomplete
    refine ⟨haccepted, hfinished, ?_⟩
    have hstate : close.flushState = .acknowledged := by
      cases hs : close.flushState <;> rw [hs] at hack <;> first | rfl | cases hack
    rw [hflush, hstate]

/-- The sink refuses the artifact of the failed attempt and acknowledges the flush: the close is
incomplete, and the job claims completion. -/
theorem refused_artifact_claims_completion : ∃ gate recorded,
    Job .requireCompleteCapture gate recorded ∧ gate.finish.outcome = .complete ∧
      gate.finish.failure = none ∧ ∃ r ∈ recorded, r.close.outcome = .incomplete ∧
        r.close.failure = some .captureFailed := by
  have hreport : (sampleClose (.error .rejected)).map (fun r => (r.close.outcome, r.close.failure,
      r.close.flushState)) = some (.incomplete, some .captureFailed, .acknowledged) := by
    decide +kernel
  obtain ⟨r, hr, hclose⟩ := Option.map_eq_some_iff.mp hreport
  simp only [Prod.mk.injEq] at hclose
  obtain ⟨houtcome, hfailure, hflush⟩ := hclose
  have hjob := sampleClose_job .requireCompleteCapture hr
  have hcomplete := (finish_complete (job_tallies hjob)).mpr
    ⟨cons_ne_nil _ _, forall_mem_singleton.mpr (congrArg FlushState.isAcknowledged hflush)⟩
  refine ⟨_, _, hjob, hcomplete, finish_failure hcomplete, r, mem_cons_self, houtcome, hfailure⟩

/-- The sink accepts it: the close and the job are complete. -/
theorem accepted_artifact_completes : ∃ gate r, Job .requireCompleteCapture gate [r] ∧
    gate.finish.outcome = .complete ∧ r.close.outcome = .complete ∧ Accepted r.trace := by
  have hreport : (sampleClose (.ok ())).map (fun r => (r.close.outcome, r.close.flushState)) =
      some (.complete, .acknowledged) := by decide +kernel
  obtain ⟨r, hr, hclose⟩ := Option.map_eq_some_iff.mp hreport
  simp only [Prod.mk.injEq] at hclose
  obtain ⟨houtcome, hflush⟩ := hclose
  have hjob := sampleClose_job .requireCompleteCapture hr
  have hack : ∀ r' ∈ [r], r'.acknowledged :=
    forall_mem_singleton.mpr (congrArg FlushState.isAcknowledged hflush)
  have hkept := ((ephemeral_completion _).1 _ _ hjob).mp
    (fun _ => forall_mem_singleton.mpr houtcome) hack
  exact ⟨_, r, hjob, (finish_complete (job_tallies hjob)).mpr ⟨cons_ne_nil _ _, hack⟩,
    houtcome, (hkept r mem_cons_self).1⟩

end AgentArchivist.Adapter.EphemeralFlush
