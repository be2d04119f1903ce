import AgentArchivist.Lib.Atomic
import AgentArchivist.Protocol.AttemptLog
import AgentArchivist.Protocol.AttemptSequence

/-! # The sequencer keeps the attempt log

Every operation is all or nothing (`Atomic`): a refusal leaves the sequencer as it
was. What an accepted operation does to the tracked attempt is said once
(`Emitted`, `Minted`), and from it the sequencer is simulated by the attempt log,
with the log's last block behind the track. -/
namespace AgentArchivist.Protocol.AttemptBlocks
open Lib List
open Atomic Runs Word AttemptLog AttemptSequence Correlation InferenceArtifact Vocabulary

/-! ## What operations do -/

/-- How the track moves with a record. -/
def Advances (track : AttemptTrack) (r : InferenceArtifact) (track' : AttemptTrack) : Prop :=
  match r.event with
  | .providerRequest =>
    track.requestCaptured = false ∧ track' = { track with requestCaptured := true }
  | .providerResponse =>
    track.responseCaptured = false ∧ track' = { track with responseCaptured := true }
  | .streamingEvent n => track.responseCaptured = false ∧ n = track.nextEventOrdinal ∧
    ∃ next, next.toNat = n.toNat + 1 ∧ track' = { track with nextEventOrdinal := next }
  | .usage _ => track' = track
  | .transportError _ _ => track.responseCaptured = false ∧ track' = { track with failed := true }
  | .retry _ _ _ => False

/-- A record of the current attempt was returned. -/
def Emitted (s : AttemptSequencer) (r : InferenceArtifact) (s' : AttemptSequencer) : Prop :=
  ∃ track track', s.current = some track ∧ track.failed = false ∧ HasContent r ∧
    Advances track r track' ∧
    (∃ event payload metadata time, r = stamp track s event payload metadata time) ∧
    s' = { s with current := some track' }

/-- The next attempt of the inference was minted. -/
structure Minted (s : AttemptSequencer) (id : ProviderAttemptId) (attempt : ProviderAttempt)
    (inference : LogicalInference) : Prop where
  room : s.inference.nextAttemptOrdinal ≤ MAX_ATTEMPT_ORDINAL
  attempt : attempt = ⟨s.inference.traceId, s.inference.inferenceRequestId, id,
    s.inference.nextAttemptOrdinal⟩
  inference : inference = { s.inference with
    nextAttemptOrdinal := saturatingAdd s.inference.nextAttemptOrdinal 1 }

variable {s s' : AttemptSequencer}

theorem currentTrack_atomic :
    Atomic currentTrack s fun track s' => s' = s ∧ s.current = some track := by
  refine Atomic.bind_read (P := fun a => a = s) (Total.get ⟨rfl, rfl⟩).atomic ?_
  intro a ha
  subst ha
  cases h : a.current with
  | none => exact Atomic.throw
  | some track => exact (Total.pure ⟨rfl, rfl⟩).atomic

/-- The checks that the five observations begin with. -/
theorem observed_atomic {α : Type} {time} {k : AttemptTrack → SequencerM α}
    {Q : α → AttemptSequencer → Prop}
    (hk : ∀ track, s.current = some track → track.failed = false → Atomic (k track) s Q) :
    Atomic (do
      MonadExcept.ofExcept (checkedTime time)
      let track ← currentTrack
      MonadExcept.ofExcept track.ensureOpen
      k track) s Q := by
  refine Atomic.bind_read Atomic.ofExcept fun _ _ => ?_
  refine Atomic.bind_read currentTrack_atomic fun track hcurrent => ?_
  refine Atomic.bind_read Atomic.ofExcept fun _ hopen => hk track hcurrent ?_
  unfold AttemptTrack.ensureOpen at hopen
  cases hf : track.failed with
  | false => rfl
  | true =>
    rw [hf] at hopen
    cases hopen

/-- How the four observations that move the track end. -/
theorem emit_atomic {track track'} {event payload metadata time} (hcurrent : s.current = some track)
    (hopen : track.failed = false)
    (hcontent : HasContent (stamp track s event payload metadata time))
    (hadvance : Advances track (stamp track s event payload metadata time) track') :
    Atomic (do
      setTrack track'
      pure (stamp track (← get) event payload metadata time)) s (Emitted s) := by
  refine (Total.bind (Total.modify ?_)).atomic
  refine Total.bind (Total.get (Total.pure ?_))
  exact ⟨track, track', hcurrent, hopen, hcontent, hadvance, ⟨event, payload, metadata, time, rfl⟩, rfl⟩

section
variable (bytes : List UInt8) (metadata : Option Metadata) (time : Option Timestamp)

theorem providerRequest_atomic : Atomic (providerRequest bytes metadata time) s (Emitted s) := by
  refine observed_atomic fun track hcurrent hopen => ?_
  refine Atomic.guard fun hnew => ?_
  refine Atomic.bind_read Atomic.ofExcept fun p _ => ?_
  exact emit_atomic hcurrent hopen rfl ⟨eq_false_of_ne_true hnew, rfl⟩

theorem providerResponse_atomic : Atomic (providerResponse bytes metadata time) s (Emitted s) := by
  refine observed_atomic fun track hcurrent hopen => ?_
  refine Atomic.guard fun hnew => ?_
  refine Atomic.bind_read Atomic.ofExcept fun p _ => ?_
  exact emit_atomic hcurrent hopen rfl ⟨eq_false_of_ne_true hnew, rfl⟩

theorem streamEvent_atomic : Atomic (streamEvent bytes metadata time) s (Emitted s) := by
  refine observed_atomic fun track hcurrent hopen => ?_
  refine Atomic.guard fun hresponse => ?_
  refine Atomic.bind_read Atomic.ofExcept fun p _ => ?_
  -- the ordinal is bumped only after the payload was taken
  cases hnext : checkedAdd track.nextEventOrdinal 1 with
  | none => exact Atomic.throw
  | some next =>
    exact emit_atomic hcurrent hopen rfl
      ⟨eq_false_of_ne_true hresponse, rfl, next, checkedAdd_eq_some hnext, rfl⟩

end

theorem usage_atomic (source : UsageSource) (bytes : Option (List UInt8))
    (input output total : UInt64) (time : Option Timestamp) :
    Atomic (usage source bytes input output total time) s (Emitted s) := by
  refine observed_atomic fun track hcurrent hopen => ?_
  refine Atomic.bind_read Atomic.ofExcept fun p _ => ?_
  refine (Total.bind (Total.get ?_)).atomic
  refine Total.pure ?_
  refine ⟨track, track, hcurrent, hopen, ⟨_, input, output, total, rfl, rfl, rfl, rfl⟩, rfl,
    ⟨_, _, _, _, rfl⟩, ?_⟩
  rw [← hcurrent]

theorem transportError_atomic (errorClass : TransportErrorClass) (timeoutMs : Option UInt64)
    (time : Option Timestamp) :
    Atomic (transportError errorClass timeoutMs time) s (Emitted s) := by
  refine observed_atomic fun track hcurrent hopen => ?_
  refine Atomic.guard fun hresponse => ?_
  exact emit_atomic hcurrent hopen trivial ⟨eq_false_of_ne_true hresponse, rfl⟩

theorem mintAttempt_atomic (id : ProviderAttemptId) :
    Atomic (mintAttempt id) s fun attempt s' =>
      ∃ inference, Minted s id attempt inference ∧ s' = { s with inference := inference } := by
  refine Atomic.bind_read (P := fun a => a = s) (Total.get ⟨rfl, rfl⟩).atomic ?_
  intro a ha
  subst ha
  unfold LogicalInference.startAttempt
  by_cases hroom : MAX_ATTEMPT_ORDINAL < a.inference.nextAttemptOrdinal
  · rw [if_pos hroom]
    exact rfl
  · rw [if_neg hroom]
    exact ⟨_, ⟨UInt64.not_lt.mp hroom, rfl, rfl⟩, rfl⟩

theorem startAttempt_atomic (id : ProviderAttemptId) :
    Atomic (startAttempt id) s fun attempt s' => s.current = none ∧ ∃ inference,
      Minted s id attempt inference ∧
      s' = { s with inference := inference, current := some (.forAttempt attempt) } := by
  refine Atomic.bind_read (P := fun a => a = s) (Total.get ⟨rfl, rfl⟩).atomic ?_
  intro a ha
  subst ha
  cases hcurrent : a.current with
  | some track => exact rfl
  | none =>
    refine Atomic.bind_commit (mintAttempt_atomic id) ?_
    intro attempt s' ⟨inference, hminted, hs'⟩
    refine Total.bind (Total.modify (Total.pure ?_))
    exact ⟨rfl, inference, hminted, by rw [hs']⟩

theorem retry_atomic (id : ProviderAttemptId) (reason : RetryReason) (backoffMs : Option UInt64)
    (time : Option Timestamp) :
    Atomic (retry id reason backoffMs time) s fun r s' => ∃ track attempt inference,
      s.current = some track ∧ Minted s id attempt inference ∧
      r = stamp (.forAttempt attempt) s (.retry track.attemptOrdinal reason backoffMs) none none
        time ∧
      s' = { s with inference := inference, current := some (.forAttempt attempt) } := by
  refine Atomic.bind_read Atomic.ofExcept fun _ _ => ?_
  refine Atomic.bind_read currentTrack_atomic fun track hcurrent => ?_
  refine Atomic.bind_commit (mintAttempt_atomic id) ?_
  intro attempt s' ⟨inference, hminted, hs'⟩
  refine Total.bind (Total.get ?_)
  refine Total.bind (Total.modify (Total.pure ?_))
  subst hs'
  exact ⟨track, attempt, inference, hcurrent, hminted, rfl, rfl⟩

/-! ## The track and its block -/

/-- The track knows of its block what the sequencing rules read. -/
structure Tracks (x : Exchange) (ordinal : Nat) (b : Block) (track : AttemptTrack) : Prop where
  traceId : track.attempt.traceId = x.traceId
  inferenceRequestId : track.attempt.inferenceRequestId = x.inferenceRequestId
  id : track.attempt.id = b.providerAttemptId
  ordinal : track.attempt.attemptOrdinal.toNat = ordinal
  next : track.nextEventOrdinal.toNat = (eventOrdinals b.records).length
  request : track.requestCaptured = true ↔ .providerRequest ∈ kinds b.records
  response : track.responseCaptured = true ↔ .providerResponse ∈ kinds b.records
  failed : track.failed = true ↔ .transportError ∈ kinds b.records

structure Represents (x : Exchange) (s : AttemptSequencer) (log : List Block) : Prop where
  tenantId : s.tenantId = x.tenantId
  originClientId : s.originClientId = x.originClientId
  traceId : s.inference.traceId = x.traceId
  inferenceRequestId : s.inference.inferenceRequestId = x.inferenceRequestId
  next : s.inference.nextAttemptOrdinal.toNat = log.length
  current : (s.current = none ∧ log = []) ∨ ∃ done b track,
    log = done ++ [b] ∧ s.current = some track ∧ Tracks x done.length b track

variable {x : Exchange} {ordinal : Nat} {b : Block} {track track' : AttemptTrack}
  {r : InferenceArtifact} {log : List Block}

variable {recs : List InferenceArtifact}

theorem not_captured {flag kind} (h : flag = true ↔ kind ∈ kinds recs) (hf : flag = false) :
    kind ∉ kinds recs := by
  intro hmem
  rw [hf] at h
  cases h.mpr hmem

theorem captured_snoc {flag kind} (h : flag = true ↔ kind ∈ kinds recs) :
    (flag || r.kind == kind) = true ↔ kind ∈ kinds (recs ++ [r]) := by
  rw [Bool.or_eq_true, h, beq_iff_eq, kinds_snoc, mem_append, mem_singleton]
  exact or_congr_right eq_comm

theorem Advances.admits (ha : Advances track r track') (ht : Tracks x ordinal b track)
    (hopen : track.failed = false) (hc : HasContent r) : Admits b.records r := by
  refine ⟨hc, not_captured ht.failed hopen, ?_⟩
  unfold Advances at ha
  cases he : r.event <;> rw [he] at ha <;> dsimp only at ha ⊢
  case providerRequest => exact not_captured ht.request ha.1
  case providerResponse => exact not_captured ht.response ha.1
  case streamingEvent n =>
    obtain ⟨hresponse, rfl, -⟩ := ha
    exact ⟨not_captured ht.response hresponse, ht.next⟩
  case transportError => exact not_captured ht.response ha.1

theorem Tracks.snoc (ht : Tracks x ordinal b track) (hattempt : track'.attempt = track.attempt)
    (hnext : track'.nextEventOrdinal.toNat =
      track.nextEventOrdinal.toNat + (eventOrdinals [r]).length)
    (hrequest : track'.requestCaptured = (track.requestCaptured || r.kind == .providerRequest))
    (hresponse : track'.responseCaptured = (track.responseCaptured || r.kind == .providerResponse))
    (hfailed : track'.failed = (track.failed || r.kind == .transportError)) :
    Tracks x ordinal ⟨b.providerAttemptId, b.records ++ [r]⟩ track' where
  traceId := hattempt ▸ ht.traceId
  inferenceRequestId := hattempt ▸ ht.inferenceRequestId
  id := hattempt ▸ ht.id
  ordinal := hattempt ▸ ht.ordinal
  next := by rw [hnext, ht.next, eventOrdinals_append, length_append]
  request := hrequest ▸ captured_snoc ht.request
  response := hresponse ▸ captured_snoc ht.response
  failed := hfailed ▸ captured_snoc ht.failed

/-- The flags and the counter follow the block. -/
theorem Advances.tracks (ha : Advances track r track') (ht : Tracks x ordinal b track) :
    Tracks x ordinal ⟨b.providerAttemptId, b.records ++ [r]⟩ track' := by
  unfold Advances at ha
  have hkind : r.kind = r.event.kind := rfl
  cases he : r.event <;> rw [he] at ha hkind <;> dsimp only at ha
  case' usage => obtain rfl := ha
  case' streamingEvent n => obtain ⟨-, rfl, next, hnext, rfl⟩ := ha
  case' providerRequest | providerResponse | transportError => obtain ⟨-, rfl⟩ := ha
  all_goals
    refine ht.snoc rfl ?_ ?_ ?_ ?_ <;>
      simp [eventOrdinals, eventOrdinal, BoundaryEvent.kind, *]

/-! ## Simulation -/

def entry : Outcome → Entry
  | .attempt attempt => .started attempt.id
  | .record artifact => .record artifact
  | .refused _ => .refused

theorem Represents.emitted (h : Represents x s log) (he : Emitted s r s') :
    ∃ log', LogStep x log (.record r) log' ∧ Represents x s' log' := by
  obtain ⟨track, track', hcurrent, hopen, hcontent, hadvance, ⟨_, _, _, _, hr⟩, rfl⟩ := he
  rcases h.current with ⟨hnone, -⟩ | ⟨done, b, track0, rfl, htrack, ht⟩
  · rw [hcurrent] at hnone
    cases hnone
  rw [hcurrent] at htrack
  cases htrack
  refine ⟨_, .record ?_ (hadvance.admits ht hopen hcontent), ?_⟩
  · subst hr
    exact ⟨h.tenantId, h.originClientId, ht.traceId, ht.inferenceRequestId, ht.id, ht.ordinal⟩
  · refine ⟨h.tenantId, h.originClientId, h.traceId, h.inferenceRequestId, ?_, .inr ?_⟩
    · simpa using h.next
    · exact ⟨done, _, track', rfl, rfl, hadvance.tracks ht⟩

/-- A minted attempt carries the next ordinal, and the inference the one after it. -/
theorem Represents.minted {id} {attempt inference} (h : Represents x s log)
    (hm : Minted s id attempt inference) :
    attempt.attemptOrdinal.toNat = log.length ∧
      inference.nextAttemptOrdinal.toNat = log.length + 1 := by
  have hroom : s.inference.nextAttemptOrdinal.toNat ≤ 9223372036854775807 := hm.room
  have hone : (1 : UInt64).toNat = 1 := rfl
  rw [hm.attempt, hm.inference]
  refine ⟨h.next, ?_⟩
  show (saturatingAdd s.inference.nextAttemptOrdinal 1).toNat = _
  rw [toNat_saturatingAdd, hone, ← h.next]
  omega

/-- A minted attempt is tracked behind the block it opens. -/
theorem Represents.opened {id attempt inference} (h : Represents x s log)
    (hm : Minted s id attempt inference) (hrecs : ∀ r ∈ recs, r.kind = .retry) :
    Represents x { s with inference := inference, current := some (.forAttempt attempt) }
      (log ++ [⟨id, recs⟩]) := by
  obtain ⟨hordinal, hnext⟩ := h.minted hm
  have hevents : eventOrdinals recs = [] := by
    refine filterMap_eq_nil_iff.mpr fun r hr => ?_
    have hk := hrecs r hr
    rw [InferenceArtifact.kind] at hk
    unfold eventOrdinal
    cases he : r.event <;> simp_all [BoundaryEvent.kind]
  have habsent : ∀ kind, kind ≠ .retry → (false = true ↔ kind ∈ kinds recs) := by
    intro kind hne
    refine iff_of_false Bool.false_ne_true fun hmem => ?_
    obtain ⟨r, hr, rfl⟩ := mem_kinds.mp hmem
    exact hne (hrecs r hr)
  refine ⟨h.tenantId, h.originClientId, ?_, ?_, ?_, .inr ⟨log, _, _, rfl, rfl, ?_⟩⟩
  · rw [hm.inference]
    exact h.traceId
  · rw [hm.inference]
    exact h.inferenceRequestId
  · rw [length_append, length_singleton, hnext]
  have hattempt := hm.attempt
  subst hattempt
  refine ⟨h.traceId, h.inferenceRequestId, rfl, hordinal, ?_, ?_, ?_, ?_⟩
  · rw [hevents]
    rfl
  · exact habsent _ (by decide)
  · exact habsent _ (by decide)
  · exact habsent _ (by decide)

theorem answer_cases {α : Type} (returned : α → Outcome) {operation}
    {Q : α → AttemptSequencer → Prop} (h : Atomic operation s Q) :
    (∃ error, answer returned operation s = (.refused error, s)) ∨
      ∃ a s', answer returned operation s = (returned a, s') ∧ Q a s' := by
  unfold Atomic at h
  unfold answer
  split at h
  · rename_i a s' hrun
    rw [hrun]
    exact .inr ⟨a, s', rfl, h⟩
  · rename_i error s' hrun
    rw [hrun, h]
    exact .inl ⟨error, rfl⟩

/-- Everything that one call can do. -/
theorem step_cases (s : AttemptSequencer) (operation : Operation) :
    (∃ error, step s operation = (.refused error, s)) ∨
    (∃ attempt inference, s.current = none ∧ Minted s attempt.id attempt inference ∧
      step s operation = (.attempt attempt,
        { s with inference := inference, current := some (.forAttempt attempt) })) ∨
    (∃ r s', Emitted s r s' ∧ step s operation = (.record r, s')) ∨
    ∃ track attempt inference reason backoffMs time, s.current = some track ∧
      Minted s attempt.id attempt inference ∧
      step s operation = (.record (stamp (.forAttempt attempt) s
        (.retry track.attemptOrdinal reason backoffMs) none none time),
        { s with inference := inference, current := some (.forAttempt attempt) }) := by
  have observed : ∀ {op : SequencerM InferenceArtifact} {P Q : Prop}, Atomic op s (Emitted s) →
      (∃ error, answer .record op s = (.refused error, s)) ∨ P ∨
        (∃ r s', Emitted s r s' ∧ answer .record op s = (.record r, s')) ∨ Q := by
    intro op P Q hop
    rcases answer_cases .record hop with hrefused | ⟨r, s', hrun, he⟩
    · exact .inl hrefused
    · exact .inr (.inr (.inl ⟨r, s', he, hrun⟩))
  cases operation with
  | startAttempt id =>
    rcases answer_cases .attempt (startAttempt_atomic id) with
      hrefused | ⟨attempt, _, hrun, hnone, inference, hm, rfl⟩
    · exact .inl hrefused
    · have hid : attempt.id = id := by rw [hm.attempt]
      exact .inr (.inl ⟨attempt, inference, hnone, hid ▸ hm, hrun⟩)
  | providerRequest bytes metadata time => exact observed (providerRequest_atomic bytes metadata time)
  | providerResponse bytes metadata time => exact observed (providerResponse_atomic bytes metadata time)
  | streamEvent bytes metadata time => exact observed (streamEvent_atomic bytes metadata time)
  | usage source bytes input output total time =>
    exact observed (usage_atomic source bytes input output total time)
  | transportError errorClass timeoutMs time =>
    exact observed (transportError_atomic errorClass timeoutMs time)
  | retry id reason backoffMs time =>
    rcases answer_cases .record (retry_atomic id reason backoffMs time) with
      hrefused | ⟨_, _, hrun, track, attempt, inference, hcurrent, hm, rfl, rfl⟩
    · exact .inl hrefused
    · have hid : attempt.id = id := by rw [hm.attempt]
      exact .inr (.inr (.inr
        ⟨track, attempt, inference, reason, backoffMs, time, hcurrent, hid ▸ hm, hrun⟩))

/-- A refusal leaves the sequencer as it was. -/
theorem step_refused {operation error} (h : (step s operation).1 = .refused error) :
    (step s operation).2 = s := by
  rcases step_cases s operation with ⟨_, hrun⟩ | ⟨_, _, _, _, hrun⟩ | ⟨_, _, _, hrun⟩ |
    ⟨_, _, _, _, _, _, _, _, hrun⟩
  · rw [hrun]
  all_goals
    rw [hrun] at h
    cases h

/-- The sequencer refines the attempt log. -/
theorem step_refines (h : Represents x s log) (operation : Operation) :
    ∃ log', LogStep x log (entry (step s operation).1) log' ∧
      Represents x (step s operation).2 log' := by
  rcases step_cases s operation with ⟨error, hrun⟩ | ⟨attempt, inference, hnone, hm, hrun⟩ |
    ⟨r, s', he, hrun⟩ | ⟨track, attempt, inference, reason, backoffMs, time, hcurrent, hm, hrun⟩
  · rw [hrun]
    exact ⟨log, .refused log, h⟩
  · rw [hrun]
    rcases h.current with ⟨-, rfl⟩ | ⟨done, b, track, -, htrack, -⟩
    · exact ⟨_, .started attempt.id, h.opened hm (forall_mem_nil _)⟩
    · rw [hnone] at htrack
      cases htrack
  · rw [hrun]
    exact h.emitted he
  rw [hrun]
  rcases h.current with ⟨hnone, -⟩ | ⟨done, b, track0, rfl, htrack, ht⟩
  · rw [hcurrent] at hnone
    cases hnone
  rw [hcurrent] at htrack
  cases htrack
  obtain ⟨hordinal, -⟩ := h.minted hm
  rw [length_append, length_singleton] at hordinal
  have hattempt := hm.attempt
  refine ⟨_, .retry ⟨h.tenantId, h.originClientId, ?_, ?_, rfl, hordinal⟩ rfl ht.ordinal,
    h.opened hm (forall_mem_singleton.mpr rfl)⟩
  · show attempt.traceId = _
    rw [hattempt]
    exact h.traceId
  · show attempt.inferenceRequestId = _
    rw [hattempt]
    exact h.inferenceRequestId

/-! ## Runs -/

/-- A sequencer over an inference that was just started. -/
def sequencer (x : Exchange) : AttemptSequencer :=
  .new x.tenantId x.originClientId
    (OrchestratorOperation.startInference ⟨x.traceId⟩ x.inferenceRequestId)

/-- What the calls of a run answered. -/
def capture (x : Exchange) (operations : List Operation) : List Entry :=
  (run step (sequencer x) operations).1.map entry

/-- Every run of the sequencer is a run of the attempt log. -/
theorem capture_trace (x : Exchange) (operations : List Operation) :
    ∃ log, Trace (LogStep x) [] (capture x operations) log := by
  have hstart : Represents x (sequencer x) [] := ⟨rfl, rfl, rfl, rfl, rfl, .inl ⟨rfl, rfl⟩⟩
  have hsim : ∀ s log i, Represents x s log →
      ∃ log', LogStep x log (entry (step s i).1) log' ∧ Represents x (step s i).2 log' :=
    fun s log i h => step_refines h i
  obtain ⟨log, htrace, -⟩ :=
    run_refines (R := fun log o log' => LogStep x log (entry o) log') hsim hstart operations
  exact ⟨log, htrace.map⟩

/-- The records that a run returned form the blocks of its attempts, in order, each with the
shape of its ordinal; and a call that is refused leaves the sequencer as it was. -/
theorem capture_blocks (x : Exchange) (operations : List Operation)
    (hminted : (minted (capture x operations)).Nodup) :
    (∃ blocks : List Block,
      records (capture x operations) = blocks.flatMap Block.records ∧
      blocks.map Block.providerAttemptId = minted (capture x operations) ∧
      (blocks.map Block.providerAttemptId).Nodup ∧
      ∀ p ∈ blocks.zipIdx, Shaped x p.2 p.1) ∧
    ∀ s operation error, (step s operation).1 = .refused error → (step s operation).2 = s := by
  obtain ⟨log, htrace⟩ := capture_trace x operations
  have h := history_of_trace htrace
  refine ⟨⟨log, h.records, h.minted.symm, h.minted ▸ hminted, h.shaped⟩, ?_⟩
  intro s operation error hrefused
  exact step_refused hrefused

/-- One exchange of the baseline tenant. -/
def sampleExchange : Exchange where
  tenantId := Specimen.home
  originClientId := ⟨"aaaaaaaa-bbbb-4ccc-8ddd-1e2f3f4f5f6f", by decide +kernel⟩
  traceId := Specimen.request
  inferenceRequestId := ⟨"1a07b201-7000-7000-8000-000000000002", by decide +kernel⟩

def firstAttempt : ProviderAttemptId := ⟨"1a07b201-7000-7000-8000-000000000003", by decide +kernel⟩

def secondAttempt : ProviderAttemptId := ⟨"1a07b201-7000-7000-8000-000000000004", by decide +kernel⟩

/-- A request that fails below the decoded content, a late response that is refused, and a
retry with one streamed event. -/
def retriedRun : List Operation :=
  [.startAttempt firstAttempt, .providerRequest [0x7b, 0x7d] none none,
   .transportError .readTimeout none none, .providerResponse [0x7b, 0x7d] none none,
   .retry secondAttempt .timeout none none, .streamEvent [0x61] none none]

theorem capture_blocks_retried :
    (∃ blocks : List Block,
      records (capture sampleExchange retriedRun) = blocks.flatMap Block.records ∧
      blocks.map Block.providerAttemptId = minted (capture sampleExchange retriedRun) ∧
      (blocks.map Block.providerAttemptId).Nodup ∧
      ∀ p ∈ blocks.zipIdx, Shaped sampleExchange p.2 p.1) ∧
    ∀ s operation error, (step s operation).1 = .refused error → (step s operation).2 = s := by
  have hminted : minted (capture sampleExchange retriedRun) = [firstAttempt, secondAttempt] := rfl
  refine capture_blocks sampleExchange retriedRun ?_
  decide

end AgentArchivist.Protocol.AttemptBlocks
