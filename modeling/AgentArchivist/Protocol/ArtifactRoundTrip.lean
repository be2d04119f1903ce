import AgentArchivist.Protocol.ArtifactReading
import AgentArchivist.Protocol.AttemptBlocks
import AgentArchivist.Protocol.JsonShortest

/-! # Inference artifacts survive the wire

A record that was parsed writes the value it was parsed from, and is parsed again from
what it writes. The records of the sequencer were never parsed: that each is valid
follows from what its operation checks and from the log of its attempt. -/
namespace AgentArchivist.Protocol.ArtifactRoundTrip
open Lib List
open Atomic OptionalEntries Runs Utf8 AttemptBlocks AttemptLog AttemptSequence
open Derivation Document
open AgentArchivist.Protocol.IngestEnvelope (textValue)
open Protocol.InferenceArtifact Protocol.JsonCanonical Protocol.JsonShortest
open Protocol.Members Protocol.Vocabulary

variable {s : AttemptSequencer} {r : InferenceArtifact}

/-! ## From the wire and back -/

theorem parse_ok {b} :
    InferenceArtifact.parse b = .ok r ↔ ∃ v, Json.parse b = .ok v ∧ InferenceArtifact.fromValue v = .ok r := by
  unfold InferenceArtifact.parse
  cases Json.parse b <;> simp

theorem parse_again {b} (h : InferenceArtifact.parse b = .ok r) :
    ∃ v, Json.parse b = .ok v ∧ r.canonicalBytes = some (Json.canonicalBytes v) ∧
      InferenceArtifact.parse (Json.canonicalBytes v) = .ok r := by
  obtain ⟨v, hv, hr⟩ := parse_ok.mp h
  obtain ⟨hwf, hdepth⟩ := parse_wellFormed hv
  obtain ⟨-, hwritten⟩ := (InferenceArtifact.fromValue_iff hwf).mp hr
  refine ⟨v, hv, ?_, parse_ok.mpr ⟨v, parse_canonicalBytes hwf hdepth
    ((length_canonicalBytes_le hv).trans (JsonAccept.parseWithLimits_ok.mp hv).1), hr⟩⟩
  rw [InferenceArtifact.canonicalBytes, hwritten, Option.map_some]

/-! ## What operations record -/

/-- The metadata argument of an operation. -/
def metadataOf : Operation → Option Metadata
  | .providerRequest _ metadata _ => metadata
  | .providerResponse _ metadata _ => metadata
  | .streamEvent _ metadata _ => metadata
  | _ => none

/-- What an operation checks of the record it returns. -/
structure Recorded (operation : Operation) (r : InferenceArtifact) : Prop where
  time : ∀ t ∈ r.captureTime, calendarValid t = true
  payload : ∀ p ∈ r.payload, 1 ≤ p.payloadSize ∧ p.unknownFields = []
  metadata : r.metadata = metadataOf operation ∨ ∃ input output total, r.metadata =
    some { Metadata.empty with
      usageInputTokens := some input, usageOutputTokens := some output, usageTotalTokens := some total }
  unknown : r.unknownFields = []

variable {time : Option Timestamp}

theorem checkedTime_ok {u} (h : checkedTime time = .ok u) : ∀ t ∈ time, calendarValid t = true := by
  cases time with
  | none => exact nofun
  | some t =>
    simp only [checkedTime] at h
    split at h
    · rename_i hvalid
      simpa using hvalid
    · cases h

variable {track : AttemptTrack}

theorem payload_recorded {bytes} {p} (h : AttemptSequence.payload bytes track = .ok p) :
    1 ≤ p.payloadSize ∧ p.unknownFields = [] := by
  unfold AttemptSequence.payload at h
  split at h
  · cases h
  rename_i hbytes
  cases h
  refine ⟨?_, rfl⟩
  have hpos : 0 < bytes.length := by
    rw [length_pos_iff]
    simpa using hbytes
  have hlt : min bytes.length (2 ^ 64 - 1) < 2 ^ 64 := by omega
  rw [UInt64.le_iff_toNat_le, UInt64.toNat_ofNat_of_lt' hlt]
  show 1 ≤ _
  omega

/-- The checks that the five observations begin with. -/
theorem timed_atomic {k : AttemptTrack → SequencerM InferenceArtifact}
    {Q : InferenceArtifact → AttemptSequencer → Prop}
    (hk : (∀ t ∈ time, calendarValid t = true) → ∀ track, Atomic (k track) s Q) :
    Atomic (do
      MonadExcept.ofExcept (checkedTime time)
      let track ← currentTrack
      MonadExcept.ofExcept track.ensureOpen
      k track) s Q := by
  refine Atomic.bind_read Atomic.ofExcept fun _ htime => ?_
  refine Atomic.bind_read currentTrack_atomic fun track _ => ?_
  exact Atomic.bind_read Atomic.ofExcept fun _ _ => hk (checkedTime_ok htime) track

variable {operation : Operation}

/-- How the four observations that move the track end. -/
theorem stamped_atomic {track track' event payload metadata}
    (h : ∀ s, Recorded operation (stamp track s event payload metadata time)) :
    Atomic (do
      setTrack track'
      pure (stamp track (← get) event payload metadata time)) s fun r _ => Recorded operation r := by
  refine (Total.bind (Total.modify ?_)).atomic
  exact Total.bind (Total.get (Total.pure (h _)))

/-- A record that carries the bytes it was given. -/
theorem recorded_bytes {bytes event p} (htime : ∀ t ∈ time, calendarValid t = true)
    (hp : AttemptSequence.payload bytes track = .ok p) (s : AttemptSequencer) :
    Recorded operation (stamp track s event (some p) (metadataOf operation) time) where
  time := htime
  payload := by simpa [stamp] using payload_recorded hp
  metadata := .inl rfl
  unknown := rfl

/-- A record without bytes and metadata. -/
theorem recorded_bare (hnone : metadataOf operation = none) {event}
    (htime : ∀ t ∈ time, calendarValid t = true) (s : AttemptSequencer) :
    Recorded operation (stamp track s event none none time) where
  time := htime
  payload := nofun
  metadata := .inl hnone.symm
  unknown := rfl

theorem usagePayload_recorded {source bytes payload}
    (h : usagePayload source bytes track = .ok payload) :
    ∀ p ∈ payload, 1 ≤ p.payloadSize ∧ p.unknownFields = [] := by
  unfold usagePayload at h
  split at h
  · obtain ⟨p, hp, rfl⟩ := Lib.Fallible.map_eq_ok.mp h
    simpa using payload_recorded hp
  · cases h
    exact nofun
  · cases h
  · cases h

/-- Every record that a call returns was checked. -/
theorem step_recorded (h : (step s operation).1 = .record r) :
    Recorded operation r := by
  have hanswer : ∀ {op : SequencerM InferenceArtifact},
      Atomic op s (fun r _ => Recorded operation r) → (answer .record op s).1 = .record r →
        Recorded operation r := by
    intro op hop hr
    rcases answer_cases .record hop with ⟨_, hrun⟩ | ⟨_, _, hrun, hrecorded⟩
    · rw [hrun] at hr
      cases hr
    · rw [hrun] at hr
      cases hr
      exact hrecorded
  cases operation with
  | startAttempt id =>
    rcases answer_cases .attempt (startAttempt_atomic (s := s) id) with ⟨_, hrun⟩ | ⟨_, _, hrun, _⟩
    all_goals
      rw [step, hrun] at h
      cases h
  | providerRequest bytes metadata time | providerResponse bytes metadata time =>
    refine hanswer (timed_atomic fun htime track => Atomic.guard fun _ => ?_) h
    refine Atomic.bind_read Atomic.ofExcept fun p hp => ?_
    exact stamped_atomic (recorded_bytes htime hp)
  | streamEvent bytes metadata time =>
    refine hanswer (timed_atomic fun htime track => Atomic.guard fun _ => ?_) h
    refine Atomic.bind_read Atomic.ofExcept fun p hp => ?_
    cases Lib.Word.checkedAdd track.nextEventOrdinal 1 with
    | none => exact Atomic.throw
    | some next => exact stamped_atomic (recorded_bytes htime hp)
  | usage source bytes input output total time =>
    refine hanswer (timed_atomic fun htime track => ?_) h
    refine Atomic.bind_read Atomic.ofExcept fun payload hpayload => ?_
    refine (Total.bind (Total.get ?_)).atomic
    refine Total.pure ?_
    exact ⟨htime, usagePayload_recorded hpayload, .inr ⟨input, output, total, rfl⟩, rfl⟩
  | transportError errorClass timeoutMs time =>
    refine hanswer (timed_atomic fun htime track => Atomic.guard fun _ => ?_) h
    exact stamped_atomic (recorded_bare rfl htime)
  | retry id reason backoffMs time =>
    refine hanswer (Atomic.bind_read Atomic.ofExcept fun _ htime => ?_) h
    refine Atomic.bind_read currentTrack_atomic fun track _ => ?_
    refine Atomic.bind_commit (mintAttempt_atomic id) fun attempt s' _ => ?_
    refine Total.bind (Total.get (Total.bind (Total.modify (Total.pure ?_))))
    exact recorded_bare rfl (checkedTime_ok htime) s'

/-! ## Every record of a run is valid -/

/-- A record says what its kind requires, and a retry cites an earlier attempt. -/
def Placed (r : InferenceArtifact) : Prop :=
  HasContent r ∧ ∀ cited reason backoffMs, r.event = .retry cited reason backoffMs →
    cited < r.attemptOrdinal

theorem records_cons (r : InferenceArtifact) (entries : List Entry) :
    records (.record r :: entries) = r :: records entries := rfl

theorem placed_of_trace {x entries log log'} (h : Trace (LogStep x) log entries log') :
    ∀ r ∈ records entries, Placed r := by
  induction h with
  | nil => exact fun r hr => absurd hr not_mem_nil
  | cons hstep _ ih =>
    cases hstep with
    | refused | started => exact ih
    | record _ hadmits =>
      refine forall_mem_cons.mpr ⟨⟨hadmits.1, ?_⟩, ih⟩
      intro cited reason backoffMs hevent
      refine absurd ?_ hadmits.not_retry
      rw [InferenceArtifact.kind, hevent]
      rfl
    | @retry done b r cited reason backoffMs hstamped hevent hcited =>
      refine forall_mem_cons.mpr ⟨⟨?_, ?_⟩, ih⟩
      · simp [HasContent, hevent]
      intro cited' reason' backoffMs' hevent'
      rw [hevent] at hevent'
      cases hevent'
      rw [UInt64.lt_iff_toNat_lt, hcited, hstamped.attemptOrdinal]
      exact Nat.lt_succ_self _

theorem semanticChecks_ok (htime : ∀ t ∈ r.captureTime, calendarValid t = true) (h : Placed r) :
    r.semanticChecks = .ok () := by
  obtain ⟨hcontent, hretry⟩ := h
  have hclock : ¬ (r.captureTime.any fun time => !calendarValid time) = true := by
    cases ht : r.captureTime with
    | none => simp
    | some t => simp [htime t ht]
  unfold InferenceArtifact.semanticChecks
  rw [if_neg hclock]
  cases hevent : r.event with
  | retry cited reason backoffMs =>
    exact if_neg (UInt64.not_le.mpr (hretry cited reason backoffMs hevent))
  | usage source =>
    simp only [HasContent, hevent] at hcontent
    obtain ⟨m, input, output, total, hm, hinput, houtput, htotal⟩ := hcontent
    simp [hm, hinput, houtput, htotal]
  | _ => rfl

theorem metadata_valid {v} {m} (h : Metadata.fromValue v = .ok m) : m.Valid := by
  unfold Metadata.fromValue at h
  split at h
  · obtain ⟨m', hread, h⟩ := Lib.Fallible.bind_eq_ok.mp h
    split at h
    · cases h
    · rename_i hempty
      cases h
      exact ⟨(Metadata.readEntries_ok Metadata.empty_readable hread).1, eq_false_of_ne_true hempty⟩
  · cases h

/-- The metadata argument is one that `from_value` can return. -/
def Returnable (operation : Operation) : Prop :=
  ∀ m ∈ metadataOf operation, ∃ v, Metadata.fromValue v = .ok m

theorem valid_of_recorded (h : Recorded operation r)
    (hmetadata : Returnable operation) (hplaced : Placed r) (hcounters : ∀ n ∈ r.counters, Fits n) :
    r.Valid := by
  obtain ⟨hordinal, hpayload, hmeta, hevent⟩ := InferenceArtifact.counters_fit.mp hcounters
  refine ⟨?_, ?_, ?_, semanticChecks_ok h.time hplaced, hcounters, ?_, ?_⟩
  · intro p hp
    obtain ⟨hsize, hunknown⟩ := h.payload p hp
    refine ⟨hsize, hpayload p hp, ?_, ?_⟩
    · rw [hunknown]
      exact List.Pairwise.nil
    · rw [hunknown]
      exact forall_mem_nil _
  · intro m hm
    rcases h.metadata with hargument | ⟨input, output, total, husage⟩
    · obtain ⟨v, hv⟩ := hmetadata m (hargument ▸ hm)
      exact metadata_valid hv
    have hcounts := hmeta m hm
    rw [husage] at hm
    cases hm
    have hcount : ∀ n ∈ [input, output, total], Fits n := by
      intro n hn
      refine hcounts n (reduceOption_mem_iff.mpr ?_)
      simp only [mem_cons, not_mem_nil, or_false] at hn
      rcases hn with rfl | rfl | rfl <;> simp
    exact ⟨{ Metadata.empty_readable with
      usageInputTokens := by simpa using hcount input (by simp)
      usageOutputTokens := by simpa using hcount output (by simp)
      usageTotalTokens := by simpa using hcount total (by simp) }, rfl⟩
  · intro hrequired
    have hcontent := hplaced.1
    unfold InferenceArtifact.kind at hrequired
    unfold HasContent at hcontent
    cases hkind : r.event <;> simp_all [BoundaryEvent.kind, payloadRequired]
  · rw [h.unknown]
    exact List.Pairwise.nil
  · rw [h.unknown]
    exact forall_mem_nil _

/-! ## What a valid record is written to -/

theorem brief_text {validate : String → Bool} [Bounded validate] (t : Text validate)
    (h : Bounded.limit validate ≤ 1024) : Brief (textValue t) := .inl ⟨_, rfl, short_text t h⟩

theorem brief_u63 (n : UInt64) : Brief (u63Value n) := .inr ⟨_, rfl⟩

theorem brief_token {α : Type} [ClosedEnum α] (a : α)
    (h : ∀ b ∈ (ClosedEnum.variants : List α), (utf8 (ClosedEnum.token b)).length ≤ 1024) :
    Brief (textValue a) := .inl ⟨_, rfl, h a (ClosedEnum.complete a)⟩

theorem brief_event (event : BoundaryEvent) : ∀ e ∈ event.known, ∀ v ∈ e.2, Brief v := by
  have hreason : ∀ reason : RetryReason, Brief (textValue reason) :=
    fun reason => brief_token reason (by decide)
  have hsource : ∀ source : UsageSource, Brief (textValue source) :=
    fun source => brief_token source (by decide)
  have hclass : ∀ errorClass : TransportErrorClass, Brief (textValue errorClass) :=
    fun errorClass => brief_token errorClass (by decide)
  cases event <;> simp [BoundaryEvent.known, specific, brief_u63, hreason, hsource, hclass]

theorem brief_metadata {m : Metadata} (h : m.Readable) : ∀ e ∈ m.known, ∀ v ∈ e.2, Brief v := by
  have hprintable : ∀ t, isPrintableAscii t = true → Brief (.text t) := by
    intro t ht
    simp only [isPrintableAscii, Bool.and_eq_true, decide_eq_true_eq] at ht
    exact .inl ⟨t, rfl, ht.1.2.trans (by decide)⟩
  have htype : ∀ t, m.contentType = some t → Brief (.text t) := fun t ht =>
    hprintable t (h.contentType t ht)
  have hid : ∀ t, m.providerRequestId = some t → Brief (.text t) := fun t ht =>
    hprintable t (h.providerRequestId t ht)
  simpa [Metadata.known, brief_u63] using ⟨htype, hid⟩

theorem brief_payload (p : Payload) : ∀ e ∈ p.known, ∀ v ∈ e.2, Brief v := by
  have hdigest : Brief (textValue p.payloadDigest) := .inl ⟨_, rfl, short_digest p.payloadDigest⟩
  simp [Payload.known, brief_u63, hdigest]

/-- What is written of known members only, where all are brief. -/
theorem moderate_written {known} (hnames : (known.map Prod.fst).Nodup)
    (hshort : ∀ name ∈ known.map Prod.fst, (utf8 name).length ≤ 40)
    (hbrief : ∀ e ∈ known, ∀ v ∈ e.2, Brief v) (hlen : known.length ≤ 14) :
    Moderate (written known []) := by
  unfold written
  rw [append_nil]
  refine moderate_assembled (pairwise_map.mpr (present_pairwise hnames)) ?_ ?_ ?_
  · exact fun m hm => hshort m.1 (key_of_mem_present hm)
  · exact fun m hm => hbrief _ (mem_present.mp hm) _ rfl
  · exact (List.length_filterMap_le _ _).trans hlen

theorem moderate_known (h : r.Valid) (hunknown : ∀ p ∈ r.payload, p.unknownFields = []) :
    ∀ e ∈ r.known, ∀ v ∈ e.2, Moderate v := by
  have hkind : Brief (textValue r.kind) := brief_token r.kind (by decide)
  have hpayload : ∀ p, r.payload = some p → Moderate p.toValue := by
    intro p hp
    rw [Payload.toValue, hunknown p hp]
    refine moderate_written p.names_nodup ?_ (brief_payload p) (by simp [Payload.known])
    rw [p.known_names]
    decide
  have hmetadata : ∀ v, r.metadata.bind Metadata.toValue = some v → Moderate v := by
    intro v hbind
    obtain ⟨m, hm, hv⟩ := Option.bind_eq_some_iff.mp hbind
    rw [Metadata.toValue, (h.metadata m hm).nonempty] at hv
    cases hv
    refine moderate_written m.names_nodup ?_ (brief_metadata (h.metadata m hm).toReadable)
      (by simp [Metadata.known])
    rw [m.known_names]
    decide
  have htime : ∀ t, r.captureTime = some t → Moderate (textValue t) := fun t _ =>
    (brief_text t (by decide)).moderate
  refine forall_mem_append.mpr ⟨?_, fun e he v hv => (brief_event r.event e he v hv).moderate⟩
  simpa [(brief_u63 r.attemptOrdinal).moderate, hkind.moderate, moderate_int,
    (brief_text r.inferenceRequestId (by decide)).moderate,
    (brief_text r.originClientId (by decide)).moderate,
    (brief_text r.providerAttemptId (by decide)).moderate,
    (brief_text r.tenantId (by decide)).moderate, (brief_text r.traceId (by decide)).moderate]
    using ⟨htime, hpayload, hmetadata⟩

/-- A valid record without unknown members is read back from what it writes. -/
theorem parse_written (h : r.Valid) (hunknown : r.unknownFields = [])
    (hpayload : ∀ p ∈ r.payload, p.unknownFields = []) :
    ∃ b, r.canonicalBytes = some b ∧ InferenceArtifact.parse b = .ok r := by
  have hvalue : r.toValue = some (.object (assembled (present r.known))) := by
    rw [InferenceArtifact.toValue, if_pos h.counters, written, hunknown, append_nil]
  have hnames : ((present r.known).map Prod.fst).Nodup :=
    pairwise_map.mpr (present_pairwise r.names_nodup)
  have hmoderate : ∀ m ∈ present r.known, Moderate m.2 := fun m hm =>
    moderate_known h hpayload _ (mem_present.mp hm) _ rfl
  have hshort : ∀ m ∈ present r.known, (utf8 m.1).length ≤ 40 := by
    have hall : ∀ name ∈ InferenceArtifact.KNOWN_NAMES, (utf8 name).length ≤ 40 := by decide
    intro m hm
    refine hall m.1 ?_
    rw [← r.known_names]
    exact key_of_mem_present hm
  have hlen : (present r.known).length ≤ 80 := by
    refine (List.length_filterMap_le _ _).trans ?_
    rw [← length_map Prod.fst, r.known_names]
    decide
  have hwf := assembled_wellFormed hnames fun m hm => (hmoderate m hm).wellFormed
  have hparse := parse_moderate hnames hshort hmoderate hlen
  exact ⟨_, congrArg (Option.map Json.canonicalBytes) hvalue,
    parse_ok.mpr ⟨_, hparse, (InferenceArtifact.fromValue_iff hwf).mpr ⟨h, hvalue⟩⟩⟩

theorem mem_records {entries} : r ∈ records entries ↔ .record r ∈ entries := by
  unfold records
  rw [mem_filterMap]
  constructor
  · intro ⟨entry, hmem, hr⟩
    cases entry <;> cases hr
    exact hmem
  · intro hmem
    exact ⟨_, hmem, rfl⟩

/-- Every record of a run is checked by the call that returned it. -/
theorem capture_recorded {x operations} (hr : r ∈ records (capture x operations)) :
    ∃ operation ∈ operations, Recorded operation r := by
  obtain ⟨outcome, hmem, hentry⟩ := mem_map.mp (mem_records.mp hr)
  obtain ⟨s, operation, hoperation, houtcome⟩ := mem_run hmem
  cases outcome with
  | record r' =>
    cases hentry
    exact ⟨operation, hoperation, step_recorded houtcome.symm⟩
  | _ => cases hentry

/-- What was parsed writes the value it was parsed from, and is parsed from what it writes;
and so is every record of the sequencer whose counters fit the wire, where the metadata
that was passed in could have been read. -/
theorem inference_artifact_round_trip :
    (∀ b a, InferenceArtifact.parse b = .ok a → ∃ v, Json.parse b = .ok v ∧
      a.canonicalBytes = some (Json.canonicalBytes v) ∧
      InferenceArtifact.parse (Json.canonicalBytes v) = .ok a) ∧
    ∀ (x : Exchange) (operations : List Operation),
      (∀ operation ∈ operations, ∀ m ∈ metadataOf operation, ∃ v, Metadata.fromValue v = .ok m) →
      (∀ r ∈ records (capture x operations), ∀ n ∈ r.counters, n.toNat < 2 ^ 63) →
      ∀ r ∈ records (capture x operations), ∃ b, r.canonicalBytes = some b ∧
        InferenceArtifact.parse b = .ok r := by
  refine ⟨fun b a h => parse_again h, ?_⟩
  intro x operations hmetadata hcounters r hr
  obtain ⟨log, htrace⟩ := capture_trace x operations
  obtain ⟨operation, hoperation, hrecorded⟩ := capture_recorded hr
  have hvalid := valid_of_recorded hrecorded (hmetadata operation hoperation)
    (placed_of_trace htrace r hr) (hcounters r hr)
  exact parse_written hvalid hrecorded.unknown fun p hp => (hrecorded.payload p hp).2

/-- A request that times out, and a retry with one event and the usage it reports. -/
def reportedRun : List Operation :=
  [.startAttempt firstAttempt,
   .providerRequest [0x7b, 0x7d] (some { Metadata.empty with contentType := some "text/plain" }) none,
   .transportError .readTimeout (some 30000) none, .retry secondAttempt .timeout (some 250) none,
   .streamEvent [0x61] (some { Metadata.empty with httpStatus := some 200 }) none,
   .usage .streamEvent (some [0x61]) 3 4 7 none]

theorem reported_run_round_trips : (records (capture sampleExchange reportedRun)).length = 5 ∧
    ∀ r ∈ records (capture sampleExchange reportedRun), ∃ b v, r.canonicalBytes = some b ∧
      InferenceArtifact.parse b = .ok r ∧ Json.parse b = .ok v ∧ b = Json.canonicalBytes v := by
  have hmetadata : ∀ operation ∈ reportedRun, ∀ m ∈ metadataOf operation,
      ∃ v, Metadata.fromValue v = .ok m := by
    simp only [reportedRun, forall_mem_cons, metadataOf, Option.mem_def, Option.some.injEq,
      forall_eq', reduceCtorEq, false_implies, implies_true, true_and, not_mem_nil, and_true]
    refine ⟨⟨.object [("content_type", .text "text/plain")], ?_⟩,
      ⟨.object [("http_status", .int 200)], ?_⟩⟩
    · decide +kernel
    · decide +kernel
  have hcounters : ∀ r ∈ records (capture sampleExchange reportedRun), ∀ n ∈ r.counters,
      n.toNat < 2 ^ 63 := by
    have hall : ∀ r ∈ records (capture sampleExchange reportedRun),
        r.counters.all (fun n => decide (n.toNat < 2 ^ 63)) = true := by decide +kernel
    exact fun r hr n hn => of_decide_eq_true (all_eq_true.mp (hall r hr) n hn)
  refine ⟨rfl, fun r hr => ?_⟩
  obtain ⟨hparsed, hrun⟩ := inference_artifact_round_trip
  obtain ⟨b, hb, hr⟩ := hrun sampleExchange reportedRun hmetadata hcounters r hr
  obtain ⟨v, hv, hbytes, -⟩ := hparsed b r hr
  exact ⟨b, v, hb, hr, hv, Option.some.inj (hb.symm.trans hbytes)⟩

end AgentArchivist.Protocol.ArtifactRoundTrip
