import AgentArchivist.Lib.Runs
import AgentArchivist.Protocol.InferenceArtifact

/-! # The attempt log

What the sequencer is for, without its state: a log of attempts, each a block of
records, where only the last block grows and a retry opens the next. `LogStep`
says what one call may do to the log; the shapes of the blocks follow from it. -/
namespace AgentArchivist.Protocol.AttemptLog
open Protocol List
open Lib.Runs InferenceArtifact Vocabulary

/-- The records of one attempt. -/
structure Block where
  providerAttemptId : ProviderAttemptId
  records : List InferenceArtifact

/-- What every record of one logical inference carries. -/
structure Exchange where
  tenantId : TenantId
  originClientId : ClientId
  traceId : TraceId
  inferenceRequestId : InferenceRequestId

/-- The members that say where a record belongs. -/
structure Stamped (x : Exchange) (ordinal : Nat) (id : ProviderAttemptId) (r : InferenceArtifact) :
    Prop where
  tenantId : r.tenantId = x.tenantId
  originClientId : r.originClientId = x.originClientId
  traceId : r.traceId = x.traceId
  inferenceRequestId : r.inferenceRequestId = x.inferenceRequestId
  providerAttemptId : r.providerAttemptId = id
  attemptOrdinal : r.attemptOrdinal.toNat = ordinal

def kinds (records : List InferenceArtifact) : List InferenceArtifactKind :=
  records.map InferenceArtifact.kind

def eventOrdinal (r : InferenceArtifact) : Option Nat :=
  match r.event with
  | .streamingEvent n => some n.toNat
  | _ => none

def eventOrdinals (records : List InferenceArtifact) : List Nat := records.filterMap eventOrdinal

/-- What a record of its kind must carry. -/
def HasContent (r : InferenceArtifact) : Prop :=
  match r.event with
  | .providerRequest => r.payload.isSome
  | .providerResponse => r.payload.isSome
  | .streamingEvent _ => r.payload.isSome
  | .usage _ => ∃ m input output total, r.metadata = some m ∧ m.usageInputTokens = some input ∧
      m.usageOutputTokens = some output ∧ m.usageTotalTokens = some total
  | .transportError _ _ => True
  | .retry _ _ _ => True

/-- The next record of a block that holds `records`, other than a retry. -/
def Admits (records : List InferenceArtifact) (r : InferenceArtifact) : Prop :=
  HasContent r ∧ .transportError ∉ kinds records ∧
  match r.event with
  | .providerRequest => .providerRequest ∉ kinds records
  | .providerResponse => .providerResponse ∉ kinds records
  | .streamingEvent n =>
    .providerResponse ∉ kinds records ∧ n.toNat = (eventOrdinals records).length
  | .usage _ => True
  | .transportError _ _ => .providerResponse ∉ kinds records
  | .retry _ _ _ => False

/-- What a call answered. -/
inductive Entry where
  | started (id : ProviderAttemptId)
  | record (r : InferenceArtifact)
  | refused

inductive LogStep (x : Exchange) : List Block → Entry → List Block → Prop
  | refused (log : List Block) : LogStep x log .refused log
  | started (id : ProviderAttemptId) : LogStep x [] (.started id) [⟨id, []⟩]
  | record {done : List Block} {b : Block} {r : InferenceArtifact} :
      Stamped x done.length b.providerAttemptId r → Admits b.records r →
      LogStep x (done ++ [b]) (.record r) (done ++ [⟨b.providerAttemptId, b.records ++ [r]⟩])
  | retry {done : List Block} {b : Block} {r : InferenceArtifact} {cited : UInt64}
      {reason : RetryReason} {backoff : Option UInt64} :
      Stamped x (done.length + 1) r.providerAttemptId r → r.event = .retry cited reason backoff →
      cited.toNat = done.length →
      LogStep x (done ++ [b]) (.record r) (done ++ [b] ++ [⟨r.providerAttemptId, [r]⟩])

def records (entries : List Entry) : List InferenceArtifact :=
  entries.filterMap fun
    | .record r => some r
    | _ => none

/-- The attempt identities that were minted. -/
def minted (entries : List Entry) : List ProviderAttemptId :=
  entries.filterMap fun
    | .started id => some id
    | .record r => if r.kind = .retry then some r.providerAttemptId else none
    | .refused => none

/-! ## Shapes -/

/-- How the block of attempt `ordinal` begins: with the one retry that cites the attempt
before it, or without any for the first attempt. -/
def Entered (ordinal : Nat) (records : List InferenceArtifact) : Prop :=
  match ordinal with
  | 0 => .retry ∉ kinds records
  | before + 1 => ∃ r rest cited reason backoff, records = r :: rest ∧
      r.event = .retry cited reason backoff ∧ cited.toNat = before ∧ .retry ∉ kinds rest

structure Shaped (x : Exchange) (ordinal : Nat) (b : Block) : Prop where
  stamped : ∀ r ∈ b.records, Stamped x ordinal b.providerAttemptId r
  entered : Entered ordinal b.records
  request : (kinds b.records).count .providerRequest ≤ 1
  response : (kinds b.records).count .providerResponse ≤ 1
  events : eventOrdinals b.records = List.range (eventOrdinals b.records).length
  eventsFirst : ∀ before r after, b.records = before ++ r :: after →
    r.kind = .providerResponse → eventOrdinals after = []
  error : (kinds b.records).count .transportError ≤ 1
  oneOutcome : .providerResponse ∈ kinds b.records → .transportError ∉ kinds b.records
  errorLast : ∀ before r after, b.records = before ++ r :: after →
    r.kind = .transportError → after = []
  content : ∀ r ∈ b.records, HasContent r

variable {x : Exchange} {ordinal : Nat} {recs : List InferenceArtifact} {r : InferenceArtifact}

theorem kinds_snoc : kinds (recs ++ [r]) = kinds recs ++ [r.kind] := map_append

theorem eventOrdinals_append (a b : List InferenceArtifact) :
    eventOrdinals (a ++ b) = eventOrdinals a ++ eventOrdinals b := filterMap_append

theorem mem_kinds {kind} : kind ∈ kinds recs ↔ ∃ r ∈ recs, r.kind = kind :=
  mem_map

/-! What an admitted record is not. -/

theorem Admits.not_retry (h : Admits recs r) : r.kind ≠ .retry := by
  intro hk
  obtain ⟨-, -, h⟩ := h
  rw [InferenceArtifact.kind] at hk
  cases he : r.event <;> simp_all [BoundaryEvent.kind]

theorem Admits.request (h : Admits recs r) (hk : r.kind = .providerRequest) :
    .providerRequest ∉ kinds recs := by
  obtain ⟨-, -, h⟩ := h
  rw [InferenceArtifact.kind] at hk
  cases he : r.event <;> simp_all [BoundaryEvent.kind]

/-- After a response only usage and the request follow. -/
theorem Admits.response (h : Admits recs r) (hr : .providerResponse ∈ kinds recs) :
    eventOrdinal r = none ∧ r.kind ≠ .providerResponse ∧ r.kind ≠ .transportError := by
  obtain ⟨-, -, h⟩ := h
  rw [InferenceArtifact.kind, eventOrdinal]
  cases he : r.event <;> simp_all [BoundaryEvent.kind]

theorem Admits.event {n} (h : Admits recs r) (hn : eventOrdinal r = some n) :
    n = (eventOrdinals recs).length := by
  obtain ⟨-, -, h⟩ := h
  rw [eventOrdinal] at hn
  cases he : r.event <;> simp_all

/-! A block keeps its shape. -/

/-- Where a record stands in a block that has grown by one. -/
theorem snoc_cases {before after r'} (h : recs ++ [r] = before ++ r' :: after) :
    (after = [] ∧ r' = r) ∨ ∃ after', after = after' ++ [r] ∧ recs = before ++ r' :: after' := by
  rcases eq_nil_or_concat' after with rfl | ⟨after', last, rfl⟩
  · exact .inl ⟨rfl, (List.cons.inj (append_inj' h rfl).2).1.symm⟩
  right
  rw [← cons_append, ← append_assoc] at h
  obtain ⟨hrecs, hlast⟩ := append_inj' h rfl
  cases hlast
  exact ⟨after', rfl, hrecs⟩

theorem count_snoc {kind} (h : (kinds recs).count kind ≤ 1)
    (hnew : r.kind = kind → kind ∉ kinds recs) : (kinds (recs ++ [r])).count kind ≤ 1 := by
  rw [kinds_snoc, count_append]
  by_cases hk : r.kind = kind
  · rw [count_eq_zero_of_not_mem (hnew hk)]
    simp [hk]
  · simpa [hk] using h

theorem Entered.snoc (h : Entered ordinal recs) (hr : r.kind ≠ .retry) :
    Entered ordinal (recs ++ [r]) := by
  cases ordinal with
  | zero =>
    show InferenceArtifactKind.retry ∉ kinds (recs ++ [r])
    rw [kinds_snoc, mem_append, mem_singleton, not_or]
    exact ⟨h, hr.symm⟩
  | succ before =>
    obtain ⟨r0, rest, cited, reason, backoff, rfl, hevent, hcited, hrest⟩ := h
    refine ⟨r0, rest ++ [r], cited, reason, backoff, rfl, hevent, hcited, ?_⟩
    rw [kinds_snoc, mem_append, mem_singleton, not_or]
    exact ⟨hrest, hr.symm⟩

theorem events_snoc (h : eventOrdinals recs = List.range (eventOrdinals recs).length)
    (ha : Admits recs r) :
    eventOrdinals (recs ++ [r]) = List.range (eventOrdinals (recs ++ [r])).length := by
  rw [eventOrdinals_append]
  cases hn : eventOrdinal r with
  | none => simpa [eventOrdinals, hn] using h
  | some n =>
    have hr : eventOrdinals [r] = [(eventOrdinals recs).length] := by
      rw [← ha.event hn]
      simp [eventOrdinals, hn]
    rw [hr, length_append, length_singleton, range_succ, ← h]

theorem Shaped.snoc {b} (h : Shaped x ordinal b) (hs : Stamped x ordinal b.providerAttemptId r)
    (ha : Admits b.records r) :
    Shaped x ordinal ⟨b.providerAttemptId, b.records ++ [r]⟩ where
  stamped := forall_mem_append.mpr ⟨h.stamped, forall_mem_singleton.mpr hs⟩
  entered := h.entered.snoc ha.not_retry
  request := count_snoc h.request ha.request
  response := count_snoc h.response fun hk hmem => (ha.response hmem).2.1 hk
  events := events_snoc h.events ha
  eventsFirst before r' after heq hk := by
    rcases snoc_cases heq with ⟨rfl, -⟩ | ⟨after', rfl, hrecs⟩
    · rfl
    · have hmem : .providerResponse ∈ kinds b.records := mem_kinds.mpr ⟨r', by simp [hrecs], hk⟩
      rw [eventOrdinals_append, h.eventsFirst before r' after' hrecs hk]
      simp [eventOrdinals, (ha.response hmem).1]
  error := count_snoc h.error fun _ => ha.2.1
  oneOutcome hmem herror := by
    rw [kinds_snoc, mem_append, mem_singleton] at hmem herror
    rcases herror with herror | herror
    · exact ha.2.1 herror
    rcases hmem with hmem | hmem
    · exact (ha.response hmem).2.2 herror.symm
    · rw [← hmem] at herror
      cases herror
  errorLast before r' after heq hk := by
    rcases snoc_cases heq with ⟨rfl, -⟩ | ⟨after', -, hrecs⟩
    · rfl
    · exact absurd (mem_kinds.mpr ⟨r', by simp [hrecs], hk⟩) ha.2.1
  content := forall_mem_append.mpr ⟨h.content, forall_mem_singleton.mpr ha.1⟩

theorem shaped_first (id : ProviderAttemptId) : Shaped x 0 ⟨id, []⟩ where
  stamped := forall_mem_nil _
  entered := not_mem_nil
  request := Nat.zero_le 1
  response := Nat.zero_le 1
  events := rfl
  eventsFirst before r after h := by cases before <;> cases h
  error := Nat.zero_le 1
  oneOutcome := nofun
  errorLast before r after h := by cases before <;> cases h
  content := forall_mem_nil _

theorem shaped_retry {cited} {reason backoff} (hs : Stamped x (ordinal + 1) r.providerAttemptId r)
    (hr : r.event = .retry cited reason backoff) (hc : cited.toNat = ordinal) :
    Shaped x (ordinal + 1) ⟨r.providerAttemptId, [r]⟩ := by
  have hk : kinds [r] = [.retry] := by simp [kinds, InferenceArtifact.kind, hr, BoundaryEvent.kind]
  have hn : eventOrdinals [r] = [] := by simp [eventOrdinals, eventOrdinal, hr]
  have honly : ∀ before r' after, [r] = before ++ r' :: after → after = [] := by
    intro before r' after h
    cases before with
    | nil => exact (List.cons.inj h).2.symm
    | cons r0 before => simp at h
  exact
    { stamped := forall_mem_singleton.mpr hs
      entered := ⟨r, [], cited, reason, backoff, rfl, hr, hc, not_mem_nil⟩
      request := by simp [hk]
      response := by simp [hk]
      events := by simp [hn]
      eventsFirst := fun before r' after h _ => by rw [honly before r' after h]; rfl
      error := by simp [hk]
      oneOutcome := by simp [hk]
      errorLast := fun before r' after h _ => honly before r' after h
      content := by simp [HasContent, hr] }

/-! ## Runs -/

/-- The log against everything answered so far. -/
structure History (x : Exchange) (entries : List Entry) (log : List Block) : Prop where
  records : records entries = log.flatMap Block.records
  minted : minted entries = log.map Block.providerAttemptId
  shaped : ∀ p ∈ log.zipIdx, Shaped x p.2 p.1

theorem mem_zipIdx_snoc {P : Block × Nat → Prop} {done} {b} :
    (∀ p ∈ (done ++ [b]).zipIdx, P p) ↔ (∀ p ∈ done.zipIdx, P p) ∧ P (b, done.length) := by
  rw [zipIdx_append, forall_mem_append]
  simp

theorem History.step {entries log log' entry} (h : History x entries log)
    (hstep : LogStep x log entry log') : History x (entries ++ [entry]) log' := by
  have hrecords := h.records
  have hminted := h.minted
  unfold AttemptLog.records at hrecords
  unfold AttemptLog.minted at hminted
  cases hstep with
  | refused log =>
    refine ⟨?_, ?_, h.shaped⟩
    · simp [AttemptLog.records, hrecords]
    · simp [AttemptLog.minted, hminted]
  | started id =>
    refine ⟨?_, ?_, ?_⟩
    · simp [AttemptLog.records, hrecords]
    · simp [AttemptLog.minted, hminted]
    · simpa using shaped_first id
  | @record done b r hs ha =>
    obtain ⟨hdone, hlast⟩ := mem_zipIdx_snoc.mp h.shaped
    refine ⟨?_, ?_, mem_zipIdx_snoc.mpr ⟨hdone, hlast.snoc hs ha⟩⟩
    · simp [AttemptLog.records, hrecords]
    · simp [AttemptLog.minted, hminted, ha.not_retry]
  | @retry done b r cited reason backoff hs hr hc =>
    have hk : r.kind = .retry := by rw [InferenceArtifact.kind, hr]; rfl
    refine ⟨?_, ?_, mem_zipIdx_snoc.mpr ⟨h.shaped, ?_⟩⟩
    · simp [AttemptLog.records, hrecords]
    · simp [AttemptLog.minted, hminted, hk]
    · rw [length_append, length_singleton]
      exact shaped_retry hs hr hc

theorem history_of_trace {entries log} (h : Trace (LogStep x) [] entries log) :
    History x entries log :=
  h.history ⟨rfl, rfl, nofun⟩ fun _ _ _ _ h hstep => h.step hstep

end AgentArchivist.Protocol.AttemptLog
