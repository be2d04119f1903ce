import AgentArchivist.Protocol.AttemptLog
import AgentArchivist.Protocol.AttemptReconstruction

/-! # The view of one attempt

The fold over the records of one attempt keeps everything they say and nothing
else (`Reads`), as long as no two of them claim the same place (`Clean`). A block
with the shape that the attempt log gives it is clean, its events are already in
order, and its view comes without anomalies (`attemptView_shaped`). -/
namespace AgentArchivist.Protocol.AttemptViews
open List
open Lib.Word AttemptLog AttemptReconstruction InferenceArtifact Vocabulary

/-! ## What a record says -/

def requestOf (r : InferenceArtifact) : Option PayloadRef :=
  match r.event with
  | .providerRequest => r.payload.map .ofPayload
  | _ => none

def responseOf (r : InferenceArtifact) : Option PayloadRef :=
  match r.event with
  | .providerResponse => r.payload.map .ofPayload
  | _ => none

def streamEventOf (r : InferenceArtifact) : Option StreamEventRef :=
  match r.event with
  | .streamingEvent n => r.payload.map fun p => ⟨n, .ofPayload p⟩
  | _ => none

def usageOf (r : InferenceArtifact) : Option UsageObservation :=
  match r.event with
  | .usage source => usageObservation r source
  | _ => none

def transportErrorOf (r : InferenceArtifact) : Option AttemptTransportError :=
  match r.event with
  | .transportError errorClass timeoutMs => some ⟨errorClass, timeoutMs⟩
  | _ => none

def retryOf (r : InferenceArtifact) : Option RetryTransition :=
  match r.event with
  | .retry cited reason backoffMs => some ⟨reason, cited, backoffMs⟩
  | _ => none

/-- The view holds exactly what the records of its attempt say, in their order. -/
structure Matches (emitted : List InferenceArtifact) (view : AttemptReconstruction) : Prop where
  request : view.request.toList = emitted.filterMap requestOf
  response : view.response.toList = emitted.filterMap responseOf
  streamEvents : view.streamEvents = emitted.filterMap streamEventOf
  usageReports : view.usageReports = emitted.filterMap usageOf
  transportError : view.transportError.toList = emitted.filterMap transportErrorOf
  enteredVia : view.enteredVia.toList = emitted.filterMap retryOf

/-! ## The fold -/

/-- No two records claim the same place. -/
structure Clean (recs : List InferenceArtifact) : Prop where
  request : (recs.filterMap requestOf).length ≤ 1
  response : (recs.filterMap responseOf).length ≤ 1
  transportError : (recs.filterMap transportErrorOf).length ≤ 1
  retry : (recs.filterMap retryOf).length ≤ 1
  events : (eventOrdinals recs).Nodup

variable {recs : List InferenceArtifact} {r : InferenceArtifact} {f : Fold}

theorem Clean.init (h : Clean (recs ++ [r])) : Clean recs := by
  obtain ⟨hrequest, hresponse, herror, hretry, hevents⟩ := h
  rw [filterMap_append, length_append] at hrequest hresponse herror hretry
  rw [eventOrdinals_append] at hevents
  exact ⟨Nat.le_of_add_right_le hrequest, Nat.le_of_add_right_le hresponse,
    Nat.le_of_add_right_le herror, Nat.le_of_add_right_le hretry,
    (nodup_append.mp hevents).1⟩

/-- The fold after the records `recs` of attempt `key`. -/
structure Reads (key : UInt64 × ProviderAttemptId) (members recs : List InferenceArtifact)
    (f : Fold) : Prop extends Matches recs f.view where
  id : f.view.providerAttemptId = key.2
  ordinal : f.view.attemptOrdinal = key.1
  artifacts : f.view.artifacts = members
  seen : ∀ n, n ∈ f.eventOrdinals ↔ n.toNat ∈ eventOrdinals recs
  anomalies : f.anomalies = []

/-- A place that only one record may take is free before it. -/
theorem free_of_clean {α : Type} {place} {g : InferenceArtifact → Option α} {a}
    (h : place.toList = recs.filterMap g) (hone : ((recs ++ [r]).filterMap g).length ≤ 1)
    (ha : g r = some a) : place = none := by
  rw [filterMap_append, ← h, length_append] at hone
  cases place with
  | none => rfl
  | some b => simp [ha] at hone

theorem filterMap_snoc {α : Type} (g : InferenceArtifact → Option α) :
    (recs ++ [r]).filterMap g = recs.filterMap g ++ (g r).toList := by
  cases h : g r <;> simp [h]

/-- A record that says nothing of a kind leaves what was read of it. -/
theorem Matches.snoc {view view'} (h : Matches recs view)
    (hrequest : view'.request.toList = view.request.toList ++ (requestOf r).toList)
    (hresponse : view'.response.toList = view.response.toList ++ (responseOf r).toList)
    (hevents : view'.streamEvents = view.streamEvents ++ (streamEventOf r).toList)
    (husage : view'.usageReports = view.usageReports ++ (usageOf r).toList)
    (herror : view'.transportError.toList = view.transportError.toList ++ (transportErrorOf r).toList)
    (hretry : view'.enteredVia.toList = view.enteredVia.toList ++ (retryOf r).toList) :
    Matches (recs ++ [r]) view' where
  request := by rw [filterMap_snoc, hrequest, h.request]
  response := by rw [filterMap_snoc, hresponse, h.response]
  streamEvents := by rw [filterMap_snoc, hevents, h.streamEvents]
  usageReports := by rw [filterMap_snoc, husage, h.usageReports]
  transportError := by rw [filterMap_snoc, herror, h.transportError]
  enteredVia := by rw [filterMap_snoc, hretry, h.enteredVia]

/-- Reading one more record. -/
theorem Reads.member {key members} (h : Reads key members recs f) (hclean : Clean (recs ++ [r]))
    (hcontent : HasContent r) : Reads key members (recs ++ [r]) (f.member r) := by
  have hsame : eventOrdinal r = none → ∀ n, n ∈ f.eventOrdinals ↔
      n.toNat ∈ eventOrdinals (recs ++ [r]) := by
    intro hn n
    rw [h.seen n, eventOrdinals, eventOrdinals, filterMap_snoc, hn, Option.toList_none,
      append_nil]
  unfold HasContent at hcontent
  unfold Fold.member
  cases he : r.event <;> rw [he] at hcontent <;> dsimp only at hcontent ⊢
  case streamingEvent n =>
    obtain ⟨p, hp⟩ := Option.isSome_iff_exists.mp hcontent
    have hn : eventOrdinals (recs ++ [r]) = eventOrdinals recs ++ [n.toNat] := by
      rw [eventOrdinals, filterMap_snoc, eventOrdinal, he]
      rfl
    have hnew : n ∉ f.eventOrdinals := by
      intro hmem
      have hnodup := hclean.events
      rw [hn, nodup_append] at hnodup
      exact hnodup.2.2 _ ((h.seen n).mp hmem) _ (mem_singleton_self _) rfl
    have hseen : f.eventOrdinals.contains n = false := by simpa using hnew
    simp only [hseen, Bool.false_eq_true, if_false]
    refine ⟨h.toMatches.snoc ?_ ?_ ?_ ?_ ?_ ?_, h.id, h.ordinal, h.artifacts, ?_, h.anomalies⟩
    case refine_7 =>
      intro m
      rw [hn, mem_cons, mem_append, mem_singleton, h.seen m, or_comm,
        UInt64.toNat_inj]
    all_goals
      simp [requestOf, responseOf, streamEventOf, usageOf, transportErrorOf, retryOf, he, hp]
  -- the place that the record takes is free
  case' providerRequest =>
    obtain ⟨p, hp⟩ := Option.isSome_iff_exists.mp hcontent
    have hgives : requestOf r = some (.ofPayload p) := by simp [requestOf, he, hp]
    have hfree := free_of_clean h.request hclean.request hgives
  case' providerResponse =>
    obtain ⟨p, hp⟩ := Option.isSome_iff_exists.mp hcontent
    have hgives : responseOf r = some (.ofPayload p) := by simp [responseOf, he, hp]
    have hfree := free_of_clean h.response hclean.response hgives
  case' retry cited reason backoffMs =>
    have hgives : retryOf r = some ⟨reason, cited, backoffMs⟩ := by simp [retryOf, he]
    have hfree := free_of_clean h.enteredVia hclean.retry hgives
  case' transportError errorClass timeoutMs =>
    have hgives : transportErrorOf r = some ⟨errorClass, timeoutMs⟩ := by simp [transportErrorOf, he]
    have hfree := free_of_clean h.transportError hclean.transportError hgives
  all_goals
    try simp only [hfree, Option.isSome_none, Bool.false_eq_true, if_false]
    refine ⟨h.toMatches.snoc ?_ ?_ ?_ ?_ ?_ ?_, h.id, h.ordinal, h.artifacts,
      hsame (by rw [eventOrdinal, he]), h.anomalies⟩ <;>
      simp [requestOf, responseOf, streamEventOf, usageOf, transportErrorOf, retryOf, *]

/-- Reading all records of an attempt. -/
theorem reads_foldl {key members} (hclean : Clean recs) (hcontent : ∀ r ∈ recs, HasContent r) :
    Reads key members recs (recs.foldl Fold.member ⟨emptyView key members, [], []⟩) := by
  induction recs using List.reverseRecOn with
  | nil => exact ⟨⟨rfl, rfl, rfl, rfl, rfl, rfl⟩, rfl, rfl, rfl, fun n => by simp [eventOrdinals], rfl⟩
  | append_singleton recs r ih =>
    obtain ⟨hrecs, hr⟩ := forall_mem_append.mp hcontent
    rw [foldl_append, foldl_cons, foldl_nil]
    exact (ih hclean.init hrecs).member hclean (forall_mem_singleton.mp hr)

/-! ## Shaped blocks -/

/-- What is said by records of one kind only is said as often as there are such records. -/
theorem length_filterMap_le {α : Type} {g : InferenceArtifact → Option α} {kind}
    (hg : ∀ r a, g r = some a → r.kind = kind) :
    ∀ recs, (recs.filterMap g).length ≤ (kinds recs).count kind
  | [] => Nat.le_refl 0
  | r :: recs => by
    have ih := length_filterMap_le hg recs
    rw [kinds, map_cons, count_cons]
    cases ha : g r with
    | none =>
      rw [filterMap_cons_none ha]
      exact Nat.le_add_right_of_le ih
    | some a =>
      rw [filterMap_cons_some ha, length_cons, hg r a ha, beq_self_eq_true, if_pos rfl]
      exact Nat.succ_le_succ ih

/-- Each place is taken by records of its kind. -/
theorem place_kind (r : InferenceArtifact) :
    (∀ a, requestOf r = some a → r.kind = .providerRequest) ∧
    (∀ a, responseOf r = some a → r.kind = .providerResponse) ∧
    (∀ a, transportErrorOf r = some a → r.kind = .transportError) ∧
    (∀ a, retryOf r = some a → r.kind = .retry) := by
  unfold requestOf responseOf transportErrorOf retryOf InferenceArtifact.kind
  cases r.event <;> simp [BoundaryEvent.kind]

variable {x : Exchange} {ordinal : Nat} {b : Block}

theorem retry_count {recs} (h : Entered ordinal recs) : (kinds recs).count .retry ≤ 1 := by
  cases ordinal with
  | zero => rw [count_eq_zero_of_not_mem h]; exact Nat.zero_le 1
  | succ before =>
    obtain ⟨r, rest, cited, reason, backoff, rfl, -, -, hrest⟩ := h
    rw [kinds, map_cons, count_cons, ← kinds, count_eq_zero_of_not_mem hrest]
    split <;> simp

theorem clean_of_shaped (h : Shaped x ordinal b) : Clean b.records where
  request := Nat.le_trans (length_filterMap_le (fun r => (place_kind r).1) _) h.request
  response := Nat.le_trans (length_filterMap_le (fun r => (place_kind r).2.1) _) h.response
  transportError := Nat.le_trans (length_filterMap_le (fun r => (place_kind r).2.2.1) _) h.error
  retry := Nat.le_trans (length_filterMap_le (fun r => (place_kind r).2.2.2) _)
    (retry_count h.entered)
  events := by
    rw [h.events]
    exact nodup_range

/-- Every streamed event of a block is read. -/
theorem streamEvents_ordinals : ∀ {recs : List InferenceArtifact}, (∀ r ∈ recs, HasContent r) →
    (recs.filterMap streamEventOf).map (·.eventOrdinal.toNat) = eventOrdinals recs
  | [], _ => rfl
  | r :: recs, h => by
    obtain ⟨hr, hrecs⟩ := forall_mem_cons.mp h
    have ih := streamEvents_ordinals hrecs
    rw [eventOrdinals, filterMap_cons, filterMap_cons, ← eventOrdinals, ← ih]
    unfold HasContent at hr
    unfold streamEventOf eventOrdinal
    cases he : r.event <;> rw [he] at hr
    case streamingEvent n =>
      obtain ⟨p, hp⟩ := Option.isSome_iff_exists.mp hr
      rw [hp]
      rfl

/-- Dense ordinals leave no gap. -/
theorem eventGap_dense (attemptOrdinal : UInt64) : ∀ {expected : UInt64} {events : List StreamEventRef},
    events.map (·.eventOrdinal.toNat) = List.range' expected.toNat events.length →
    eventGap attemptOrdinal expected events = []
  | _, [], _ => rfl
  | expected, event :: rest, h => by
    rw [map_cons, length_cons, range'_succ] at h
    obtain ⟨hhead, htail⟩ := List.cons.inj h
    rw [eventGap, if_neg (not_not.mpr (UInt64.toNat_inj.mp hhead))]
    cases rest with
    | nil => rfl
    | cons next rest =>
      have hnext : (saturatingAdd expected 1).toNat = expected.toNat + 1 := by
        rw [map_cons, length_cons, range'_succ] at htail
        have hlt := next.eventOrdinal.toNat_lt
        have hone : (1 : UInt64).toNat = 1 := rfl
        rw [toNat_saturatingAdd, hone, ← (List.cons.inj htail).1]
        omega
      refine eventGap_dense attemptOrdinal ?_
      rw [htail, hnext]

theorem events_sorted {events : List StreamEventRef} {n}
    (h : events.map (·.eventOrdinal.toNat) = List.range n) :
    events.Pairwise fun a b => decide (a.eventOrdinal ≤ b.eventOrdinal) = true := by
  have hlt : (events.map (·.eventOrdinal.toNat)).Pairwise (· < ·) := by
    rw [h]
    exact pairwise_lt_range
  rw [pairwise_map] at hlt
  refine hlt.imp ?_
  intro a b hab
  exact decide_eq_true (Nat.le_of_lt hab)

/-- The view of a shaped block: all that its records say, and no anomaly. -/
theorem attemptView_shaped (h : Shaped x ordinal b) (key : UInt64 × ProviderAttemptId) :
    ∃ view, attemptView key b.records = (view, []) ∧ Matches b.records view ∧
      view.providerAttemptId = key.2 ∧ view.attemptOrdinal = key.1 ∧ view.artifacts = b.records := by
  have hreads : Reads key b.records b.records
      (b.records.foldl Fold.member ⟨emptyView key b.records, [], []⟩) :=
    reads_foldl (clean_of_shaped h) h.content
  have hordinals : (b.records.filterMap streamEventOf).map (·.eventOrdinal.toNat) =
      List.range (eventOrdinals b.records).length := by
    rw [streamEvents_ordinals h.content, ← h.events]
  have hlength : (eventOrdinals b.records).length = (b.records.filterMap streamEventOf).length := by
    rw [← streamEvents_ordinals h.content, length_map]
  unfold attemptView
  generalize b.records.foldl Fold.member ⟨emptyView key b.records, [], []⟩ = f at hreads
  have hsort : f.view.streamEvents.mergeSort
      (fun a b => decide (a.eventOrdinal ≤ b.eventOrdinal)) = f.view.streamEvents := by
    rw [hreads.streamEvents]
    exact mergeSort_of_pairwise (events_sorted hordinals)
  have hgap : eventGap key.1 0 f.view.streamEvents = [] := by
    rw [hreads.streamEvents]
    refine eventGap_dense key.1 ?_
    rw [hordinals, hlength, range_eq_range']
    rfl
  simp only [hsort, hgap, hreads.anomalies, append_nil]
  exact ⟨_, rfl, ⟨hreads.request, hreads.response, hreads.streamEvents, hreads.usageReports,
    hreads.transportError, hreads.enteredVia⟩, hreads.id, hreads.ordinal, hreads.artifacts⟩

end AgentArchivist.Protocol.AttemptViews
