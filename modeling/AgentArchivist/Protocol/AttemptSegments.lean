import AgentArchivist.Protocol.AttemptBlocks
import AgentArchivist.Protocol.AttemptViews

/-! # Segments of a record stream

The records of a run come in segments of increasing attempt ordinals, one for each
attempt that emitted something. Grouping finds these segments, the ordinal of a
segment selects its records, and all segments but the last are there for good. -/
namespace AgentArchivist.Protocol.AttemptSegments
open Lib List
open Grouping Runs SortedMap Utf8 AttemptLog AttemptReconstruction InferenceArtifact Vocabulary

/-! ## Keys -/

instance : Std.TransCmp cmpId :=
  inferInstanceAs (Std.TransCmp (compareOn fun id : ProviderAttemptId => utf8 id.asStr))

instance : Std.LawfulEqCmp cmpId where
  compare_self {a} := by
    show compare (utf8 a.asStr) (utf8 a.asStr) = .eq
    exact Std.ReflCmp.compare_self
  eq_of_compare {a b} h := by
    have hbytes : utf8 a.asStr = utf8 b.asStr := Std.LawfulEqCmp.eq_of_compare h
    exact Text.ext (utf8_injective hbytes)

instance : Std.TransCmp cmpKey :=
  inferInstanceAs (Std.TransCmp (compareLex (compareOn Prod.fst)
    (compareOn fun k : UInt64 × ProviderAttemptId => utf8 k.2.asStr)))

instance : Std.LawfulEqCmp cmpKey where
  compare_self := Std.ReflCmp.compare_self
  eq_of_compare {a b} h := by
    obtain ⟨hfst, hsnd⟩ := Ordering.then_eq_eq.mp h
    exact Prod.ext (Std.LawfulEqCmp.eq_of_compare hfst) (eq_of_cmp hsnd)

theorem cmpKey_lt {a b} (h : a.1.toNat < b.1.toNat) : cmpKey a b = .lt := by
  have hfst : compare a.1 b.1 = .lt := by
    show compareOfLessAndEq a.1 b.1 = .lt
    exact if_pos h
  show (compare a.1 b.1).then (cmpId a.2 b.2) = .lt
  rw [hfst]
  rfl

/-! ## Segments -/

abbrev Segment := (UInt64 × ProviderAttemptId) × List InferenceArtifact

/-- The attempts of a log that emitted something, from ordinal `n` on. -/
def segments : Nat → List Block → List Segment
  | _, [] => []
  | n, b :: log =>
    (if b.records = [] then [] else [((UInt64.ofNat n, b.providerAttemptId), b.records)]) ++
      segments (n + 1) log

variable {x : Exchange} {n k : Nat} {b : Block} {log : List Block} {s : Segment}

theorem segments_eq : segments n log = (log.zipIdx n).filterMap fun p =>
    if p.1.records = [] then none
    else some ((UInt64.ofNat p.2, p.1.providerAttemptId), p.1.records) := by
  induction log generalizing n with
  | nil => rfl
  | cons b log ih => by_cases hb : b.records = [] <;> simp [segments, zipIdx_cons, hb, ih]

theorem mem_segments : s ∈ segments n log ↔ ∃ k b, n ≤ k ∧ log[k - n]? = some b ∧
    b.records ≠ [] ∧ s = ((UInt64.ofNat k, b.providerAttemptId), b.records) := by
  rw [segments_eq, mem_filterMap, Prod.exists, exists_comm]
  simp [mem_zipIdx_iff_le_and_getElem?_sub, and_assoc, eq_comm]

/-- The blocks of a log, each with the shape of its ordinal. -/
def Chained (x : Exchange) (n : Nat) (log : List Block) : Prop :=
  ∀ p ∈ log.zipIdx n, Shaped x p.2 p.1

theorem chained_cons : Chained x n (b :: log) ↔ Shaped x n b ∧ Chained x (n + 1) log := by
  unfold Chained
  rw [zipIdx_cons, forall_mem_cons]

theorem Chained.shaped (h : Chained x n log) (hk : n ≤ k) (hget : log[k - n]? = some b) :
    Shaped x k b :=
  h (b, k) (mem_zipIdx_iff_le_and_getElem?_sub.mpr ⟨hk, hget⟩)

theorem shaped_key (h : Shaped x k b) {r} (hr : r ∈ b.records) :
    (r.attemptOrdinal, r.providerAttemptId) = (UInt64.ofNat k, b.providerAttemptId) := by
  obtain ⟨-, -, -, -, hid, hordinal⟩ := h.stamped r hr
  rw [← hordinal, UInt64.ofNat_toNat, hid]

/-- The ordinal of an attempt that emitted something is a word. -/
theorem toNat_ordinal (h : Shaped x k b) (hne : b.records ≠ []) : (UInt64.ofNat k).toNat = k := by
  obtain ⟨r, hr⟩ := exists_mem_of_ne_nil _ hne
  rw [← (h.stamped r hr).attemptOrdinal, UInt64.ofNat_toNat]

theorem segment_ordinal (h : Chained x n log) (hs : s ∈ segments n log) : n ≤ s.1.1.toNat := by
  obtain ⟨k, b, hk, hget, hne, rfl⟩ := mem_segments.mp hs
  rw [toNat_ordinal (h.shaped hk hget) hne]
  exact hk

/-- Records come keyed in segments. -/
theorem keyed_segments (h : Chained x n log) :
    (log.flatMap Block.records).map (fun a => ((a.attemptOrdinal, a.providerAttemptId), a)) =
      (segments n log).flatMap fun s => s.2.map fun v => (s.1, v) := by
  induction log generalizing n with
  | nil => rfl
  | cons b log ih =>
    obtain ⟨hb, hlog⟩ := chained_cons.mp h
    have hkeyed : b.records.map (fun a => ((a.attemptOrdinal, a.providerAttemptId), a)) =
        b.records.map fun a => ((UInt64.ofNat n, b.providerAttemptId), a) := by
      refine map_congr_left fun a ha => ?_
      rw [shaped_key hb ha]
    rw [flatMap_cons, map_append, ih hlog, hkeyed, segments, flatMap_append]
    by_cases hne : b.records = []
    · simp [hne]
    · simp [hne]

theorem segments_increasing (h : Chained x n log) :
    (segments n log).Pairwise fun a b => a.1.1.toNat < b.1.1.toNat := by
  induction log generalizing n with
  | nil => exact List.Pairwise.nil
  | cons b log ih =>
    obtain ⟨hb, hlog⟩ := chained_cons.mp h
    rw [segments]
    by_cases hne : b.records = []
    · rw [if_pos hne, nil_append]
      exact ih hlog
    rw [if_neg hne, singleton_append]
    refine pairwise_cons.mpr ⟨?_, ih hlog⟩
    intro s hs
    rw [toNat_ordinal hb hne]
    exact segment_ordinal hlog hs

theorem segments_ids : ((segments n log).map fun s => s.1.2).Sublist
    (log.map Block.providerAttemptId) := by
  induction log generalizing n with
  | nil => exact List.Sublist.slnil
  | cons b log ih =>
    rw [segments, map_append, map_cons]
    by_cases hne : b.records = []
    · rw [if_pos hne]
      exact ih.cons _
    · rw [if_neg hne]
      exact ih.cons_cons _

/-- Grouping finds the segments. -/
theorem groups_segments (h : Chained x n log) :
    groups (log.flatMap Block.records) = segments n log := by
  rw [groups, keyed_segments h]
  refine group_segments ((segments_increasing h).imp cmpKey_lt) ?_
  intro s hs
  obtain ⟨k, b, -, -, hne, rfl⟩ := mem_segments.mp hs
  exact hne

/-! ## Silence -/

/-- A block after the first emitted the retry that opened it. -/
theorem records_ne_nil (h : Shaped x (k + 1) b) : b.records ≠ [] := by
  obtain ⟨r, rest, _, _, _, hrecs, -⟩ := h.entered
  rw [hrecs]
  exact cons_ne_nil r rest

/-- The first attempt emitted nothing. -/
def Silent (log : List Block) : Prop := ∃ b, log[0]? = some b ∧ b.records = []

/-- Every attempt emitted something, a silent first one apart. -/
theorem emitted (h : Chained x 0 log) (hget : log[k]? = some b)
    (hcase : k ≠ 0 ∨ ¬ Silent log) : b.records ≠ [] := by
  cases k with
  | zero =>
    intro hempty
    rcases hcase with hzero | hloud
    · exact hzero rfl
    · exact hloud ⟨b, hget, hempty⟩
  | succ before => exact records_ne_nil (h.shaped (Nat.zero_le _) hget)

/-- The ordinals of the segments are those of the attempts that emitted something. -/
theorem mem_ordinals (h : Chained x 0 log) {ordinal} :
    ordinal ∈ (segments 0 log).map (fun s => s.1.1) ↔
      ∃ b, log[ordinal.toNat]? = some b ∧ b.records ≠ [] := by
  constructor
  · intro hmem
    obtain ⟨s, hs, rfl⟩ := mem_map.mp hmem
    obtain ⟨k, b, hk, hget, hne, rfl⟩ := mem_segments.mp hs
    refine ⟨b, ?_, hne⟩
    rw [toNat_ordinal (h.shaped hk hget) hne]
    exact hget
  · intro ⟨b, hget, hne⟩
    refine mem_map.mpr ⟨((ordinal, b.providerAttemptId), b.records), ?_, rfl⟩
    refine mem_segments.mpr ⟨ordinal.toNat, b, Nat.zero_le _, hget, hne, ?_⟩
    rw [UInt64.ofNat_toNat]

/-! ## Whose records they are -/

/-- The records of one attempt. -/
def emittedFor (records : List InferenceArtifact) (ordinal : UInt64) : List InferenceArtifact :=
  records.filter fun r => r.attemptOrdinal = ordinal

theorem ordinal_of_mem (h : Chained x n log) {r} (hr : r ∈ log.flatMap Block.records) :
    n ≤ r.attemptOrdinal.toNat := by
  obtain ⟨b, hb, hrb⟩ := mem_flatMap.mp hr
  obtain ⟨k, hget⟩ := getElem?_of_mem hb
  have hshaped : Shaped x (n + k) b := h.shaped (Nat.le_add_right n k) (by simpa using hget)
  rw [(hshaped.stamped r hrb).attemptOrdinal]
  exact Nat.le_add_right n k

/-- The records with the ordinal of a segment are the segment. -/
theorem emittedFor_segment (h : Chained x n log) (hs : s ∈ segments n log) :
    emittedFor (log.flatMap Block.records) s.1.1 = s.2 := by
  induction log generalizing n with
  | nil => cases hs
  | cons b log ih =>
    obtain ⟨hb, hlog⟩ := chained_cons.mp h
    have hown : ∀ r ∈ b.records, r.attemptOrdinal.toNat = n :=
      fun r hr => (hb.stamped r hr).attemptOrdinal
    unfold emittedFor at ih ⊢
    rw [flatMap_cons, filter_append]
    rw [segments, mem_append] at hs
    rcases hs with hs | hs
    · -- the segment of the first block: no later block has its ordinal
      by_cases hempty : b.records = []
      · simp [hempty] at hs
      rw [if_neg hempty, mem_singleton] at hs
      subst hs
      have hordinal := toNat_ordinal hb hempty
      have hall : b.records.filter (fun r => r.attemptOrdinal = UInt64.ofNat n) = b.records := by
        refine filter_eq_self.mpr fun r hr => decide_eq_true ?_
        exact UInt64.toNat_inj.mp (by rw [hown r hr, hordinal])
      have hnone : (log.flatMap Block.records).filter
          (fun r => r.attemptOrdinal = UInt64.ofNat n) = [] := by
        refine filter_eq_nil_iff.mpr fun r hr heq => ?_
        have hlater := ordinal_of_mem hlog hr
        rw [of_decide_eq_true heq, hordinal] at hlater
        exact Nat.lt_irrefl n hlater
      rw [hall, hnone, append_nil]
    · have hnone : b.records.filter (fun r => r.attemptOrdinal = s.1.1) = [] := by
        refine filter_eq_nil_iff.mpr fun r hr heq => ?_
        have hlater := segment_ordinal hlog hs
        rw [← of_decide_eq_true heq, hown r hr] at hlater
        exact Nat.lt_irrefl n hlater
      rw [hnone, nil_append]
      exact ih hlog hs

theorem mem_ordinals_iff (h : Chained x 0 log) {ordinal} :
    ordinal ∈ (segments 0 log).map (fun s => s.1.1) ↔
      ∃ r ∈ log.flatMap Block.records, r.attemptOrdinal = ordinal := by
  rw [mem_ordinals h]
  constructor
  · intro ⟨b, hget, hne⟩
    obtain ⟨r, hr⟩ := exists_mem_of_ne_nil _ hne
    have hstamped := (h.shaped (Nat.zero_le _) hget).stamped r hr
    exact ⟨r, mem_flatMap.mpr ⟨b, mem_of_getElem? hget, hr⟩, UInt64.toNat_inj.mp hstamped.attemptOrdinal⟩
  · intro ⟨r, hr, hordinal⟩
    obtain ⟨b, hb, hrb⟩ := mem_flatMap.mp hr
    obtain ⟨k, hget⟩ := getElem?_of_mem hb
    have hstamped := (h.shaped (Nat.zero_le k) hget).stamped r hrb
    refine ⟨b, ?_, ne_nil_of_mem hrb⟩
    rw [← hordinal, hstamped.attemptOrdinal]
    exact hget

/-! ## Prefixes -/

theorem segments_append (done more : List Block) :
    segments n (done ++ more) = segments n done ++ segments (n + done.length) more := by
  rw [segments_eq, segments_eq, segments_eq, zipIdx_append, filterMap_append]

variable {log' : List Block}

/-- A step leaves all blocks but the last as they are. -/
theorem dropLast_step {entry} (h : LogStep x log entry log') : log.dropLast <+: log'.dropLast := by
  cases h with
  | refused | started => exact prefix_rfl
  | record => rw [dropLast_concat, dropLast_concat]
  | retry =>
    rw [dropLast_concat, dropLast_concat]
    exact prefix_append _ _

theorem dropLast_trace {entries} (h : Trace (LogStep x) log entries log') :
    log.dropLast <+: log'.dropLast :=
  h.history (P := fun _ log' => log.dropLast <+: log'.dropLast) prefix_rfl
    fun _ _ _ _ hb hstep => hb.trans (dropLast_step hstep)

/-- All segments but the last are there for good. -/
theorem segments_stable {entries} (h : Trace (LogStep x) log entries log') :
    (segments 0 log).dropLast <+: segments 0 log' := by
  obtain ⟨more, hlog'⟩ := (dropLast_trace h).trans (List.dropLast_prefix log')
  have hdone : segments 0 log.dropLast <+: segments 0 log' := by
    rw [← hlog', segments_append]
    exact prefix_append _ _
  refine List.IsPrefix.trans ?_ hdone
  rcases eq_nil_or_concat' log with rfl | ⟨done, b, rfl⟩
  · exact prefix_rfl
  rw [dropLast_concat, segments_append, segments, segments, append_nil]
  by_cases hempty : b.records = []
  · rw [if_pos hempty, append_nil]
    exact List.dropLast_prefix _
  · rw [if_neg hempty, dropLast_concat]

end AgentArchivist.Protocol.AttemptSegments
