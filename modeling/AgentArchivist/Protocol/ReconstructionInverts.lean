import AgentArchivist.Protocol.AttemptSegments

/-! # Reconstruction inverts capture

Every segment of the captured records is viewed without an anomaly, and only a
silent first attempt leaves a citation unresolved. -/
namespace AgentArchivist.Protocol.ReconstructionInverts
open Lib List
open Grouping Runs AttemptBlocks AttemptLog AttemptReconstruction AttemptSegments AttemptSequence
open AttemptViews InferenceArtifact

variable {x : Exchange} {n k : Nat} {b : Block} {log : List Block} {s : Segment}

/-! ## Anomalies -/

theorem group_single {κ β : Type} [DecidableEq κ] {cmp : κ → κ → Ordering} [Std.TransCmp cmp]
    [Std.LawfulEqCmp cmp] {entries : List (κ × β)} (h : (entries.map Prod.fst).Nodup) :
    ∀ e ∈ group cmp entries, ¬ 1 < e.2.length := by
  intro e he
  rw [(mem_group.mp he).2, length_values]
  exact Nat.not_lt.mpr (nodup_iff_count_le_one.mp h e.1)

/-- Distinct ordinals with distinct identities do not conflict. -/
theorem identityAnomalies_nil {keys} (hordinals : (keys.map Prod.fst).Nodup)
    (hids : (keys.map Prod.snd).Nodup) : identityAnomalies keys = [] := by
  have hswap : ((keys.map fun k => (k.2, k.1)).map Prod.fst).Nodup := by rwa [map_map]
  refine append_eq_nil_iff.mpr ⟨filterMap_eq_nil_iff.mpr fun e he => ?_, if_neg fun hany => ?_⟩
  · exact if_neg (group_single hordinals e he)
  · obtain ⟨e, he, hlt⟩ := List.any_eq_true.mp hany
    exact group_single hswap e he (of_decide_eq_true hlt)

/-- The view of a segment. -/
def viewOf (s : Segment) : AttemptReconstruction := (attemptView s.1 s.2).1

theorem viewOf_spec (h : Chained x n log) (hs : s ∈ segments n log) :
    attemptView s.1 s.2 = (viewOf s, []) ∧ Matches s.2 (viewOf s) ∧
      (viewOf s).providerAttemptId = s.1.2 ∧ (viewOf s).attemptOrdinal = s.1.1 ∧
      (viewOf s).artifacts = s.2 := by
  obtain ⟨k, b, hk, hget, -, rfl⟩ := mem_segments.mp hs
  obtain ⟨view, hview, hspec⟩ :=
    attemptView_shaped (h.shaped hk hget) (UInt64.ofNat k, b.providerAttemptId)
  have heq : viewOf ((UInt64.ofNat k, b.providerAttemptId), b.records) = view :=
    congrArg Prod.fst hview
  rw [heq]
  exact ⟨hview, hspec⟩

/-- What a block's retry cites. -/
theorem filterMap_retryOf {recs} (h : Entered k recs) :
    (k = 0 ∧ recs.filterMap retryOf = []) ∨ ∃ t : RetryTransition,
      recs.filterMap retryOf = [t] ∧ t.ofAttemptOrdinal.toNat + 1 = k := by
  have hnone : ∀ rest, .retry ∉ kinds rest → rest.filterMap retryOf = [] := by
    intro rest hrest
    refine filterMap_eq_nil_iff.mpr fun r hr => ?_
    refine Option.eq_none_iff_forall_ne_some.mpr fun t ht => hrest ?_
    exact mem_kinds.mpr ⟨r, hr, (place_kind r).2.2.2 t ht⟩
  cases k with
  | zero => exact .inl ⟨rfl, hnone recs h⟩
  | succ before =>
    obtain ⟨r, rest, cited, reason, backoff, rfl, hevent, hcited, hrest⟩ := h
    refine .inr ⟨⟨reason, cited, backoff⟩, ?_, by rw [hcited]⟩
    rw [filterMap_cons_some (by rw [retryOf, hevent]), hnone rest hrest]

theorem viewOf_ordinals (h : Chained x n log) :
    ((segments n log).map viewOf).map (·.attemptOrdinal) = (segments n log).map fun s => s.1.1 := by
  rw [map_map]
  exact map_congr_left fun s hs => (viewOf_spec h hs).2.2.2.1

/-- An attempt's retry is resolved, unless it cites a silent first attempt. -/
theorem unresolvedRetry_none (h : Chained x 0 log) (hs : s ∈ segments 0 log)
    (hcase : s.1.1.toNat ≠ 1 ∨ ¬ Silent log) :
    unresolvedRetry ((segments 0 log).map fun s => s.1.1) (viewOf s) = none := by
  obtain ⟨-, hmatches, -⟩ := viewOf_spec h hs
  obtain ⟨k, b, hk, hget, hne, rfl⟩ := mem_segments.mp hs
  have hshaped := h.shaped hk hget
  rw [toNat_ordinal hshaped hne] at hcase
  have hretry := hmatches.enteredVia
  rcases filterMap_retryOf hshaped.entered with ⟨-, hnone⟩ | ⟨t, ht, hcited⟩
  · rw [hnone, Option.toList_eq_nil_iff] at hretry
    rw [unresolvedRetry, hretry]
    rfl
  rw [ht, Option.toList_eq_singleton_iff] at hretry
  -- the block before this one is there, and emitted something
  have hlt : t.ofAttemptOrdinal.toNat < log.length := by
    have := (List.getElem?_eq_some_iff.mp hget).1
    omega
  have hbefore : log[t.ofAttemptOrdinal.toNat]? = some log[t.ofAttemptOrdinal.toNat] :=
    getElem?_eq_getElem hlt
  have hemitted := emitted h hbefore (hcase.imp_left fun hone => by omega)
  have hmem := (mem_ordinals h).mpr ⟨_, hbefore, hemitted⟩
  rw [unresolvedRetry, hretry, Option.bind_some, if_pos (contains_iff_mem.mpr hmem)]

theorem unresolvedRetries_eq (h : Chained x 0 log) :
    unresolvedRetries ((segments 0 log).map viewOf) = (segments 0 log).filterMap fun s =>
      unresolvedRetry ((segments 0 log).map fun s => s.1.1) (viewOf s) := by
  rw [unresolvedRetries, viewOf_ordinals h, filterMap_map]
  rfl

theorem unresolvedRetries_nil (h : Chained x 0 log) (hloud : ¬ Silent log) :
    unresolvedRetries ((segments 0 log).map viewOf) = [] := by
  rw [unresolvedRetries_eq h]
  exact filterMap_eq_nil_iff.mpr fun s hs => unresolvedRetry_none h hs (.inr hloud)

/-- After a silent first attempt the second cites it in vain, and no other does. -/
theorem unresolvedRetries_silent {b₀ b₁} (h : Chained x 0 (b₀ :: b₁ :: log))
    (hsilent : b₀.records = []) :
    unresolvedRetries ((segments 0 (b₀ :: b₁ :: log)).map viewOf) =
      [.unresolvedRetryCitation 1 0] := by
  have h1 : Shaped x 1 b₁ := h.shaped (k := 1) (Nat.zero_le 1) rfl
  have hrest : Chained x 2 log := (chained_cons.mp (chained_cons.mp h).2).2
  have hsegments : segments 0 (b₀ :: b₁ :: log) =
      ((1, b₁.providerAttemptId), b₁.records) :: segments 2 log := by
    rw [segments, if_pos hsilent, segments, if_neg (records_ne_nil h1)]
    rfl
  have hmem : ((1, b₁.providerAttemptId), b₁.records) ∈ segments 0 (b₀ :: b₁ :: log) := by
    rw [hsegments]
    exact mem_cons_self
  -- the second attempt
  have hfirst : unresolvedRetry ((segments 0 (b₀ :: b₁ :: log)).map fun s => s.1.1)
      (viewOf ((1, b₁.providerAttemptId), b₁.records)) = some (.unresolvedRetryCitation 1 0) := by
    obtain ⟨-, hmatches, -, hordinal, -⟩ := viewOf_spec h hmem
    have hretry := hmatches.enteredVia
    rcases filterMap_retryOf h1.entered with ⟨hzero, -⟩ | ⟨t, ht, hcited⟩
    · omega
    have hzero : t.ofAttemptOrdinal = 0 := UInt64.toNat_inj.mp (by simpa using hcited)
    have habsent : ¬ (0 : UInt64) ∈ (segments 0 (b₀ :: b₁ :: log)).map fun s => s.1.1 := by
      intro hin
      obtain ⟨b, hget, hne⟩ := (mem_ordinals h).mp hin
      cases hget
      exact hne hsilent
    rw [ht, Option.toList_eq_singleton_iff] at hretry
    rw [unresolvedRetry, hretry, Option.bind_some, hzero, hordinal,
      if_neg (mt contains_iff_mem.mp habsent)]
  -- and the later ones
  have hlater : (segments 2 log).filterMap (fun s =>
      unresolvedRetry ((segments 0 (b₀ :: b₁ :: log)).map fun s => s.1.1) (viewOf s)) = [] := by
    refine filterMap_eq_nil_iff.mpr fun s hs => ?_
    have hin : s ∈ segments 0 (b₀ :: b₁ :: log) := by
      rw [hsegments]
      exact mem_cons_of_mem _ hs
    refine unresolvedRetry_none h hin (.inl ?_)
    have := segment_ordinal hrest hs
    omega
  rw [unresolvedRetries_eq h]
  nth_rewrite 2 [hsegments]
  rw [filterMap_cons, hfirst, hlater]

/-- The anomalies of captured records: a retry as the first of all has nothing to cite. -/
def silentFirst (records : List InferenceArtifact) : List ReconstructionAnomaly :=
  match records.head? with
  | some first => if first.kind = .retry then [.unresolvedRetryCitation 1 0] else []
  | none => []

theorem unresolvedRetries_segments (h : Chained x 0 log) :
    unresolvedRetries ((segments 0 log).map viewOf) = silentFirst (log.flatMap Block.records) := by
  cases log with
  | nil => rfl
  | cons b0 rest =>
    by_cases hsilent : b0.records = []
    · cases rest with
      | nil => simp [segments, hsilent, unresolvedRetries, silentFirst]
      | cons b1 rest =>
        obtain ⟨r, recs, _, _, _, hrecs, hevent, -⟩ :=
          (h.shaped (k := 1) (Nat.zero_le 1) rfl : Shaped x 1 b1).entered
        have hkind : r.kind = .retry := by rw [InferenceArtifact.kind, hevent]; rfl
        rw [unresolvedRetries_silent h hsilent]
        simp [silentFirst, hsilent, hrecs, hkind]
    · have hloud : ¬ Silent (b0 :: rest) := by
        rintro ⟨b, hb, hempty⟩
        cases hb
        exact hsilent hempty
      obtain ⟨r, recs, hrecs⟩ := exists_cons_of_ne_nil hsilent
      have hentered : .retry ∉ kinds b0.records := (chained_cons.mp h).1.entered
      have hkind : r.kind ≠ .retry := fun hk =>
        hentered (mem_kinds.mpr ⟨r, hrecs ▸ mem_cons_self, hk⟩)
      rw [unresolvedRetries_nil h hloud]
      simp [silentFirst, hrecs, hkind]

/-! ## The whole reconstruction -/

theorem stamped_of_mem (h : Chained x 0 log) {r} (hr : r ∈ log.flatMap Block.records) :
    ∃ ordinal id, Stamped x ordinal id r := by
  obtain ⟨b, hb, hrb⟩ := mem_flatMap.mp hr
  obtain ⟨k, hget⟩ := getElem?_of_mem hb
  exact ⟨k, b.providerAttemptId, (h.shaped (Nat.zero_le k) hget).stamped r hrb⟩

theorem partitionAnomaly_nil {α : Type} [DecidableEq α] {records first}
    {member : InferenceArtifact → α} {field} (h : ∀ r ∈ records, member r = member first) :
    partitionAnomaly records first member field = [] :=
  if_pos (all_eq_true.mpr fun r hr => decide_eq_true (h r hr))

theorem identityAnomalies_segments (h : Chained x 0 log)
    (hids : (log.map Block.providerAttemptId).Nodup) :
    identityAnomalies ((segments 0 log).map Prod.fst) = [] := by
  refine identityAnomalies_nil ?_ ?_
  · rw [map_map, List.Nodup, pairwise_map]
    refine (segments_increasing h).imp fun hlt heq => ?_
    exact Nat.ne_of_lt hlt (congrArg UInt64.toNat heq)
  · rw [map_map]
    exact hids.sublist segments_ids

/-- The reconstruction of a log: its segments, viewed. -/
theorem reconstruct_log (h : Chained x 0 log) (hids : (log.map Block.providerAttemptId).Nodup) :
    ∃ result, reconstructInference (log.flatMap Block.records) = .ok result ∧
      result.attempts = (segments 0 log).map viewOf ∧
      result.anomalies = silentFirst (log.flatMap Block.records) := by
  have hgroups := groups_segments h
  have hviews : (segments 0 log).map (fun g => attemptView g.1 g.2) =
      (segments 0 log).map fun s => (viewOf s, []) :=
    map_congr_left fun s hs => (viewOf_spec h hs).1
  unfold reconstructInference
  cases hhead : (log.flatMap Block.records).head? with
  | none =>
    rw [head?_eq_none_iff] at hhead
    rw [hhead] at hgroups ⊢
    exact ⟨_, rfl, by rw [← hgroups]; rfl, rfl⟩
  | some first =>
    obtain ⟨_, _, hf⟩ := stamped_of_mem h (mem_of_head? hhead)
    have hsame : ∀ r ∈ log.flatMap Block.records, r.inferenceRequestId = first.inferenceRequestId ∧
        r.traceId = first.traceId ∧ r.tenantId = first.tenantId ∧
        r.originClientId = first.originClientId := fun r hr => by
      obtain ⟨_, _, hs⟩ := stamped_of_mem h hr
      rw [hs.inferenceRequestId, hs.traceId, hs.tenantId, hs.originClientId, hf.inferenceRequestId,
        hf.traceId, hf.tenantId, hf.originClientId]
      exact ⟨rfl, rfl, rfl, rfl⟩
    dsimp only
    rw [List.any_eq_false.mpr fun r hr => by simp [(hsame r hr).1], if_neg Bool.false_ne_true, hgroups,
      hviews]
    refine ⟨_, rfl, by rw [map_map]; rfl, ?_⟩
    rw [← unresolvedRetries_segments h]
    dsimp only
    rw [partitionAnomaly_nil fun r hr => (hsame r hr).2.1,
      partitionAnomaly_nil fun r hr => (hsame r hr).2.2.1,
      partitionAnomaly_nil fun r hr => (hsame r hr).2.2.2, identityAnomalies_segments h hids, map_map]
    simp [Function.comp_def]

/-! ## Runs -/

/-- A log behind its trace, with distinct identities. -/
theorem chained_of_trace {entries} (h : Trace (LogStep x) [] entries log)
    (hminted : (minted entries).Nodup) :
    Chained x 0 log ∧ records entries = log.flatMap Block.records ∧
      (log.map Block.providerAttemptId).Nodup := by
  have hhistory := history_of_trace h
  exact ⟨hhistory.shaped, hhistory.records, hhistory.minted ▸ hminted⟩

/-- Reconstruction inverts capture: from the records of a run it finds one view for every
attempt that emitted something, in the order of their ordinals, each of exactly what was
emitted for it; it discloses nothing but the citation of a silent first attempt; and of a
prefix of the records it finds all attempts but the last as they are at the end. -/
theorem reconstruct_capture (x : Exchange) (operations : List Operation)
    (hminted : (minted (capture x operations)).Nodup) :
    ∃ result, reconstructInference (records (capture x operations)) = .ok result ∧
      (result.attempts.map (·.attemptOrdinal)).Pairwise (· < ·) ∧
      (∀ ordinal, ordinal ∈ result.attempts.map (·.attemptOrdinal) ↔
        ∃ r ∈ records (capture x operations), r.attemptOrdinal = ordinal) ∧
      (∀ view ∈ result.attempts,
        Matches (emittedFor (records (capture x operations)) view.attemptOrdinal) view ∧
        view.artifacts = emittedFor (records (capture x operations)) view.attemptOrdinal ∧
        ∀ r ∈ emittedFor (records (capture x operations)) view.attemptOrdinal,
          r.providerAttemptId = view.providerAttemptId ∧ HasContent r) ∧
      result.anomalies = silentFirst (records (capture x operations)) ∧
      ∀ before, before <+: records (capture x operations) →
        ∃ result', reconstructInference before = .ok result' ∧
          result'.attempts.dropLast <+: result.attempts := by
  obtain ⟨log, htrace⟩ := capture_trace x operations
  obtain ⟨h, hrecords, hids⟩ := chained_of_trace htrace hminted
  obtain ⟨result, hresult, hattempts, hanomalies⟩ := reconstruct_log h hids
  rw [← hrecords] at hresult hanomalies
  have hordinals : result.attempts.map (·.attemptOrdinal) =
      (segments 0 log).map fun s => s.1.1 := by
    rw [hattempts, viewOf_ordinals h]
  refine ⟨result, hresult, ?_, ?_, ?_, hanomalies, ?_⟩
  · rw [hordinals, pairwise_map]
    exact (segments_increasing h).imp UInt64.lt_iff_toNat_lt.mpr
  · intro ordinal
    rw [hordinals, hrecords]
    exact mem_ordinals_iff h
  · intro view hview
    rw [hattempts] at hview
    obtain ⟨s, hs, rfl⟩ := mem_map.mp hview
    obtain ⟨-, hmatches, hid, hordinal, hartifacts⟩ := viewOf_spec h hs
    rw [hordinal, hrecords, emittedFor_segment h hs]
    refine ⟨hmatches, hartifacts, fun r hr => ?_⟩
    rw [hid]
    obtain ⟨k, b, hk, hget, -, rfl⟩ := mem_segments.mp hs
    have hshaped := h.shaped hk hget
    exact ⟨(hshaped.stamped r hr).providerAttemptId, hshaped.content r hr⟩
  · intro before hbefore
    -- the prefix was returned by a prefix of the calls
    obtain ⟨entries, ⟨more, hmore⟩, rfl⟩ := prefix_filterMap_iff.mp hbefore
    rw [← hmore] at htrace hminted
    obtain ⟨log', hearlier, hlater⟩ := htrace.split
    have hminted' : (minted entries).Nodup := by
      unfold minted at hminted ⊢
      rw [filterMap_append] at hminted
      exact (nodup_append.mp hminted).1
    obtain ⟨h', hrecords', hids'⟩ := chained_of_trace hearlier hminted'
    obtain ⟨result', hresult', hattempts', -⟩ := reconstruct_log h' hids'
    rw [← hrecords'] at hresult'
    refine ⟨result', hresult', ?_⟩
    rw [hattempts', hattempts, ← map_dropLast]
    exact (segments_stable hlater).map viewOf

theorem reconstruct_capture_retried :
    (minted (capture sampleExchange retriedRun)).Nodup ∧
      ∃ result, reconstructInference (records (capture sampleExchange retriedRun)) = .ok result ∧
        result.anomalies = [] := by
  have hminted : minted (capture sampleExchange retriedRun) = [firstAttempt, secondAttempt] := rfl
  have hnodup : (minted (capture sampleExchange retriedRun)).Nodup := by
    decide
  obtain ⟨result, hresult, -, -, -, hanomalies, -⟩ :=
    reconstruct_capture sampleExchange retriedRun hnodup
  exact ⟨hnodup, result, hresult, hanomalies⟩

end AgentArchivist.Protocol.ReconstructionInverts
