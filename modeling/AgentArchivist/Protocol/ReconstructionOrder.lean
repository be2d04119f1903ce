import AgentArchivist.Protocol.AttemptSegments

/-! # Reconstruction ignores how attempts interleave

Every pass over the artifacts of an inference reads the groups, or asks whether a member is
unanimous; neither depends on how the artifacts of different attempts are interleaved. -/
namespace AgentArchivist.Protocol.ReconstructionOrder
open Lib List
open Grouping SortedMap AttemptBlocks AttemptReconstruction AttemptSegments InferenceArtifact
open Vocabulary

def keyOf (a : InferenceArtifact) : UInt64 × ProviderAttemptId := (a.attemptOrdinal, a.providerAttemptId)

def viewKey (view : AttemptReconstruction) : UInt64 × ProviderAttemptId :=
  (view.attemptOrdinal, view.providerAttemptId)

/-- A permutation that keeps the artifacts of every attempt in order. -/
structure Interleaves (artifacts artifacts' : List InferenceArtifact) : Prop where
  perm : artifacts.Perm artifacts'
  order : ∀ k, artifacts.filter (keyOf · = k) = artifacts'.filter (keyOf · = k)

variable {artifacts artifacts' : List InferenceArtifact} {first first' : InferenceArtifact}

theorem mem_groups {k members} : (k, members) ∈ groups artifacts ↔
    members ≠ [] ∧ members = artifacts.filter (keyOf · = k) := by
  have hvalues : values k (artifacts.map fun a => ((a.attemptOrdinal, a.providerAttemptId), a)) =
      artifacts.filter (keyOf · = k) := by
    rw [values, filter_map, map_map]
    exact map_id _
  rw [groups, mem_group, hvalues]

theorem Interleaves.groups_eq (h : Interleaves artifacts artifacts') :
    groups artifacts = groups artifacts' := by
  refine group_eq (group_lookup _).1 fun k members => ?_
  rw [← @mem_group _ _ cmpKey]
  exact mem_groups.trans ((h.order k).symm ▸ mem_groups.symm)

/-! ## Unanimous members -/

theorem Interleaves.all_eq {α : Type} [DecidableEq α] (h : Interleaves artifacts artifacts')
    (hf : first ∈ artifacts) (hf' : first' ∈ artifacts') (member : InferenceArtifact → α) :
    (artifacts.all fun a => member a = member first) =
      artifacts'.all fun a => member a = member first' := by
  have hside : ∀ {a b : List InferenceArtifact} {x y}, a.Perm b → y ∈ b →
      (∀ r ∈ a, member r = member x) → ∀ r ∈ b, member r = member y := by
    intro a b x y hp hy hall r hr
    rw [hall r (hp.mem_iff.mpr hr), hall y (hp.mem_iff.mpr hy)]
  rw [Bool.eq_iff_iff]
  simp only [all_eq_true, decide_eq_true_eq]
  exact ⟨hside h.perm hf', hside h.perm.symm hf⟩

theorem Interleaves.reconstruct_eq (h : Interleaves artifacts artifacts') :
    reconstructInference artifacts = reconstructInference artifacts' := by
  rcases artifacts with _ | ⟨first, rest⟩
  · rw [h.perm.nil_eq]
  obtain ⟨first', rest', rfl⟩ : ∃ first' rest', artifacts' = first' :: rest' := by
    refine exists_cons_of_ne_nil fun hnil => ?_
    subst hnil
    cases h.perm.eq_nil
  have hf := @mem_cons_self _ first rest
  have hf' := @mem_cons_self _ first' rest'
  have hsame : ∀ {α : Type} [DecidableEq α] (member : InferenceArtifact → α),
      ((first :: rest).all fun a => member a = member first) = true → member first' = member first :=
    fun member hall => of_decide_eq_true (all_eq_true.mp hall first' (h.perm.mem_iff.mpr hf'))
  have hany : ∀ {first : InferenceArtifact} {rest : List InferenceArtifact},
      ((first :: rest).any fun a => a.inferenceRequestId ≠ first.inferenceRequestId) =
        !(first :: rest).all fun a => a.inferenceRequestId = first.inferenceRequestId := by
    simp [not_all_eq_any_not]
  simp only [reconstructInference, partitionAnomaly, head?_cons, hany, h.groups_eq,
    ← h.all_eq hf hf' (·.inferenceRequestId), ← h.all_eq hf hf' (·.traceId),
    ← h.all_eq hf hf' (·.tenantId), ← h.all_eq hf hf' (·.originClientId)]
  split
  · rfl
  rename_i hone
  rw [hsame (·.inferenceRequestId) (by simpa using hone)]
  split
  · rename_i htrace
    rw [hsame (·.traceId) htrace]
  · rfl

/-! ## Attempts -/

theorem foldl_member_kept (members : List InferenceArtifact) (f : Fold) :
    viewKey (members.foldl Fold.member f).view = viewKey f.view ∧
      (members.foldl Fold.member f).view.artifacts = f.view.artifacts := by
  induction members generalizing f with
  | nil => exact ⟨rfl, rfl⟩
  | cons member members ih =>
    have hmember : viewKey (f.member member).view = viewKey f.view ∧
        (f.member member).view.artifacts = f.view.artifacts := by
      unfold Fold.member
      cases member.event <;> dsimp only <;> try split
      all_goals exact ⟨rfl, rfl⟩
    exact ⟨(ih _).1.trans hmember.1, (ih _).2.trans hmember.2⟩

theorem attempts_eq {result} (h : reconstructInference artifacts = .ok result) :
    result.attempts = (groups artifacts).map fun g => (attemptView g.1 g.2).1 := by
  unfold reconstructInference at h
  split at h
  · rename_i hnone
    cases h
    rw [head?_eq_none_iff.mp hnone]
    rfl
  · split at h
    · cases h
    · cases h
      exact map_map ..

/-- How the artifacts of different attempts are interleaved is not seen, and every artifact is in
the list of the one attempt of its ordinal and its identity, in input order. -/
theorem reconstruction_ignores_interleaving :
    (∀ artifacts artifacts', Interleaves artifacts artifacts' →
      reconstructInference artifacts = reconstructInference artifacts') ∧
    ∀ artifacts result, reconstructInference artifacts = .ok result →
      (result.attempts.map viewKey).Nodup ∧
      (∀ view ∈ result.attempts, view.artifacts = artifacts.filter (keyOf · = viewKey view)) ∧
      ∀ a ∈ artifacts, ∃! view, view ∈ result.attempts ∧ a ∈ view.artifacts := by
  refine ⟨fun _ _ h => h.reconstruct_eq, fun artifacts result h => ?_⟩
  have hview : ∀ g : Segment,
      viewKey (attemptView g.1 g.2).1 = g.1 ∧ (attemptView g.1 g.2).1.artifacts = g.2 :=
    fun g => foldl_member_kept g.2 ⟨emptyView g.1 g.2, [], []⟩
  have hnodup : (result.attempts.map viewKey).Nodup := by
    rw [attempts_eq h, map_map]
    have hkeys : (viewKey ∘ fun g => (attemptView g.1 g.2).1) = Prod.fst := funext fun g => (hview g).1
    rw [hkeys]
    exact keys_nodup (group_lookup _).1
  have hartifacts : ∀ view ∈ result.attempts,
      view.artifacts = artifacts.filter (keyOf · = viewKey view) := by
    intro view hmem
    rw [attempts_eq h] at hmem
    obtain ⟨g, hg, rfl⟩ := mem_map.mp hmem
    rw [(hview g).1, (hview g).2]
    exact (mem_groups.mp hg).2
  refine ⟨hnodup, hartifacts, fun a ha => ?_⟩
  have hin : a ∈ artifacts.filter (keyOf · = keyOf a) := mem_filter.mpr ⟨ha, by simp⟩
  have hgroup : (keyOf a, artifacts.filter (keyOf · = keyOf a)) ∈ groups artifacts :=
    mem_groups.mpr ⟨ne_nil_of_mem hin, rfl⟩
  refine ⟨_, ⟨attempts_eq h ▸ mem_map_of_mem hgroup, ?_⟩, ?_⟩
  · rwa [(hview _).2]
  rintro view ⟨hmem, hmine⟩
  refine inj_on_of_nodup_map hnodup hmem (attempts_eq h ▸ mem_map_of_mem hgroup) ?_
  rw [hartifacts view hmem] at hmine
  rw [(hview _).1]
  exact (of_decide_eq_true (mem_filter.mp hmine).2).symm

/-- The request of an attempt. -/
def requested (id : ProviderAttemptId) (ordinal : UInt64) : InferenceArtifact where
  tenantId := sampleExchange.tenantId
  originClientId := sampleExchange.originClientId
  traceId := sampleExchange.traceId
  inferenceRequestId := sampleExchange.inferenceRequestId
  providerAttemptId := id
  attemptOrdinal := ordinal
  captureTime := none
  payload := none
  metadata := none
  event := .providerRequest
  unknownFields := []

theorem reconstruction_ignores_interleaving_two :
    reconstructInference [requested firstAttempt 0, requested secondAttempt 1] =
      reconstructInference [requested secondAttempt 1, requested firstAttempt 0] := by
  refine reconstruction_ignores_interleaving.1 _ _ ⟨List.Perm.swap .., fun k => ?_⟩
  have hne : keyOf (requested firstAttempt 0) ≠ keyOf (requested secondAttempt 1) := by decide
  simp only [filter_cons, filter_nil]
  split <;> split <;> simp_all

end AgentArchivist.Protocol.ReconstructionOrder
