import Mathlib.Data.Finset.Card

/-! # Successions of keys

From a key, a step that is admitted there leads to its target. A sequence of steps from
a start leads through distinct keys; where a key admits one step at most, the
sequences from one start are the beginnings of one another (`Sequence.comparable`),
and where only finitely many keys admit one they are no longer than that
(`Sequence.length_le`). -/
namespace AgentArchivist.Lib.Succession
open List

variable {κ α : Type} (start : κ) (target : α → κ) (admitted : κ → α → Prop)

/-- The keys that the steps lead through. -/
def keys (path : List α) : List κ := start :: path.map target

/-- The key that the steps lead to. -/
def last (path : List α) : κ := (path.getLast?.map target).getD start

structure Sequence (path : List α) : Prop where
  steps : ∀ before a after, path = before ++ a :: after → admitted (last start target before) a
  distinct : (keys start target path).Nodup

variable {start target admitted} {path : List α} {a : α}

@[simp] theorem last_nil : last start target [] = start := rfl

@[simp] theorem last_snoc : last start target (path ++ [a]) = target a := by
  simp [last]

theorem keys_snoc : keys start target (path ++ [a]) = keys start target path ++ [target a] := by
  simp [keys]

theorem last_mem_keys : last start target path ∈ keys start target path := by
  induction path using List.reverseRecOn with
  | nil => exact mem_cons_self
  | append_singleton path a _ =>
    rw [last_snoc, keys_snoc]
    exact mem_append_right _ mem_cons_self

theorem sequence_nil : Sequence start target admitted [] where
  steps before a after h := absurd h.symm (by simp)
  distinct := nodup_singleton start

theorem sequence_snoc : Sequence start target admitted (path ++ [a]) ↔
    Sequence start target admitted path ∧ admitted (last start target path) a ∧
      target a ∉ keys start target path := by
  constructor
  · intro h
    have hd := h.distinct
    rw [keys_snoc] at hd
    have hfresh : target a ∉ keys start target path := fun hmem =>
      disjoint_of_nodup_append hd hmem mem_cons_self
    refine ⟨⟨fun before b after hpath => ?_, hd.of_append_left⟩, h.steps path a [] rfl, hfresh⟩
    exact h.steps before b (after ++ [a]) (by simp [hpath])
  · intro ⟨h, ha, hfresh⟩
    refine ⟨fun before b after hpath => ?_, ?_⟩
    · -- the step is the new one, or stands among those before it
      rcases eq_nil_or_concat after with rfl | ⟨after, c, rfl⟩
      · obtain ⟨rfl, hb⟩ := append_inj' hpath rfl
        cases hb
        exact ha
      · have hpath' : path ++ [a] = (before ++ b :: after) ++ [c] := by simpa using hpath
        exact h.steps before b after (append_inj' hpath' rfl).1
    · rw [keys_snoc]
      refine List.Nodup.append h.distinct (nodup_singleton _) ?_
      intro k hk hk'
      rw [mem_singleton.mp hk'] at hk
      exact hfresh hk

theorem Sequence.of_snoc (h : Sequence start target admitted (path ++ [a])) :
    Sequence start target admitted path ∧ admitted (last start target path) a ∧
      target a ∉ keys start target path := sequence_snoc.mp h

theorem Sequence.of_append {rest} (h : Sequence start target admitted (path ++ rest)) :
    Sequence start target admitted path := by
  induction rest using List.reverseRecOn with
  | nil => simpa using h
  | append_singleton rest a ih =>
    rw [← append_assoc] at h
    exact ih h.of_snoc.1

/-- Where every step stays admitted, so does the sequence. -/
theorem Sequence.mono {admitted' : κ → α → Prop} (hle : ∀ k a, admitted k a → admitted' k a)
    (h : Sequence start target admitted path) : Sequence start target admitted' path :=
  ⟨fun before a after hpath => hle _ a (h.steps before a after hpath), h.distinct⟩

/-- A sequence that goes on does not come back. -/
theorem Sequence.last_ne {rest} (h : Sequence start target admitted (path ++ a :: rest)) :
    last start target path ≠ last start target (path ++ a :: rest) := by
  have hd : (keys start target path ++ (a :: rest).map target).Nodup := by
    simpa [keys] using h.distinct
  have hmem : last start target (path ++ a :: rest) ∈ (a :: rest).map target := by
    rw [last, getLast?_append_of_ne_nil _ (cons_ne_nil a rest),
      getLast?_eq_some_getLast (cons_ne_nil a rest)]
    exact mem_map_of_mem (getLast_mem _)
  intro heq
  exact disjoint_of_nodup_append hd last_mem_keys (heq ▸ hmem)

/-- Where a key admits one step, two sequences go the same way. -/
theorem Sequence.comparable (hone : ∀ k a b, admitted k a → admitted k b → a = b) {path path'}
    (h : Sequence start target admitted path) (h' : Sequence start target admitted path') :
    path <+: path' ∨ path' <+: path := by
  induction path using List.reverseRecOn with
  | nil => exact .inl List.nil_prefix
  | append_singleton path a ih =>
    obtain ⟨hpath, ha, -⟩ := h.of_snoc
    rcases ih hpath with ⟨rest, hrest⟩ | hle
    · cases rest with
      | nil => exact .inr ⟨[a], by rw [← hrest, append_nil]⟩
      | cons b rest =>
        obtain rfl := hone _ _ _ ha (h'.steps path b rest hrest.symm)
        exact .inl ⟨rest, by rw [← hrest, append_assoc, singleton_append]⟩
    · exact .inr (hle.trans (prefix_append _ _))

/-- The keys before the last admit a step. -/
theorem Sequence.admits (h : Sequence start target admitted path) {k}
    (hk : k ∈ keys start target path) : k = last start target path ∨ ∃ b, admitted k b := by
  induction path using List.reverseRecOn with
  | nil => exact .inl (mem_singleton.mp hk)
  | append_singleton path a ih =>
    obtain ⟨hpath, ha, -⟩ := h.of_snoc
    rw [keys_snoc] at hk
    rcases mem_append.mp hk with hk | hk
    · rcases ih hpath hk with rfl | hb
      · exact .inr ⟨a, ha⟩
      · exact .inr hb
    · rw [last_snoc]
      exact .inl (mem_singleton.mp hk)

/-- Where only stored keys admit a step, a sequence has no more steps than there are. -/
theorem Sequence.length_le [DecidableEq κ] {stored : Finset κ}
    (hstored : ∀ k a, admitted k a → k ∈ stored) (h : Sequence start target admitted path) :
    path.length ≤ stored.card := by
  induction path using List.reverseRecOn with
  | nil => exact Nat.zero_le _
  | append_singleton path a _ =>
    obtain ⟨hpath, ha, -⟩ := h.of_snoc
    have hsub : (keys start target path).toFinset ⊆ stored := by
      intro k hk
      rcases hpath.admits (mem_toFinset.mp hk) with rfl | ⟨b, hb⟩
      · exact hstored _ a ha
      · exact hstored k b hb
    have hcard := Finset.card_le_card hsub
    rw [toFinset_card_of_nodup hpath.distinct] at hcard
    simpa [keys] using hcard

end AgentArchivist.Lib.Succession
