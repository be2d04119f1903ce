import AgentArchivist.Lib.Fallible
import Mathlib.Data.List.Perm.Basic

/-! # Folds into slots that are written once

A record has a slot and a content, and is folded into a state where its slot is empty or
holds that content already; a record that does not fit is refused. States grow only
(`Laws.run_keeps`), what they hold is what was folded (`Laws.run_holds`), and where all records fold,
their order does not matter (`Laws.perm`). What a store keeps for the slots is fetched slot by slot
(`Laws.fetches`). -/
namespace AgentArchivist.Lib.WriteOnce
open List

variable {σ ρ π κ β ε : Type} [DecidableEq κ]

structure Laws (base : σ → π) (holds : σ → κ → Option β) (Fits : π → ρ → Prop)
    (slot : ρ → κ) (content : ρ → β) (fold : σ → ρ → Except ε σ) : Prop where
  ext : ∀ {s s'}, base s = base s' → (∀ k, holds s k = holds s' k) → s = s'
  folds_iff : ∀ {s r}, (∃ s', fold s r = .ok s') ↔
    Fits (base s) r ∧ ∀ b, holds s (slot r) = some b → b = content r
  base_eq : ∀ {s r s'}, fold s r = .ok s' → base s' = base s
  holds_eq : ∀ {s r s'}, fold s r = .ok s' →
    ∀ k, holds s' k = if k = slot r then some (content r) else holds s k

/-- Folds the records that fold and skips the others. -/
def run (fold : σ → ρ → Except ε σ) (s : σ) : List ρ → σ
  | [] => s
  | r :: records =>
    match fold s r with
    | .ok s' => run fold s' records
    | .error _ => run fold s records

/-- The records that were folded. -/
def folded (fold : σ → ρ → Except ε σ) (s : σ) : List ρ → List ρ
  | [] => []
  | r :: records =>
    match fold s r with
    | .ok s' => r :: folded fold s' records
    | .error _ => folded fold s records

theorem run_append {fold : σ → ρ → Except ε σ} (s : σ) (records more : List ρ) :
    run fold s (records ++ more) = run fold (run fold s records) more := by
  induction records generalizing s with
  | nil => rfl
  | cons r records ih =>
    rw [cons_append, run, run]
    split
    · exact ih _
    · exact ih s

theorem mem_of_mem_folded {fold : σ → ρ → Except ε σ} {r : ρ} {records : List ρ} {s : σ}
    (h : r ∈ folded fold s records) : r ∈ records := by
  induction records generalizing s with
  | nil => exact h
  | cons first records ih =>
    rw [folded] at h
    split at h
    · rcases mem_cons.mp h with rfl | h
      · exact mem_cons_self
      · exact mem_cons_of_mem _ (ih h)
    · exact mem_cons_of_mem _ (ih h)

namespace Laws
variable {base : σ → π} {holds : σ → κ → Option β} {Fits : π → ρ → Prop} {slot : ρ → κ}
  {content : ρ → β} {fold : σ → ρ → Except ε σ} {s s' : σ} {records : List ρ}

theorem foldlM_cons_ok {r} : (r :: records).foldlM fold s = .ok s' ↔
    ∃ s₁, fold s r = .ok s₁ ∧ records.foldlM fold s₁ = .ok s' := by
  rw [foldlM_cons]
  cases fold s r with
  | error e => exact ⟨nofun, nofun⟩
  | ok s₁ => exact ⟨fun h => ⟨s₁, rfl, h⟩, fun ⟨_, heq, h⟩ => by cases heq; exact h⟩

variable (w : Laws base holds Fits slot content fold)
include w

theorem base_run : base (run fold s records) = base s := by
  induction records generalizing s with
  | nil => rfl
  | cons r records ih =>
    rw [run]
    split
    · rename_i s' hfold
      rw [ih, w.base_eq hfold]
    · exact ih

/-- A slot keeps what it holds. -/
theorem holds_step {r} (hfold : fold s r = .ok s') {k b} :
    holds s' k = some b ↔ holds s k = some b ∨ (slot r = k ∧ content r = b) := by
  have hfits := (w.folds_iff.mp ⟨s', hfold⟩).2
  rw [w.holds_eq hfold k]
  by_cases hk : k = slot r
  · subst hk
    rw [if_pos rfl, Option.some.injEq]
    constructor
    · intro heq
      exact .inr ⟨rfl, heq⟩
    · rintro (hb | ⟨-, heq⟩)
      · exact (hfits b hb).symm
      · exact heq
  · rw [if_neg hk]
    exact ⟨.inl, fun h => h.resolve_right fun hr => hk hr.1.symm⟩

theorem run_holds {k b} : holds (run fold s records) k = some b ↔
      holds s k = some b ∨ ∃ r ∈ folded fold s records, slot r = k ∧ content r = b := by
  induction records generalizing s with
  | nil => simp [run, folded]
  | cons r records ih =>
    rw [run, folded]
    split
    · rename_i s' hfold
      rw [ih, w.holds_step hfold, exists_mem_cons_iff, or_assoc]
    · exact ih

theorem run_keeps {k b} (h : holds s k = some b) : holds (run fold s records) k = some b :=
  w.run_holds.mpr (.inl h)

/-- Two records that fold one after the other fold the other way round. -/
theorem swap {a b s₁ s₂} (ha : fold s a = .ok s₁) (hb : fold s₁ b = .ok s₂) :
    ∃ t, fold s b = .ok t ∧ fold t a = .ok s₂ := by
  obtain ⟨hfitsA, hslotA⟩ := w.folds_iff.mp ⟨s₁, ha⟩
  obtain ⟨hfitsB, hslotB⟩ := w.folds_iff.mp ⟨s₂, hb⟩
  rw [w.base_eq ha] at hfitsB
  have hsame : slot a = slot b → content a = content b := by
    intro heq
    refine hslotB _ ?_
    rw [w.holds_eq ha, if_pos heq.symm]
  have hfirst : ∀ c, holds s (slot b) = some c → c = content b := fun c hc =>
    hslotB c ((w.holds_step ha).mpr (.inl hc))
  obtain ⟨t, ht⟩ := w.folds_iff.mpr ⟨hfitsB, hfirst⟩
  have hsecond : ∀ c, holds t (slot a) = some c → c = content a := by
    intro c hc
    rcases (w.holds_step ht).mp hc with hc | ⟨hslot, rfl⟩
    · exact hslotA c hc
    · exact (hsame hslot.symm).symm
  obtain ⟨s₂', hs₂'⟩ := w.folds_iff.mpr ⟨(w.base_eq ht).symm ▸ hfitsA, hsecond⟩
  refine ⟨t, ht, ?_⟩
  have heq : s₂' = s₂ := by
    refine w.ext ?_ fun k => ?_
    · rw [w.base_eq hs₂', w.base_eq ht, w.base_eq hb, w.base_eq ha]
    rw [w.holds_eq hs₂', w.holds_eq ht, w.holds_eq hb, w.holds_eq ha]
    by_cases hka : k = slot a
    · by_cases hkb : k = slot b
      · rw [if_pos hka, if_pos hkb, hsame (hka.symm.trans hkb)]
      · rw [if_pos hka, if_neg hkb, if_pos hka]
    · rw [if_neg hka, if_neg hka]
  rw [hs₂', heq]

/-- Records that all fold do so in every order, into the same state. -/
theorem perm {records'} (hperm : records.Perm records') (h : records.foldlM fold s = .ok s') :
    records'.foldlM fold s = .ok s' := by
  induction hperm generalizing s with
  | nil => exact h
  | cons r _ ih =>
    obtain ⟨s1, hr, hrest⟩ := foldlM_cons_ok.mp h
    exact foldlM_cons_ok.mpr ⟨s1, hr, ih hrest⟩
  | swap a b records =>
    obtain ⟨s1, hb, hrest⟩ := foldlM_cons_ok.mp h
    obtain ⟨s2, ha, hrest⟩ := foldlM_cons_ok.mp hrest
    obtain ⟨t, ha', hb'⟩ := w.swap hb ha
    exact foldlM_cons_ok.mpr ⟨t, ha', foldlM_cons_ok.mpr ⟨s2, hb', hrest⟩⟩
  | trans _ _ ih1 ih2 => exact ih2 (ih1 h)

end Laws

/-! ## What a store keeps for the slots -/

/-- Folds in what is stored for a slot, nothing or a record; there is no state where that does not
pass. -/
def fetch (stored : κ → Option (Option ρ)) (fold : σ → ρ → Except ε σ) (s : σ) (k : κ) : Option σ :=
  (stored k).bind fun found => found.elim (some s) fun r => (fold s r).toOption

/-- What is stored for a slot passes and fits. -/
def InOrder (stored : κ → Option (Option ρ)) (Fits : π → ρ → Prop) (p : π) (k : κ) : Prop :=
  ∃ found, stored k = some found ∧ ∀ r ∈ found, Fits p r

/-- The state holds what is stored for these slots and nothing else. -/
def Reads (stored : κ → Option (Option ρ)) (holds : σ → κ → Option β) (content : ρ → β)
    (slots : List κ) (s : σ) : Prop :=
  ∀ k, holds s k = if k ∈ slots then (stored k).join.map content else none

theorem Reads.congr {stored : κ → Option (Option ρ)} {holds : σ → κ → Option β} {content : ρ → β}
    {slots slots' : List κ} {s s' : σ} {k : κ} (h : Reads stored holds content slots s)
    (h' : Reads stored holds content slots' s') (hk : k ∈ slots ↔ k ∈ slots') :
    holds s k = holds s' k := by
  rw [h k, h' k]
  simp [hk]

namespace Laws
variable {base : σ → π} {holds : σ → κ → Option β} {Fits : π → ρ → Prop} {slot : ρ → κ}
  {content : ρ → β} {fold : σ → ρ → Except ε σ} {s s' : σ} {stored : κ → Option (Option ρ)}
  (w : Laws base holds Fits slot content fold)
  (hslot : ∀ k r, stored k = some (some r) → slot r = k)
include w hslot

theorem fetch_reads {k seen} (h : Reads stored holds content seen s)
    (hfetch : fetch stored fold s k = some s') :
    base s' = base s ∧ Reads stored holds content (k :: seen) s' := by
  obtain ⟨found, hfound, hfold⟩ := Option.bind_eq_some_iff.mp hfetch
  have hcases : base s' = base s ∧
      ∀ k', holds s' k' = if k' = k then (stored k).join.map content else holds s k' := by
    cases found with
    | none =>
      cases hfold
      refine ⟨rfl, fun k' => ?_⟩
      split
      · subst k'
        simp [h k, hfound]
      · rfl
    | some r =>
      have hok := Fallible.toOption_eq_some.mp hfold
      refine ⟨w.base_eq hok, fun k' => ?_⟩
      simp [w.holds_eq hok, hslot k r hfound, hfound]
  refine ⟨hcases.1, fun k' => ?_⟩
  rw [hcases.2, h k']
  by_cases hk : k' = k <;> simp [hk]

theorem fetch_iff {k seen} (h : Reads stored holds content seen s) :
    (∃ s', fetch stored fold s k = some s') ↔ InOrder stored Fits (base s) k := by
  constructor
  · rintro ⟨s', hfetch⟩
    obtain ⟨found, hfound, hfold⟩ := Option.bind_eq_some_iff.mp hfetch
    refine ⟨found, hfound, ?_⟩
    rintro r ⟨⟩
    exact (w.folds_iff.mp ⟨s', Fallible.toOption_eq_some.mp hfold⟩).1
  · rintro ⟨found, hfound, hfits⟩
    cases found with
    | none => exact ⟨s, by simp [fetch, hfound]⟩
    | some r =>
      -- the slot is free, or holds this record already
      have hheld : ∀ b, holds s (slot r) = some b → b = content r := by
        intro b hb
        rw [hslot k r hfound, h k, hfound] at hb
        split at hb <;> cases hb
        rfl
      obtain ⟨s', hfold⟩ := w.folds_iff.mpr ⟨hfits r rfl, hheld⟩
      exact ⟨s', Option.bind_eq_some_iff.mpr ⟨_, hfound, Fallible.toOption_eq_some.mpr hfold⟩⟩

/-- What is fetched slot after slot: the fetches succeed where every slot is sound, and the state then
holds what is stored for the slots. -/
theorem fetches {slots seen : List κ} (h : Reads stored holds content seen s) :
    ((∃ s', slots.foldlM (fetch stored fold) s = some s') ↔
        ∀ k ∈ slots, InOrder stored Fits (base s) k) ∧
      ∀ s', slots.foldlM (fetch stored fold) s = some s' →
        base s' = base s ∧ Reads stored holds content (slots.reverse ++ seen) s' := by
  induction slots generalizing s seen with
  | nil => exact ⟨⟨fun _ => nofun, fun _ => ⟨s, rfl⟩⟩, by rintro s' ⟨⟩; exact ⟨rfl, h⟩⟩
  | cons k slots ih =>
    have hcons : ∀ {s'}, (k :: slots).foldlM (fetch stored fold) s = some s' ↔
        ∃ s₁, fetch stored fold s k = some s₁ ∧ slots.foldlM (fetch stored fold) s₁ = some s' :=
      Option.bind_eq_some_iff
    rw [forall_mem_cons, ← w.fetch_iff hslot h]
    simp only [hcons]
    constructor
    · constructor
      · rintro ⟨s', s₁, hfirst, hrest⟩
        obtain ⟨hbase, hreads⟩ := w.fetch_reads hslot h hfirst
        exact ⟨⟨s₁, hfirst⟩, hbase ▸ (ih hreads).1.mp ⟨s', hrest⟩⟩
      · rintro ⟨⟨s₁, hfirst⟩, hrest⟩
        obtain ⟨hbase, hreads⟩ := w.fetch_reads hslot h hfirst
        obtain ⟨s', hs'⟩ := (ih hreads).1.mpr (hbase ▸ hrest)
        exact ⟨s', s₁, hfirst, hs'⟩
    · rintro s' ⟨s₁, hfirst, hrest⟩
      obtain ⟨hbase, hreads⟩ := w.fetch_reads hslot h hfirst
      obtain ⟨hbase', hreads'⟩ := (ih hreads).2 s' hrest
      refine ⟨hbase'.trans hbase, ?_⟩
      rwa [reverse_cons, append_assoc]

end Laws
end AgentArchivist.Lib.WriteOnce
