import AgentArchivist.Lib.SortedMap
import Mathlib.Data.List.Induction

/-! # Grouping into a sorted map

`group` collects values under their keys, in key order, the values of a key in
the order in which they came. Each group holds all values of its key (`mem_group`), so the
groups are determined by them (`group_eq`). -/
namespace AgentArchivist.Lib.Grouping
open Lib.SortedMap

variable {κ β : Type} (cmp : κ → κ → Ordering)

/-- `map.entry(k).or_default().push(v)`. -/
def push (k : κ) (v : β) : List (κ × List β) → List (κ × List β)
  | [] => [(k, [v])]
  | (k', vs) :: m =>
    match cmp k' k with
    | .lt => (k', vs) :: push k v m
    | .eq => (k', vs ++ [v]) :: m
    | .gt => (k, [v]) :: (k', vs) :: m

def group (entries : List (κ × β)) : List (κ × List β) :=
  entries.foldl (fun m e => push cmp e.1 e.2 m) []

/-- The values that came under a key, in the order in which they came. -/
def values [DecidableEq κ] (k : κ) (entries : List (κ × β)) : List β :=
  (entries.filter (·.1 = k)).map Prod.snd

variable {cmp} {k : κ} {v : β} {vs : List β} {m : List (κ × List β)} {entries : List (κ × β)}

theorem push_eq_upsert : ∀ {m : List (κ × List β)},
    push cmp k v m = upsert cmp k ((lookup cmp k m).getD [] ++ [v]) m
  | [] => rfl
  | (k', vs) :: m => by
    simp only [push, upsert, lookup]
    cases cmp k' k with
    | lt => simp only [push_eq_upsert]
    | eq | gt => rfl

variable [DecidableEq κ]

theorem length_values : (values k entries).length = (entries.map Prod.fst).count k := by
  rw [values, List.length_map, ← List.countP_eq_length_filter, List.count, List.countP_map]
  exact List.countP_congr fun e _ => by simp

variable [Std.TransCmp cmp] [Std.LawfulEqCmp cmp]

theorem group_lookup (entries : List (κ × β)) : Sorted cmp (group cmp entries) ∧ ∀ k,
    lookup cmp k (group cmp entries) =
      if values k entries = [] then none else some (values k entries) := by
  induction entries using List.reverseRecOn with
  | nil => exact ⟨List.Pairwise.nil, fun _ => rfl⟩
  | append_singleton entries e ih =>
    obtain ⟨hs, hlookup⟩ := ih
    have hgroup : group cmp (entries ++ [e]) =
        upsert cmp e.1 (values e.1 entries ++ [e.2]) (group cmp entries) := by
      rw [group, List.foldl_append]
      show push cmp e.1 e.2 (group cmp entries) = _
      rw [push_eq_upsert, hlookup]
      split <;> simp [*]
    rw [hgroup]
    refine ⟨upsert_sorted hs, fun k => ?_⟩
    by_cases hk : k = e.1
    · subst hk
      rw [lookup_upsert_self hs]
      simp [values]
    · have hsame : values k (entries ++ [e]) = values k entries := by simp [values, Ne.symm hk]
      rw [lookup_upsert_of_ne hk hs, hlookup, hsame]

/-- A group holds the values of its key, all of them. -/
theorem mem_group : (k, vs) ∈ group cmp entries ↔ vs ≠ [] ∧ vs = values k entries := by
  obtain ⟨hs, hlookup⟩ := @group_lookup _ _ cmp _ _ _ entries
  rw [← lookup_eq_some hs, hlookup]
  split <;> grind

theorem group_eq (hs : Sorted cmp m)
    (h : ∀ k vs, (k, vs) ∈ m ↔ vs ≠ [] ∧ vs = values k entries) : group cmp entries = m := by
  have hsorted := (@group_lookup _ _ cmp _ _ _ entries).1
  refine eq_of_perm hsorted hs ((List.perm_ext_iff_of_nodup (keys_nodup hsorted).of_map
    (keys_nodup hs).of_map).mpr fun e => ?_)
  exact mem_group.trans (h e.1 e.2).symm

/-- Segments of increasing keys are the groups. -/
theorem group_segments {segments : List (κ × List β)}
    (hs : Sorted cmp segments) (hne : ∀ s ∈ segments, s.2 ≠ []) :
    group cmp (segments.flatMap fun s => s.2.map fun v => (s.1, v)) = segments := by
  have hother : ∀ k (ss : List (κ × List β)), (∀ s ∈ ss, s.1 ≠ k) →
      values k (ss.flatMap fun s => s.2.map fun v => (s.1, v)) = [] := by
    intro k ss h
    rw [values, List.map_eq_nil_iff, List.filter_eq_nil_iff]
    simp only [List.mem_flatMap, List.mem_map]
    rintro _ ⟨s, hs, v, -, rfl⟩
    simpa using h s hs
  have hvalues : ∀ s ∈ segments,
      values s.1 (segments.flatMap fun s => s.2.map fun v => (s.1, v)) = s.2 := by
    intro s hmem
    obtain ⟨before, after, rfl⟩ := List.append_of_mem hmem
    obtain ⟨-, hafter, hbefore⟩ := List.pairwise_append.mp hs
    have hb := hother s.1 before fun t ht => ne_of_lt (hbefore t ht s List.mem_cons_self)
    have ha := hother s.1 after fun t ht => (ne_of_lt ((List.pairwise_cons.mp hafter).1 t ht)).symm
    simp only [values] at hb ha ⊢
    simp [hb, ha, List.filter_map, Function.comp_def]
  refine group_eq hs fun k vs => ⟨fun h => ⟨hne _ h, (hvalues _ h).symm⟩, ?_⟩
  rintro ⟨hvs, rfl⟩
  by_contra hnot
  refine hvs (hother k segments ?_)
  rintro s hmem rfl
  rw [hvalues s hmem] at hnot
  exact hnot hmem

end AgentArchivist.Lib.Grouping
