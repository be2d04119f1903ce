import AgentArchivist.Lib.SortedMap

/-! # Entries that may be absent

A map written from a list of known keys, each with a value or without one, and from
further entries under other keys. Such a map holds exactly what it was written from
(`holds_iff`): the known keys are found with their values, and what else it holds are
the further entries. -/
namespace AgentArchivist.Lib.OptionalEntries
open Lib.SortedMap

variable {κ β : Type} {known : List (κ × Option β)} {others m : List (κ × β)}

/-- The known entries that are there. -/
def present (known : List (κ × Option β)) : List (κ × β) :=
  known.filterMap fun e => e.2.map fun v => (e.1, v)

theorem mem_present {k v} : (k, v) ∈ present known ↔ (k, some v) ∈ known := by
  unfold present
  rw [List.mem_filterMap]
  constructor
  · intro ⟨e, he, hv⟩
    obtain ⟨v', hv', heq⟩ := Option.map_eq_some_iff.mp hv
    cases heq
    rw [← hv']
    exact he
  · intro he
    exact ⟨_, he, rfl⟩

theorem key_of_mem_present {e} (h : e ∈ present known) : e.1 ∈ known.map Prod.fst :=
  List.mem_map.mpr ⟨_, mem_present.mp h, rfl⟩

theorem present_pairwise (h : (known.map Prod.fst).Nodup) :
    (present known).Pairwise fun a b => a.1 ≠ b.1 := by
  rw [List.Nodup, List.pairwise_map] at h
  refine List.Pairwise.filterMap _ ?_ h
  intro a b hab e he e' he'
  obtain ⟨v, -, rfl⟩ := Option.map_eq_some_iff.mp he
  obtain ⟨v', -, rfl⟩ := Option.map_eq_some_iff.mp he'
  exact hab

/-- A key is known with one value. -/
theorem known_unique (h : (known.map Prod.fst).Nodup) {k v w} (hv : (k, v) ∈ known)
    (hw : (k, w) ∈ known) : v = w :=
  congrArg Prod.snd (List.inj_on_of_nodup_map h hv hw rfl)

/-- Where the further keys are distinct and not known, all keys are distinct. -/
theorem keys_distinct (h : (known.map Prod.fst).Nodup) (ho : (others.map Prod.fst).Nodup)
    (hdisjoint : ∀ e ∈ others, e.1 ∉ known.map Prod.fst) :
    ((present known ++ others).map Prod.fst).Nodup := by
  rw [List.map_append, List.nodup_append']
  refine ⟨List.pairwise_map.mpr (present_pairwise h), ho, ?_⟩
  intro k hp hk
  obtain ⟨e, he, rfl⟩ := List.mem_map.mp hp
  obtain ⟨e', he', heq⟩ := List.mem_map.mp hk
  exact hdisjoint e' he' (heq ▸ key_of_mem_present he)

variable [DecidableEq κ] {cmp : κ → κ → Ordering} [Std.TransCmp cmp] [Std.LawfulEqCmp cmp]

/-- The entries under keys that are not known. -/
def rest (keys : List κ) (m : List (κ × β)) : List (κ × β) := m.filter fun e => !keys.contains e.1

theorem mem_rest {keys e} : e ∈ rest keys m ↔ e ∈ m ∧ e.1 ∉ keys := by
  simp [rest]

/-- The map holds the known entries, and the others are what else it holds. -/
structure Holds (cmp : κ → κ → Ordering) (known : List (κ × Option β)) (others m : List (κ × β)) :
    Prop where
  values : ∀ e ∈ known, lookup cmp e.1 m = e.2
  others : others = rest (known.map Prod.fst) m

/-- The names and the map determine the entries. -/
theorem Holds.known_eq (h : Holds cmp known others m) :
    known = (known.map Prod.fst).map fun k => (k, lookup cmp k m) := by
  rw [List.map_map]
  refine (List.map_id known).symm.trans (List.map_congr_left fun e he => ?_)
  exact Prod.ext rfl (h.values e he).symm

/-- The entries written are the entries held. -/
theorem Holds.perm (h : Holds cmp known others m) (hn : (known.map Prod.fst).Nodup)
    (hs : Sorted cmp m) : (present known ++ others).Perm m := by
  let isKnown : κ × β → Bool := fun e => (known.map Prod.fst).contains e.1
  have hpresent : (present known).Perm (m.filter isKnown) := by
    have hd : (present known).Nodup :=
      (present_pairwise hn).imp fun hne heq => hne (congrArg Prod.fst heq)
    refine (List.perm_ext_iff_of_nodup hd (((keys_nodup hs).of_map _).filter _)).mpr ?_
    intro (k, v)
    rw [mem_present, List.mem_filter, List.contains_iff_mem, ← lookup_eq_some hs]
    constructor
    · intro he
      exact ⟨h.values _ he, List.mem_map_of_mem (f := Prod.fst) he⟩
    · intro ⟨hget, hk⟩
      obtain ⟨e, he, rfl⟩ := List.mem_map.mp hk
      have hv : e.2 = some v := (h.values e he).symm.trans hget
      rw [← hv]
      exact he
  rw [h.others]
  exact (hpresent.append_right _).trans (List.filter_append_perm isKnown m)

theorem holds_of_perm (hn : (known.map Prod.fst).Nodup) (hs : Sorted cmp m)
    (hsorted : Sorted cmp others) (hdisjoint : ∀ e ∈ others, e.1 ∉ known.map Prod.fst)
    (hperm : m.Perm (present known ++ others)) : Holds cmp known others m := by
  refine ⟨?_, ?_⟩
  · intro (k, w) he
    refine Option.ext fun v => ?_
    rw [lookup_eq_some hs, hperm.mem_iff, List.mem_append, mem_present]
    constructor
    · intro hv
      rcases hv with hknown | hother
      · exact known_unique hn he hknown
      · exact absurd (List.mem_map_of_mem (f := Prod.fst) he) (hdisjoint _ hother)
    · intro hw
      exact .inl (hw ▸ he)
  · have hrest : (rest (known.map Prod.fst) m).Perm others := by
      refine (hperm.filter _).trans ?_
      have hpresent : (present known).filter (fun e => !(known.map Prod.fst).contains e.1) = [] := by
        rw [List.filter_eq_nil_iff]
        intro e he
        simpa using key_of_mem_present he
      have hothers : others.filter (fun e => !(known.map Prod.fst).contains e.1) = others := by
        rw [List.filter_eq_self]
        intro e he
        simpa using hdisjoint e he
      rw [List.filter_append, hpresent, hothers, List.nil_append]
    exact eq_of_perm hsorted (List.Pairwise.filter _ hs) hrest.symm

/-- A map holds what it was written from. -/
theorem holds_iff (hn : (known.map Prod.fst).Nodup) (hs : Sorted cmp m) :
    Holds cmp known others m ↔
      Sorted cmp others ∧ (∀ e ∈ others, e.1 ∉ known.map Prod.fst) ∧
        (present known ++ others).foldl (fun m e => upsert cmp e.1 e.2 m) [] = m := by
  constructor
  · intro h
    refine ⟨?_, ?_, foldl_upsert_eq hs (h.perm hn hs)⟩
    · rw [h.others]
      exact List.Pairwise.filter _ hs
    · intro e he
      rw [h.others] at he
      exact (mem_rest.mp he).2
  · intro ⟨hsorted, hdisjoint, hwritten⟩
    have hperm := (foldl_upsert_nil cmp (keys_distinct hn (keys_nodup hsorted) hdisjoint)).2
    rw [hwritten] at hperm
    exact holds_of_perm hn hs hsorted hdisjoint hperm

end AgentArchivist.Lib.OptionalEntries
