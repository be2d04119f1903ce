import AgentArchivist.Lib.Sorting
import Mathlib.Data.List.Pairwise
import Mathlib.Data.List.Nodup

/-! # Association lists sorted by a comparison

A map kept as a list of entries in strictly increasing key order, for any
lawful comparison. A sorted list is determined by its entries
(`eq_of_perm`), so every operation is described by the entries it leaves. -/
namespace AgentArchivist.Lib.SortedMap

variable {κ β : Type} (cmp : κ → κ → Ordering)

/-- Strictly increasing keys: sorted, and no key twice. -/
def Sorted (m : List (κ × β)) : Prop := m.Pairwise fun a b => cmp a.1 b.1 = .lt

def lookup (k : κ) : List (κ × β) → Option β
  | [] => none
  | (k', v) :: m =>
    match cmp k' k with
    | .lt => lookup k m
    | .eq => some v
    | .gt => none

/-- Insert at the key's place, unless the key is there. -/
def insertNew (k : κ) (v : β) : List (κ × β) → Option (List (κ × β))
  | [] => some [(k, v)]
  | (k', v') :: m =>
    match cmp k' k with
    | .lt => (insertNew k v m).map ((k', v') :: ·)
    | .eq => none
    | .gt => some ((k, v) :: (k', v') :: m)

/-- Insert at the key's place, or replace its value there. -/
def upsert (k : κ) (v : β) : List (κ × β) → List (κ × β)
  | [] => [(k, v)]
  | (k', v') :: m =>
    match cmp k' k with
    | .lt => (k', v') :: upsert k v m
    | .eq => (k', v) :: m
    | .gt => (k, v) :: (k', v') :: m

/-- The entries of a list in key order. -/
def sort (m : List (κ × β)) : List (κ × β) := m.mergeSort fun a b => cmp a.1 b.1 != .gt

variable {cmp}

theorem eq_of_cmp [Std.LawfulEqCmp cmp] {a b} (h : cmp a b = .eq) : a = b :=
  Std.LawfulEqCmp.eq_of_compare h

theorem ne_of_lt [Std.LawfulEqCmp cmp] {a b} (h : cmp a b = .lt) : a ≠ b := by
  intro he
  have hself : cmp b b = .eq := Std.ReflCmp.compare_self
  rw [he, hself] at h
  cases h

variable {m : List (κ × β)}

theorem keys_nodup [Std.LawfulEqCmp cmp] (h : Sorted cmp m) : (m.map Prod.fst).Nodup := by
  rw [List.Nodup, List.pairwise_map]
  exact h.imp ne_of_lt

theorem sort_perm (m : List (κ × β)) : (sort cmp m).Perm m := List.mergeSort_perm ..

variable [Std.TransCmp cmp]

theorem lt_of_gt {a b} (h : cmp a b = .gt) : cmp b a = .lt := by
  have hswap : cmp b a = (cmp a b).swap := Std.OrientedCmp.eq_swap
  rw [hswap, h]
  rfl

theorem lt_trans {a b c} (h : cmp a b = .lt) (h' : cmp b c = .lt) : cmp a c = .lt :=
  Std.TransCmp.lt_trans h h'

variable {v : β} {k : κ}

variable [Std.LawfulEqCmp cmp]

/-- A sorted list is determined by its entries. -/
theorem eq_of_perm {a b : List (κ × β)} (ha : Sorted cmp a) (hb : Sorted cmp b) (h : a.Perm b) :
    a = b := by
  refine List.Perm.eq_of_pairwise ?_ ha hb h
  intro x y _ _ hxy hyx
  exact absurd rfl (ne_of_lt (lt_trans hxy hyx))

/-- What replacing leaves: the new entry and those of other keys, sorted. -/
theorem upsert_spec : ∀ {m : List (κ × β)}, Sorted cmp m → Sorted cmp (upsert cmp k v m) ∧
    ∀ e, e ∈ upsert cmp k v m ↔ e = (k, v) ∨ e ∈ m ∧ e.1 ≠ k
  | [], _ => ⟨List.pairwise_singleton .., by simp [upsert]⟩
  | (k', v') :: m, hs => by
    obtain ⟨hhead, htail⟩ := List.pairwise_cons.mp hs
    simp only [upsert]
    cases hc : cmp k' k with
    | lt =>
      obtain ⟨hsorted, hmem⟩ := upsert_spec htail
      refine ⟨List.pairwise_cons.mpr ⟨fun e he => ?_, hsorted⟩, fun e => ?_⟩
      · rcases (hmem e).mp he with rfl | ⟨he, -⟩
        · exact hc
        · exact hhead e he
      · have hne : e = (k', v') → e.1 ≠ k := fun he => he ▸ ne_of_lt hc
        rw [List.mem_cons, hmem, List.mem_cons]
        grind
    | eq =>
      obtain rfl := eq_of_cmp hc
      have hne : ∀ e ∈ m, e.1 ≠ k' := fun e he => (ne_of_lt (hhead e he)).symm
      refine ⟨List.pairwise_cons.mpr ⟨hhead, htail⟩, fun e => ?_⟩
      rw [List.mem_cons, List.mem_cons]
      grind
    | gt =>
      have hlt : ∀ e ∈ (k', v') :: m, cmp k e.1 = .lt :=
        List.forall_mem_cons.mpr ⟨lt_of_gt hc, fun e he => lt_trans (lt_of_gt hc) (hhead e he)⟩
      refine ⟨List.pairwise_cons.mpr ⟨hlt, hs⟩, fun e => ?_⟩
      rw [List.mem_cons]
      exact or_congr_right ⟨fun he => ⟨he, (ne_of_lt (hlt e he)).symm⟩, And.left⟩

theorem upsert_sorted (hs : Sorted cmp m) : Sorted cmp (upsert cmp k v m) := (upsert_spec hs).1

/-- A new key is added. -/
theorem upsert_perm (hs : Sorted cmp m) (hk : k ∉ m.map Prod.fst) :
    (upsert cmp k v m).Perm ((k, v) :: m) := by
  have hkeys : (((k, v) :: m).map Prod.fst).Nodup := List.nodup_cons.mpr ⟨hk, keys_nodup hs⟩
  refine (List.perm_ext_iff_of_nodup ((keys_nodup (upsert_sorted hs)).of_map _)
    (hkeys.of_map _)).mpr fun e => ?_
  rw [(upsert_spec hs).2, List.mem_cons]
  exact or_congr_right (and_iff_left_of_imp fun he hek => hk (hek ▸ List.mem_map_of_mem he))

/-- Inserting is replacing, where the key is new. -/
theorem insertNew_eq_some : ∀ {m m' : List (κ × β)}, Sorted cmp m →
    (insertNew cmp k v m = some m' ↔ k ∉ m.map Prod.fst ∧ upsert cmp k v m = m')
  | [], m', _ => by simp [insertNew, upsert]
  | (k', v') :: m, m', hs => by
    obtain ⟨hhead, htail⟩ := List.pairwise_cons.mp hs
    simp only [insertNew, upsert, List.map_cons, List.mem_cons]
    cases hc : cmp k' k with
    | lt =>
      have hne : k ≠ k' := (ne_of_lt hc).symm
      simp only [Option.map_eq_some_iff, insertNew_eq_some htail]
      grind
    | eq => simp [eq_of_cmp hc]
    | gt =>
      have hne : k ≠ k' := ne_of_lt (lt_of_gt hc)
      have hnot : k ∉ m.map Prod.fst := fun hk => by
        obtain ⟨e, he, rfl⟩ := List.mem_map.mp hk
        exact ne_of_lt (lt_trans (lt_of_gt hc) (hhead e he)) rfl
      simp [hne, hnot]

/-- Replacing entries with new and distinct keys adds them. -/
theorem foldl_upsert : ∀ {entries m : List (κ × β)}, Sorted cmp m →
    ((entries ++ m).map Prod.fst).Nodup →
    Sorted cmp (entries.foldl (fun m e => upsert cmp e.1 e.2 m) m) ∧
      (entries.foldl (fun m e => upsert cmp e.1 e.2 m) m).Perm (entries ++ m)
  | [], m, hs, _ => ⟨hs, List.Perm.refl m⟩
  | (k, v) :: entries, m, hs, hn => by
    have hk : k ∉ m.map Prod.fst := fun hk => by
      simp only [List.cons_append, List.map_cons, List.nodup_cons, List.map_append] at hn
      exact hn.1 (List.mem_append_right _ hk)
    have hp : (entries ++ upsert cmp k v m).Perm ((k, v) :: entries ++ m) :=
      ((upsert_perm hs hk).append_left entries).trans List.perm_middle
    obtain ⟨hsorted, hperm⟩ := foldl_upsert (upsert_sorted hs) ((hp.map Prod.fst).nodup_iff.mpr hn)
    exact ⟨hsorted, hperm.trans hp⟩

/-- None is refused where the keys are new and distinct. -/
theorem foldlM_insertNew : ∀ {entries m m' : List (κ × β)}, Sorted cmp m →
    (entries.foldlM (fun m e => insertNew cmp e.1 e.2 m) m = some m' ↔
      ((entries ++ m).map Prod.fst).Nodup ∧ entries.foldl (fun m e => upsert cmp e.1 e.2 m) m = m')
  | [], m, m', hs => by simp [keys_nodup hs]
  | (k, v) :: entries, m, m', hs => by
    rw [List.foldlM_cons, List.foldl_cons]
    refine Option.bind_eq_some_iff.trans ?_
    simp only [insertNew_eq_some hs, and_assoc, exists_and_left, exists_eq_left',
      foldlM_insertNew (upsert_sorted hs)]
    by_cases hk : k ∈ m.map Prod.fst
    · simp [hk]
    · have hp : (entries ++ upsert cmp k v m).Perm ((k, v) :: entries ++ m) :=
        ((upsert_perm hs hk).append_left entries).trans List.perm_middle
      rw [(hp.map Prod.fst).nodup_iff]
      simp [hk]

variable (cmp) in
/-- Entries with distinct keys, replaced one by one from the start, are sorted. -/
theorem foldl_upsert_nil {entries : List (κ × β)} (h : (entries.map Prod.fst).Nodup) :
    Sorted cmp (entries.foldl (fun m e => upsert cmp e.1 e.2 m) []) ∧
      (entries.foldl (fun m e => upsert cmp e.1 e.2 m) []).Perm entries := by
  have hnil : Sorted cmp ([] : List (κ × β)) := List.Pairwise.nil
  have hbuilt := foldl_upsert hnil (by rwa [List.append_nil])
  rwa [List.append_nil] at hbuilt

/-- Replacing the entries of a sorted list one by one, in any order, builds it. -/
theorem foldl_upsert_eq {entries m : List (κ × β)} (hs : Sorted cmp m) (h : entries.Perm m) :
    entries.foldl (fun m e => upsert cmp e.1 e.2 m) [] = m := by
  obtain ⟨hsorted, hperm⟩ := foldl_upsert_nil cmp ((h.map Prod.fst).nodup_iff.mpr (keys_nodup hs))
  exact eq_of_perm hsorted hs (hperm.trans h)

theorem lookup_eq_some : ∀ {m : List (κ × β)}, Sorted cmp m → (lookup cmp k m = some v ↔ (k, v) ∈ m)
  | [], _ => by simp [lookup]
  | (k', v') :: m, hs => by
    obtain ⟨hhead, htail⟩ := List.pairwise_cons.mp hs
    simp only [lookup, List.mem_cons, Prod.mk.injEq]
    cases hc : cmp k' k with
    | lt =>
      simp only [lookup_eq_some htail]
      exact ⟨.inr, fun h => h.resolve_left fun he => ne_of_lt hc he.1.symm⟩
    | eq =>
      obtain rfl := eq_of_cmp hc
      simp only [Option.some.injEq, true_and]
      constructor
      · intro h
        exact .inl h.symm
      · intro h
        rcases h with h | h
        · exact h.symm
        · exact absurd rfl (ne_of_lt (hhead (k', v) h))
    | gt =>
      simp only [reduceCtorEq, false_iff]
      intro h
      rcases h with ⟨rfl, -⟩ | h
      · exact ne_of_lt (lt_of_gt hc) rfl
      · exact ne_of_lt (lt_trans (lt_of_gt hc) (hhead _ h)) rfl

/-- Entries with distinct keys, replaced one by one, are all found. -/
theorem lookup_foldl_upsert {entries : List (κ × β)} (h : (entries.map Prod.fst).Nodup) :
    lookup cmp k (entries.foldl (fun m e => upsert cmp e.1 e.2 m) []) = some v ↔
      (k, v) ∈ entries := by
  obtain ⟨hsorted, hperm⟩ := foldl_upsert_nil cmp h
  rw [lookup_eq_some hsorted, hperm.mem_iff]

/-- Entries with distinct keys are sorted strictly. -/
theorem sort_sorted (h : (m.map Prod.fst).Nodup) : Sorted cmp (sort cmp m) := by
  have hle : (sort cmp m).Pairwise fun a b => (cmp a.1 b.1 != .gt) = true :=
    Sorting.mergeSort_sorted m
  have hkeys : (sort cmp m).Pairwise fun a b => a.1 ≠ b.1 := by
    have hn : ((sort cmp m).map Prod.fst).Nodup := ((sort_perm m).map Prod.fst).nodup_iff.mpr h
    rwa [List.Nodup, List.pairwise_map] at hn
  refine (hle.and hkeys).imp ?_
  intro a b hab
  cases hc : cmp a.1 b.1 with
  | lt => rfl
  | eq => exact absurd (eq_of_cmp hc) hab.2
  | gt => simp [hc] at hab

/-- From no entries on, they are sorted. -/
theorem foldlM_insertNew_nil {entries m' : List (κ × β)} :
    entries.foldlM (fun m e => insertNew cmp e.1 e.2 m) [] = some m' ↔
      (entries.map Prod.fst).Nodup ∧ sort cmp entries = m' := by
  rw [foldlM_insertNew List.Pairwise.nil, List.append_nil]
  refine and_congr_right fun h => ?_
  obtain ⟨hsorted, hperm⟩ := foldl_upsert_nil cmp h
  rw [eq_of_perm hsorted (sort_sorted h) (hperm.trans (sort_perm _).symm)]

theorem sort_eq_of_perm {a b : List (κ × β)} (h : a.Perm b) (ha : (a.map Prod.fst).Nodup) :
    sort cmp a = sort cmp b :=
  eq_of_perm (sort_sorted ha) (sort_sorted ((h.map Prod.fst).nodup_iff.mp ha))
    ((sort_perm a).trans (h.trans (sort_perm b).symm))

/-- A sorted list is its own sorting. -/
theorem sort_of_sorted (h : Sorted cmp m) : sort cmp m = m :=
  eq_of_perm (sort_sorted (keys_nodup h)) h (sort_perm m)

theorem mem_upsert {e} (hs : Sorted cmp m) (h : e ∈ upsert cmp k v m) : e = (k, v) ∨ e ∈ m :=
  (((upsert_spec hs).2 e).mp h).imp_right And.left

theorem lookup_upsert_self (hs : Sorted cmp m) : lookup cmp k (upsert cmp k v m) = some v :=
  (lookup_eq_some (upsert_sorted hs)).mpr (((upsert_spec hs).2 _).mpr (.inl rfl))

theorem lookup_upsert_of_ne {k k₁} (hne : k₁ ≠ k) (hs : Sorted cmp m) :
    lookup cmp k₁ (upsert cmp k v m) = lookup cmp k₁ m := by
  refine Option.ext fun v₁ => ?_
  rw [lookup_eq_some (upsert_sorted hs), lookup_eq_some hs, (upsert_spec hs).2]
  simp [hne]

/-- What was put under a new key is found there and taken out again. -/
theorem eraseP_upsert : ∀ {m : List (κ × β)}, k ∉ m.map Prod.fst →
    (upsert cmp k v m).eraseP (fun e => cmp e.1 k == .eq) = m
  | [], _ => by
    have hself : cmp k k = .eq := Std.ReflCmp.compare_self
    simp [upsert, hself]
  | (k', v') :: m, hk => by
    have hself : cmp k k = .eq := Std.ReflCmp.compare_self
    rw [List.map_cons, List.mem_cons, not_or] at hk
    cases hc : cmp k' k with
    | lt => simp [upsert, hc, eraseP_upsert hk.2]
    | eq => exact absurd (eq_of_cmp hc).symm hk.1
    | gt => simp [upsert, hc, hself]

end AgentArchivist.Lib.SortedMap
