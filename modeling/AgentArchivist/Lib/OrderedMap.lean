import AgentArchivist.Lib.SortedMap

/-! # Maps with ordered keys

A map that is walked in key order: a sorted list of entries, which carries its order.
Two maps with the same values are the same (`ext_get`). -/
namespace AgentArchivist.Lib
open Lib.SortedMap

structure OrderedMap (β : Type) where
  entries : List (Nat × β)
  sorted : Sorted compare entries
deriving DecidableEq

namespace OrderedMap
variable {β : Type}

def empty : OrderedMap β := ⟨[], List.Pairwise.nil⟩

def get (m : OrderedMap β) (k : Nat) : Option β := lookup compare k m.entries

def insert (m : OrderedMap β) (k : Nat) (v : β) : OrderedMap β :=
  ⟨upsert compare k v m.entries, upsert_sorted m.sorted⟩

/-- The entries with keys up to a bound, from the last to the first. -/
def upToDescending (m : OrderedMap β) (bound : Nat) : List (Nat × β) :=
  (m.entries.filter fun e => e.1 ≤ bound).reverse

variable {m m' : OrderedMap β} {k : Nat} {v : β}

@[simp] theorem get_empty : (empty : OrderedMap β).get k = none := rfl

theorem get_eq_some : m.get k = some v ↔ (k, v) ∈ m.entries := lookup_eq_some m.sorted

theorem get_insert {k₁} : (m.insert k v).get k₁ = if k₁ = k then some v else m.get k₁ := by
  split
  · rename_i heq
    subst heq
    exact lookup_upsert_self m.sorted
  · rename_i hne
    exact lookup_upsert_of_ne hne m.sorted

theorem mem_upToDescending {bound e} :
    e ∈ m.upToDescending bound ↔ m.get e.1 = some e.2 ∧ e.1 ≤ bound := by
  rw [upToDescending, List.mem_reverse, List.mem_filter, get_eq_some, decide_eq_true_iff]

theorem ext_get (h : ∀ k, m.get k = m'.get k) : m = m' := by
  have hmem : ∀ e, e ∈ m.entries ↔ e ∈ m'.entries := by
    intro e
    rw [← get_eq_some, ← get_eq_some, h]
  have hperm : m.entries.Perm m'.entries :=
    (List.perm_ext_iff_of_nodup ((keys_nodup m.sorted).of_map _)
      ((keys_nodup m'.sorted).of_map _)).mpr hmem
  have hentries := eq_of_perm m.sorted m'.sorted hperm
  cases m
  cases m'
  cases hentries
  rfl

/-- Writing what is there changes nothing. -/
theorem insert_same (h : m.get k = some v) : m.insert k v = m := by
  refine ext_get fun k1 => ?_
  rw [get_insert]
  split
  · rename_i heq
    rw [heq, h]
  · rfl

end OrderedMap
end AgentArchivist.Lib
