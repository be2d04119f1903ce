import Mathlib.Data.List.Perm.Basic

/-! # Sorting by a key

A stable sort by what a comparison says of the elements' keys. Sorted lists of the same
elements are one list when the keys tell the elements apart, so such a sort forgets in which
order its input came; in a sorted list equal elements stand side by side. -/
namespace AgentArchivist.Lib.Sorting
open List

variable {α κ : Type} {cmp : κ → κ → Ordering} [Std.TransCmp cmp] {key : α → κ} {xs ys : List α}

theorem mergeSort_sorted (xs : List α) :
    (xs.mergeSort fun a b => cmp (key a) (key b) != .gt).Pairwise
      fun a b => (cmp (key a) (key b) != .gt) = true := by
  refine pairwise_mergeSort ?_ ?_ xs
  · intro a b c hab hbc
    rw [bne_iff_ne] at hab hbc ⊢
    exact Ordering.isLE_iff_ne_gt.mp (Std.TransCmp.isLE_trans (Ordering.isLE_iff_ne_gt.mpr hab)
      (Ordering.isLE_iff_ne_gt.mpr hbc))
  intro a b
  rw [Bool.or_eq_true, bne_iff_ne, bne_iff_ne]
  by_cases hg : cmp (key a) (key b) = .gt
  · right
    rw [@Std.OrientedCmp.eq_swap _ cmp, hg]
    simp
  · exact .inl hg

variable [Std.LawfulEqCmp cmp]

theorem key_eq {a b} (hab : (cmp (key a) (key b) != .gt) = true)
    (hba : (cmp (key b) (key a) != .gt) = true) : key a = key b :=
  Std.LawfulEqCmp.eq_of_compare (Std.OrientedCmp.isLE_antisymm
    (Ordering.isLE_iff_ne_gt.mpr (bne_iff_ne.mp hab))
    (Ordering.isLE_iff_ne_gt.mpr (bne_iff_ne.mp hba)))

/-- Sorted lists of the same elements are one list. -/
theorem eq_of_perm (hkey : ∀ a ∈ xs, ∀ b ∈ xs, key a = key b → a = b) (h : xs.Perm ys)
    (hxs : xs.Pairwise fun a b => (cmp (key a) (key b) != .gt) = true)
    (hys : ys.Pairwise fun a b => (cmp (key a) (key b) != .gt) = true) : xs = ys := by
  refine List.Perm.eq_of_pairwise ?_ hxs hys h
  intro a b ha hb hab hba
  exact hkey a ha b (h.mem_iff.mpr hb) (key_eq hab hba)

theorem mergeSort_eq_of_perm (hkey : ∀ a ∈ xs, ∀ b ∈ xs, key a = key b → a = b)
    (h : xs.Perm ys) :
    (xs.mergeSort fun a b => cmp (key a) (key b) != .gt)
      = ys.mergeSort fun a b => cmp (key a) (key b) != .gt := by
  refine eq_of_perm ?_ ((mergeSort_perm xs _).trans (h.trans (mergeSort_perm ys _).symm))
    (mergeSort_sorted xs) (mergeSort_sorted ys)
  intro a ha b hb
  exact hkey a ((mergeSort_perm xs _).mem_iff.mp ha) b ((mergeSort_perm xs _).mem_iff.mp hb)

/-- Whether a sorted list carries the same token twice. -/
def hasDuplicates {T : Type} [DecidableEq T] : List T → Bool
  | a :: b :: rest => a = b || hasDuplicates (b :: rest)
  | _ => false

/-- In a sorted list equal elements stand side by side. -/
theorem hasDuplicates_eq_false [DecidableEq α] (hkey : ∀ a b : α, key a = key b → a = b)
    (hxs : xs.Pairwise fun a b => (cmp (key a) (key b) != .gt) = true) :
    hasDuplicates xs = false ↔ xs.Nodup := by
  induction xs with
  | nil => simp [hasDuplicates]
  | cons a xs ih =>
    obtain ⟨hhead, htail⟩ := pairwise_cons.mp hxs
    cases xs with
    | nil => simp [hasDuplicates]
    | cons b rest =>
      rw [nodup_cons, hasDuplicates, Bool.or_eq_false_iff, ih htail, decide_eq_false_iff_not]
      refine and_congr_left fun _ => ?_
      constructor
      · intro hne hmem
        rcases mem_cons.mp hmem with rfl | hlater
        · exact hne rfl
        · -- `b` stands before a later `a`, and after the one at the head
          have hba := (pairwise_cons.mp htail).1 a hlater
          exact hne (hkey a b (key_eq (hhead b mem_cons_self) hba))
      · rintro hnot rfl
        exact hnot mem_cons_self

end AgentArchivist.Lib.Sorting
