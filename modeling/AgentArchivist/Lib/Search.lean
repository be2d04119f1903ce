import Mathlib.Data.List.Infix
import Mathlib.Data.Nat.Find

/-! # First occurrence of a pattern in a list

`position pat l` is the index of the first place where `pat` occurs in `l`,
what a scan over all windows of the pattern's length finds. The lemmas say what
a scan of a PREFIX of the data decides about the whole: an occurrence found
there stays the first one (`position_append`), and a scan that found nothing
leaves only the last `pat.length - 1` places open (`le_of_position_append`). -/
namespace AgentArchivist.Lib.Search
open List

variable {α : Type} [DecidableEq α]

def position (pat : List α) : List α → Option Nat
  | [] => if pat = [] then some 0 else none
  | x :: xs =>
    if pat.isPrefixOf (x :: xs) then some 0 else (position pat xs).map (· + 1)

/-- The spec of the scan: a place where the pattern stands, with none before. -/
theorem position_eq_some {pat} :
    ∀ {l : List α} {i : Nat}, position pat l = some i ↔
      pat <+: l.drop i ∧ i ≤ l.length ∧ ∀ j < i, ¬ pat <+: l.drop j
  | [], i => by
    by_cases hp : pat = []
    · subst hp
      simp only [position, if_true, Option.some.injEq, List.nil_prefix, true_and, length_nil]
      constructor
      · rintro rfl; simp
      · rintro ⟨hi, -⟩; omega
    · simp [position, hp]
  | x :: xs, i => by
    simp only [position, List.isPrefixOf_iff_prefix]
    split
    · rename_i h
      constructor
      · intro he
        cases he
        exact ⟨by simpa using h, by simp, by omega⟩
      · rintro ⟨_, _, hlt⟩
        cases i with
        | zero => rfl
        | succ i => exact absurd (by simpa using h) (hlt 0 (by omega))
    · rename_i h
      simp only [Option.map_eq_some_iff]
      constructor
      · rintro ⟨k, hk, rfl⟩
        obtain ⟨h1, h2, h3⟩ := position_eq_some.mp hk
        refine ⟨by simpa using h1, by simpa using h2, ?_⟩
        intro j hj
        cases j with
        | zero => simpa using h
        | succ j => simpa using h3 j (by omega)
      · rintro ⟨h1, h2, h3⟩
        cases i with
        | zero => exact absurd (by simpa using h1) h
        | succ i =>
          refine ⟨i, position_eq_some.mpr ⟨by simpa using h1, by simpa using h2, ?_⟩, rfl⟩
          intro j hj
          simpa using h3 (j + 1) (by omega)

variable {pat l : List α}

theorem position_spec {i} (h : position pat l = some i) :
    pat <+: l.drop i ∧ i ≤ l.length ∧ ∀ j < i, ¬ pat <+: l.drop j := position_eq_some.mp h

theorem position_of_first {i} (h : pat <+: l.drop i ∧ i ≤ l.length ∧ ∀ j < i, ¬ pat <+: l.drop j) :
    position pat l = some i :=
  position_eq_some.mpr h

theorem position_eq_none :
    position pat l = none ↔ ¬ pat <:+: l := by
  constructor
  · rintro h ⟨s, t, rfl⟩
    have hs : pat <+: (s ++ pat ++ t).drop s.length := by simp
    have hex : ∃ i, pat <+: (s ++ pat ++ t).drop i := ⟨_, hs⟩
    have hfind := Nat.find_spec hex
    have hmin := fun j (hj : j < Nat.find hex) => Nat.find_min hex hj
    have hle : Nat.find hex ≤ (s ++ pat ++ t).length :=
      le_trans (Nat.find_min' hex hs) (by simp)
    rw [position_of_first ⟨hfind, hle, hmin⟩] at h
    cases h
  · intro h
    cases hc : position pat l with
    | none => rfl
    | some i =>
      obtain ⟨h1, -, -⟩ := position_spec hc
      exact absurd (h1.isInfix.trans (drop_suffix i l).isInfix) h

theorem position_bound {i} (h : position pat l = some i) : i + pat.length ≤ l.length := by
  obtain ⟨h1, h2, -⟩ := position_spec h
  have := h1.length_le
  simp only [length_drop] at this
  omega

/-- The list around a found occurrence. -/
theorem position_split {i} (h : position pat l = some i) :
    l = l.take i ++ pat ++ l.drop (i + pat.length) := by
  obtain ⟨⟨t, ht⟩, -, -⟩ := position_spec h
  have hd : l.drop (i + pat.length) = t := by
    rw [← drop_drop, ← ht]; simp
  rw [hd, append_assoc, ht, take_append_drop]

omit [DecidableEq α] in
/-- A place that lies inside the prefix sees the same bytes in the whole. -/
theorem prefix_drop_append {pat l m : List α} {j} (hj : j + pat.length ≤ l.length) :
    pat <+: (l ++ m).drop j ↔ pat <+: l.drop j := by
  rw [drop_append_of_le_length (by omega)]
  constructor
  · intro h
    exact prefix_of_prefix_length_le h (prefix_append _ _) (by simp; omega)
  · intro h
    exact h.trans (prefix_append _ _)

/-- What a scan of a prefix found is the first occurrence in the whole. -/
theorem position_append {i} (h : position pat l = some i) (m : List α) :
    position pat (l ++ m) = some i := by
  have hb := position_bound h
  obtain ⟨h1, h2, h3⟩ := position_spec h
  refine position_of_first ⟨(prefix_drop_append hb).mpr h1, by simp; omega, ?_⟩
  intro j hj
  rw [prefix_drop_append (by omega)]
  exact h3 j hj

/-- A scan of a prefix that found nothing leaves only places that overlap its end. -/
theorem le_of_position_append {pat l m : List α} {i} (hn : position pat l = none)
    (h : position pat (l ++ m) = some i) : l.length < i + pat.length := by
  by_contra hc
  obtain ⟨h1, h2, h3⟩ := position_spec h
  have h1' := (prefix_drop_append (m := m) (by omega)).mp h1
  have : position pat l = some i := by
    refine position_of_first ⟨h1', by omega, ?_⟩
    intro j hj
    rw [← prefix_drop_append (m := m) (by omega)]
    exact h3 j hj
  rw [this] at hn
  cases hn

/-- Places before the first occurrence can be dropped. -/
theorem position_drop {i n} (h : position pat l = some i) (hn : n ≤ i) :
    position pat (l.drop n) = some (i - n) := by
  obtain ⟨h1, h2, h3⟩ := position_spec h
  refine position_of_first ⟨?_, by simp; omega, ?_⟩
  · rw [drop_drop, show n + (i - n) = i by omega]; exact h1
  · intro j hj
    rw [drop_drop]
    exact h3 (n + j) (by omega)

theorem position_drop_none (h : position pat l = none) (n : Nat) :
    position pat (l.drop n) = none := by
  rw [position_eq_none] at h ⊢
  exact fun hi => h (hi.trans (drop_suffix n l).isInfix)

/-- A scan of a prefix long enough to hold the occurrence finds it. -/
theorem position_take {i n} (h : position pat l = some i) (hn : i + pat.length ≤ n) :
    position pat (l.take n) = some i := by
  have hb := position_bound h
  obtain ⟨h1, h2, h3⟩ := position_spec h
  have key : ∀ j, j ≤ i → (pat <+: (l.take n).drop j ↔ pat <+: l.drop j) := by
    intro j hj
    have := @prefix_drop_append _ pat (l.take n) (l.drop n) j (by simp; omega)
    rw [take_append_drop] at this
    exact this.symm
  refine position_of_first ⟨(key i le_rfl).mpr h1, by simp; omega, ?_⟩
  intro j hj
  rw [key j (by omega)]
  exact h3 j hj

theorem position_of_take {i n} (h : position pat (l.take n) = some i) :
    position pat l = some i := by
  have := position_append h (l.drop n)
  rwa [take_append_drop] at this

/-- A scan of a prefix that ends inside the first occurrence finds nothing. -/
theorem position_take_none {i n} (h : position pat l = some i) (hn : n < i + pat.length) :
    position pat (l.take n) = none := by
  cases hc : position pat (l.take n) with
  | none => rfl
  | some j =>
    have hb := position_bound hc
    rw [position_of_take hc] at h
    cases h
    rw [length_take] at hb
    omega

/-- Data without the pattern's first item is passed over. -/
theorem position_append_of_not_mem {a} (pat : List α) {l} (h : a ∉ l) :
    position (a :: pat) (l ++ a :: pat) = some l.length := by
  induction l with
  | nil => simp [position]
  | cons b l ih =>
    obtain ⟨hne, hrest⟩ := not_or.mp (mt mem_cons.mpr h)
    simp [position, hne, ih hrest]

/-- Data that is followed by the pattern and has it first there does not contain it. -/
theorem not_infix_of_position (hp : pat ≠ [])
    (h : position pat (l ++ pat) = some l.length) : ¬ pat <:+: l := by
  rintro ⟨s, t, rfl⟩
  obtain ⟨-, -, h3⟩ := position_spec h
  have hlen := length_pos_iff.mpr hp
  refine h3 s.length (by simp; omega) ?_
  simp

end AgentArchivist.Lib.Search
