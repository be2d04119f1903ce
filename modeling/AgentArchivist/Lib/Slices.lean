import Mathlib.Data.List.Infix

/-! # Terminated records of a list

A list is cut after every element that terminates a record. What stands up to the last
terminator is complete, and what stands after it is an open tail: a list has exactly one
such split (`completePrefix_unique`). After a terminated list, the complete part and the
records of what follows are found without looking back (`completePrefix_append`,
`splitInclusive_append`). -/
namespace AgentArchivist.Lib.Slices
open List

variable {α : Type} (p : α → Bool)

/-- The index of the last element that satisfies `p`. -/
def rposition : List α → Option Nat
  | [] => none
  | x :: xs =>
    match rposition xs with
    | some i => some (i + 1)
    | none => if p x then some 0 else none

/-- Everything through the last terminator. -/
def completePrefix (xs : List α) : List α :=
  match rposition p xs with
  | some last => xs.take (last + 1)
  | none => []

/-- The pieces of a list, each through its own terminator, the last perhaps without one. -/
def splitInclusive : List α → List (List α)
  | [] => []
  | x :: xs =>
    if p x then [x] :: splitInclusive xs
    else match splitInclusive xs with
      | [] => [[x]]
      | record :: rest => (x :: record) :: rest

/-- Nothing, or a list whose last element is a terminator. -/
def Terminated (xs : List α) : Prop := ∀ x ∈ xs.getLast?, p x = true

variable {p} {xs ys : List α}

theorem rposition_eq_none : rposition p xs = none ↔ ∀ x ∈ xs, p x = false := by
  induction xs with
  | nil => simp [rposition]
  | cons x xs ih =>
    rw [rposition, forall_mem_cons, ← ih]
    cases rposition p xs with
    | none | some => simp

/-- The element found, with none behind it. -/
theorem rposition_append_cons {x} (hx : p x = true) (hys : ∀ y ∈ ys, p y = false) :
    rposition p (xs ++ x :: ys) = some xs.length := by
  induction xs with
  | nil =>
    rw [← rposition_eq_none] at hys
    simp [rposition, hys, hx]
  | cons w xs ih => simp [rposition, ih]

theorem exists_of_rposition {i} (h : rposition p xs = some i) :
    ∃ before x after, xs = before ++ x :: after ∧ before.length = i ∧ p x = true ∧
      ∀ y ∈ after, p y = false := by
  induction xs generalizing i with
  | nil => cases h
  | cons w xs ih =>
    rw [rposition] at h
    split at h
    · rename_i j hj
      cases h
      obtain ⟨before, x, after, rfl, rfl, hx, hafter⟩ := ih hj
      exact ⟨w :: before, x, after, rfl, rfl, hx, hafter⟩
    rename_i hnone
    split at h
    · rename_i hw
      cases h
      rw [rposition_eq_none] at hnone
      exact ⟨[], w, xs, rfl, rfl, hw, hnone⟩
    · cases h

theorem terminated_snoc {x} (hx : p x = true) : Terminated p (xs ++ [x]) := by
  intro y hy
  rw [getLast?_append, getLast?_singleton, Option.some_or, Option.mem_some_iff] at hy
  exact hy ▸ hx

theorem Terminated.eq_nil_or_snoc (h : Terminated p xs) :
    xs = [] ∨ ∃ ys x, xs = ys ++ [x] ∧ p x = true := by
  rcases eq_nil_or_concat' xs with rfl | ⟨ys, x, rfl⟩
  · exact .inl rfl
  · exact .inr ⟨ys, x, rfl, h x (by simp)⟩

theorem Terminated.append (hx : Terminated p xs) (hy : Terminated p ys) :
    Terminated p (xs ++ ys) := by
  rcases hy.eq_nil_or_snoc with rfl | ⟨ys, y, rfl, hp⟩
  · rwa [append_nil]
  · rw [← append_assoc]
    exact terminated_snoc hp

/-! ## The complete part -/

/-- A list splits in one way into a terminated part and a tail without terminators. -/
theorem completePrefix_unique (hx : Terminated p xs) (hy : ∀ y ∈ ys, p y = false) :
    completePrefix p (xs ++ ys) = xs := by
  unfold completePrefix
  rcases hx.eq_nil_or_snoc with rfl | ⟨xs, x, rfl, hp⟩
  · rw [← rposition_eq_none] at hy
    rw [nil_append, hy]
  · rw [append_assoc, singleton_append, rposition_append_cons hp hy, append_cons]
    exact take_left' (by simp)

theorem completePrefix_split (p : α → Bool) (xs : List α) : ∃ tail,
    xs = completePrefix p xs ++ tail ∧ Terminated p (completePrefix p xs) ∧
      ∀ y ∈ tail, p y = false := by
  cases h : rposition p xs with
  | none =>
    refine ⟨xs, ?_, ?_, rposition_eq_none.mp h⟩
    · rw [completePrefix, h, nil_append]
    · simp [completePrefix, h, Terminated]
  | some i =>
    obtain ⟨before, x, after, rfl, rfl, hx, hafter⟩ := exists_of_rposition h
    have hterm : Terminated p (before ++ [x]) := terminated_snoc hx
    have hcut := completePrefix_unique hterm hafter
    rw [append_assoc, singleton_append] at hcut
    rw [hcut]
    exact ⟨after, append_cons .., hterm, hafter⟩

theorem completePrefix_terminated (p : α → Bool) (xs : List α) :
    Terminated p (completePrefix p xs) := by
  obtain ⟨_, -, h, -⟩ := completePrefix_split p xs
  exact h

theorem completePrefix_initial (p : α → Bool) (xs : List α) : completePrefix p xs <+: xs := by
  obtain ⟨tail, h, -⟩ := completePrefix_split p xs
  exact ⟨tail, h.symm⟩

theorem completePrefix_append (h : Terminated p xs) :
    completePrefix p (xs ++ ys) = xs ++ completePrefix p ys := by
  obtain ⟨tail, hys, hterm, htail⟩ := completePrefix_split p ys
  calc completePrefix p (xs ++ ys) = completePrefix p ((xs ++ completePrefix p ys) ++ tail) := by
        rw [append_assoc, ← hys]
    _ = xs ++ completePrefix p ys := completePrefix_unique (h.append hterm) htail

/-! ## The records -/

theorem splitInclusive_ne_nil {x} : splitInclusive p (x :: xs) ≠ [] := by
  rw [splitInclusive]
  split
  · exact cons_ne_nil _ _
  · split <;> exact cons_ne_nil _ _

/-- The pieces put together are the list. -/
theorem splitInclusive_flatten (p : α → Bool) (xs : List α) : (splitInclusive p xs).flatten = xs := by
  induction xs with
  | nil => rfl
  | cons x xs ih =>
    rw [splitInclusive]
    split
    · rw [flatten_cons, ih, singleton_append]
    split
    · rename_i hnil
      rw [hnil] at ih
      rw [← ih]
      rfl
    · rename_i record rest hcons
      rw [hcons, flatten_cons] at ih
      rw [flatten_cons, cons_append, ih]

theorem splitInclusive_append (h : Terminated p xs) :
    splitInclusive p (xs ++ ys) = splitInclusive p xs ++ splitInclusive p ys := by
  induction xs with
  | nil => rfl
  | cons x xs ih =>
    cases xs with
    | nil =>
      have hx : p x = true := h x rfl
      simp [splitInclusive, hx]
    | cons w xs =>
      have hterm : Terminated p (w :: xs) := fun y hy => h y (by simpa using hy)
      have htail := ih hterm
      rw [cons_append, splitInclusive, htail]
      conv => rhs; rw [splitInclusive]
      split
      · rfl
      · cases hrecords : splitInclusive p (w :: xs) with
        | nil => exact absurd hrecords splitInclusive_ne_nil
        | cons record rest => rfl

/-- A piece without a terminator inside is one record. -/
theorem splitInclusive_record {x} (hxs : ∀ y ∈ xs, p y = false) (hx : p x = true) :
    splitInclusive p (xs ++ [x]) = [xs ++ [x]] := by
  induction xs with
  | nil => simp [splitInclusive, hx]
  | cons w xs ih =>
    obtain ⟨hw, hrest⟩ := forall_mem_cons.mp hxs
    rw [cons_append, splitInclusive, ih hrest, hw]
    rfl

/-- There are as many records as terminators. -/
theorem splitInclusive_length (h : Terminated p xs) :
    (splitInclusive p xs).length = xs.countP p := by
  induction xs with
  | nil => rfl
  | cons x xs ih =>
    cases xs with
    | nil =>
      have hx : p x = true := h x rfl
      simp [splitInclusive, hx]
    | cons w xs =>
      have hterm : Terminated p (w :: xs) := fun y hy => h y (by simpa using hy)
      have htail := ih hterm
      rw [splitInclusive, countP_cons]
      split
      · rw [length_cons, htail]
      cases hrecords : splitInclusive p (w :: xs) with
      | nil => exact absurd hrecords splitInclusive_ne_nil
      | cons record rest =>
        rw [hrecords] at htail
        rw [Nat.add_zero, ← htail]
        rfl

end AgentArchivist.Lib.Slices
