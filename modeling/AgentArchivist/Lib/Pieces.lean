import Mathlib.Data.List.Basic

/-! # Pieces between separators

A list read from left to right and split at its separators: every piece but the last is
finished, and the last is still open. What comes later changes the open piece only
(`append_eq`), so a reader that keeps the open piece and forgets
the finished ones splits the whole list (`splitOnP_append`). -/
namespace AgentArchivist.Lib.Pieces
open List

variable {α : Type} (p : α → Bool)

/-- The pieces that a separator has ended. -/
def finished (xs : List α) : List (List α) := (xs.splitOnP p).dropLast

/-- What stands after the last separator. -/
def pending (xs : List α) : List α := (xs.splitOnP p).getLast (splitOnP_ne_nil p xs)

variable {p} {xs : List α}

theorem splitOnP_eq_snoc (p : α → Bool) (xs : List α) :
    xs.splitOnP p = finished p xs ++ [pending p xs] :=
  (dropLast_append_getLast _).symm

theorem eq_of_snoc {pieces last} (h : xs.splitOnP p = pieces ++ [last]) :
    finished p xs = pieces ∧ pending p xs = last := by
  have happ := (splitOnP_eq_snoc p xs).symm.trans h
  obtain ⟨hpieces, hlast⟩ := append_inj' happ rfl
  exact ⟨hpieces, singleton_inj.mp hlast⟩

/-- No separator yet. -/
theorem open_eq (h : ∀ x ∈ xs, p x = false) : finished p xs = [] ∧ pending p xs = xs :=
  by
  have h1 : xs.splitOnP p = [] ++ [xs] := splitOnP_eq_singleton h
  exact eq_of_snoc h1

theorem separated_eq {sep} (before after : List α) (hsep : p sep = true) :
    finished p (before ++ sep :: after) = before.splitOnP p ++ finished p after ∧
      pending p (before ++ sep :: after) = pending p after := by
  apply eq_of_snoc
  rw [splitOnP_append_cons before after hsep, splitOnP_eq_snoc p after, append_assoc]

/-- A list without separators, or one with a last separator. -/
theorem open_or_separated (p : α → Bool) (xs : List α) : (∀ x ∈ xs, p x = false) ∨
    ∃ before sep after, xs = before ++ sep :: after ∧ p sep = true ∧ ∀ x ∈ after, p x = false := by
  induction xs with
  | nil => exact .inl (by simp)
  | cons x xs ih =>
    rcases ih with hopen | ⟨before, sep, after, rfl, hsep, hafter⟩
    · cases hx : p x with
      | false => exact .inl (forall_mem_cons.mpr ⟨hx, hopen⟩)
      | true => exact .inr ⟨[], x, xs, rfl, hx, hopen⟩
    · exact .inr ⟨x :: before, sep, after, rfl, hsep, hafter⟩

theorem pending_open (p : α → Bool) (xs : List α) : ∀ x ∈ pending p xs, p x = false := by
  rcases open_or_separated p xs with h | ⟨before, sep, after, rfl, hsep, hafter⟩
  · rwa [(open_eq h).2]
  · rwa [(separated_eq before after hsep).2, (open_eq hafter).2]

/-- Only the open piece matters to what follows. -/
theorem splitOnP_append (p : α → Bool) (xs ys : List α) :
    (xs ++ ys).splitOnP p = finished p xs ++ (pending p xs ++ ys).splitOnP p := by
  rcases open_or_separated p xs with h | ⟨before, sep, after, rfl, hsep, hafter⟩
  · rw [(open_eq h).1, (open_eq h).2, nil_append]
  · obtain ⟨hfinished, hpending⟩ := separated_eq before after hsep
    rw [hfinished, hpending, (open_eq hafter).1, (open_eq hafter).2, append_nil,
      append_assoc, cons_append, splitOnP_append_cons _ _ hsep]

theorem append_eq (p : α → Bool) (xs ys : List α) :
    finished p (xs ++ ys) = finished p xs ++ finished p (pending p xs ++ ys) ∧
      pending p (xs ++ ys) = pending p (pending p xs ++ ys) := by
  apply eq_of_snoc
  rw [splitOnP_append p xs ys, splitOnP_eq_snoc p (pending p xs ++ ys), append_assoc]

theorem pending_sep {sep} (hsep : p sep = true) : pending p (xs ++ [sep]) = [] :=
  (separated_eq xs [] hsep).2

theorem pending_snoc {x} (hx : p x = false) : pending p (xs ++ [x]) = pending p xs ++ [x] := by
  rw [(append_eq p xs [x]).2]
  refine (open_eq fun y hy => ?_).2
  rcases mem_append.mp hy with hy | hy
  · exact pending_open p xs y hy
  · exact mem_singleton.mp hy ▸ hx

end AgentArchivist.Lib.Pieces
