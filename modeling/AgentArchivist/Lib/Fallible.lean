import Mathlib.Data.List.Basic

/-! # Fallible steps over a cursor

A cursor stands in a list: how far it has come, and what is left. `Spans c text c'`
says that `c'` stands after `text`, read from `c`; a step that reads a piece of the
list is described by the text it spans, and steps compose by appending their texts.
`bind_eq_ok` takes a chain of fallible steps apart, `refuse_eq_ok` and `require_eq_ok` the guards
in it. -/
namespace AgentArchivist.Lib.Fallible
open List

theorem bind_eq_ok {ε α β : Type} {x} {f : α → Except ε β} {b} :
    (x >>= f) = .ok b ↔ ∃ a, x = .ok a ∧ f a = .ok b := by
  cases x with
  | error e => exact ⟨nofun, nofun⟩
  | ok a => exact ⟨fun h => ⟨a, rfl, h⟩, fun ⟨_, h, h'⟩ => by cases h; exact h'⟩

theorem bind_of_ok {ε α β : Type} {x} {f : α → Except ε β} {a} (h : x = .ok a) :
    (x >>= f) = f a := by
  rw [h]
  rfl

section
variable {ε α : Type} {c : Prop} [Decidable c] {e : ε} {x : Except ε α} {a : α}

theorem refuse_eq_ok : (if c then .error e else x) = .ok a ↔ ¬ c ∧ x = .ok a := by
  by_cases h : c <;> simp [h]

theorem require_eq_ok : (if c then x else .error e) = .ok a ↔ c ∧ x = .ok a := by
  by_cases h : c <;> simp [h]

theorem require_dep_eq_ok {f : c → Except ε α} :
    (if h : c then f h else .error e) = .ok a ↔ ∃ h, f h = .ok a := by
  by_cases h : c <;> simp [h]

end

theorem mapError_eq_ok {ε ε' α : Type} {x : Except ε α} {f : ε → ε'} {a} :
    x.mapError f = .ok a ↔ x = .ok a := by
  cases x <;> simp [Except.mapError]

theorem map_eq_ok {ε α β : Type} {x : Except ε α} {f : α → β} {b} :
    x.map f = .ok b ↔ ∃ a, x = .ok a ∧ f a = b := by
  cases x <;> simp [Except.map]

theorem toOption_eq_some {ε α : Type} {x : Except ε α} {a} : x.toOption = some a ↔ x = .ok a := by
  cases x <;> simp [Except.toOption]

structure Cursor (α : Type) where
  pos : Nat
  rest : List α
deriving DecidableEq, Repr

namespace Cursor
variable {α : Type} {c c' c'' : Cursor α} {text text' : List α}

def peek (c : Cursor α) : Option α := c.rest.head?

def advance (n : Nat) (c : Cursor α) : Cursor α := ⟨c.pos + n, c.rest.drop n⟩

/-- `while p(peek()) { pos += 1 }`. -/
def skipWhile (p : α → Bool) (c : Cursor α) : Cursor α := c.advance (c.rest.takeWhile p).length

/-- `c'` stands after `text`, read from `c`. -/
structure Spans (c : Cursor α) (text : List α) (c' : Cursor α) : Prop where
  rest : c.rest = text ++ c'.rest
  pos : c'.pos = c.pos + text.length

theorem Spans.nil (c : Cursor α) : Spans c [] c := ⟨rfl, rfl⟩

theorem Spans.append (h : Spans c text c') (h' : Spans c' text' c'') :
    Spans c (text ++ text') c'' := by
  refine ⟨?_, ?_⟩
  · rw [h.rest, h'.rest, append_assoc]
  · rw [h'.pos, h.pos, length_append, Nat.add_assoc]

theorem spans_advance {rest} (h : c.rest = text ++ rest) :
    Spans c text (c.advance text.length) := by
  refine ⟨?_, rfl⟩
  rw [advance, h, drop_left]

/-- Where a cursor stands after a text is determined by the text. -/
theorem Spans.eq_advance (h : Spans c text c') : c.advance text.length = c' := by
  cases c' with
  | mk pos rest =>
    obtain ⟨hrest, hpos⟩ := h
    simp only at hrest hpos
    rw [advance, hrest, drop_left, hpos]

theorem Spans.unique (h : Spans c text c') (h' : Spans c text c'') : c' = c'' :=
  h.eq_advance.symm.trans h'.eq_advance

/-- A span cuts into the spans of its parts. -/
theorem Spans.split (h : Spans c (text ++ text') c'') :
    ∃ c', Spans c text c' ∧ Spans c' text' c'' := by
  have hrest : c.rest = text ++ (text' ++ c''.rest) := by rw [h.rest, append_assoc]
  have hfirst := spans_advance hrest
  refine ⟨_, hfirst, ?_, ?_⟩
  · exact append_cancel_left (hfirst.rest.symm.trans hrest)
  · rw [h.pos, hfirst.pos, length_append, Nat.add_assoc]

theorem Spans.length (h : Spans c text c') : c.rest.length = text.length + c'.rest.length := by
  rw [h.rest, length_append]

theorem Spans.take (h : Spans c text c') : c.rest.take (c'.pos - c.pos) = text := by
  rw [h.pos, Nat.add_sub_cancel_left, h.rest, take_left]

theorem Spans.peek {a} (h : Spans c (a :: text) c') : c.peek = some a := by
  rw [Cursor.peek, h.rest]
  rfl

theorem spans_peek {a} (h : c.peek = some a) : Spans c [a] (c.advance 1) := by
  obtain ⟨rest, hrest⟩ := head?_eq_some_iff.mp h
  have hsplit : c.rest = [a] ++ rest := hrest
  exact spans_advance hsplit

theorem spans_nil : Spans c [] c' ↔ c = c' :=
  ⟨fun h => (Spans.nil c).unique h, fun h => h ▸ Spans.nil c⟩

/-- A span is read element by element. -/
theorem spans_cons {a} :
    Spans c (a :: text) c' ↔ c.peek = some a ∧ Spans (c.advance 1) text c' := by
  constructor
  · intro h
    have hsplit : Spans c ([a] ++ text) c' := h
    obtain ⟨c1, h1, h2⟩ := hsplit.split
    obtain rfl : c.advance 1 = c1 := h1.eq_advance
    exact ⟨h.peek, h2⟩
  · intro h
    exact (spans_peek h.1).append h.2

theorem spans_skipWhile (p : α → Bool) (c : Cursor α) :
    Spans c (c.rest.takeWhile p) (c.skipWhile p) :=
  spans_advance takeWhile_append_dropWhile.symm

theorem takeWhile_eq {p : α → Bool} {text rest : List α} (ht : text.all p = true)
    (hr : ∀ a, rest.head? = some a → p a = false) : (text ++ rest).takeWhile p = text := by
  rw [takeWhile_append_of_pos (all_eq_true.mp ht)]
  cases rest with
  | nil => simp
  | cons a rest => rw [takeWhile_cons_of_neg (by simp [hr a rfl]), append_nil]

/-- Skipping stops where the run ends. -/
theorem Spans.skipWhile_eq {p : α → Bool} (h : Spans c text c') (ht : text.all p = true)
    (hr : ∀ a, c'.peek = some a → p a = false) : c.skipWhile p = c' := by
  rw [skipWhile, h.rest, takeWhile_eq ht hr]
  exact h.eq_advance

theorem peek_skipWhile {p : α → Bool} {a} (h : (c.skipWhile p).peek = some a) : p a = false := by
  have hdrop : (c.skipWhile p).rest = c.rest.dropWhile p := by
    have hs := (spans_skipWhile p c).rest
    nth_rewrite 1 [← takeWhile_append_dropWhile (p := p) (l := c.rest)] at hs
    exact (append_cancel_left hs).symm
  rw [peek, hdrop] at h
  have := head?_dropWhile_not p c.rest
  rw [h] at this
  simpa using this

end Cursor
end AgentArchivist.Lib.Fallible
