import Mathlib.Data.List.Basic

/-! # Labels and length-prefixed fields

A frame is a label, a delimiter that no label contains, and fields each behind its
length. When lengths are written with a fixed width and without loss, the frame
determines the label and the fields (`frame_injective`), whatever the fields hold. -/
namespace AgentArchivist.Lib.LengthPrefix
open List

variable {α : Type} (size : Nat → List α)

/-- Each field behind its length. -/
def fields (contents : List (List α)) : List α := contents.flatMap fun f => size f.length ++ f

def frame (delimiter : α) (label : List α) (contents : List (List α)) : List α :=
  label ++ delimiter :: fields size contents

/-- Lengths below `bound` are written in `width` elements, no two alike. -/
structure Lengths (width bound : Nat) : Prop where
  positive : 0 < width
  length : ∀ n, (size n).length = width
  injective : ∀ {m n}, m < bound → n < bound → size m = size n → m = n

variable {size} {width bound : Nat}

theorem Lengths.ne_nil (h : Lengths size width bound) (n : Nat) : size n ≠ [] := by
  have hpos := h.positive
  rw [← h.length n] at hpos
  exact length_pos_iff.mp hpos

/-- The first field of a frame names its own extent. -/
theorem Lengths.split (h : Lengths size width bound) {f g r s} (hf : f.length < bound)
    (hg : g.length < bound) (heq : size f.length ++ f ++ r = size g.length ++ g ++ s) :
    f = g ∧ r = s := by
  rw [append_assoc, append_assoc] at heq
  obtain ⟨hsize, hrest⟩ := append_inj heq ((h.length _).trans (h.length _).symm)
  exact append_inj hrest (h.injective hf hg hsize)

theorem fields_injective (h : Lengths size width bound) : ∀ {a b : List (List α)},
    (∀ f ∈ a, f.length < bound) → (∀ f ∈ b, f.length < bound) → fields size a = fields size b → a = b
  | [], [], _, _, _ => rfl
  | [], g :: b, _, _, heq => by
    have hnil : size g.length ++ g = [] := (append_eq_nil_iff.mp heq.symm).1
    exact absurd (append_eq_nil_iff.mp hnil).1 (h.ne_nil _)
  | f :: a, [], _, _, heq => by
    have hnil : size f.length ++ f = [] := (append_eq_nil_iff.mp heq).1
    exact absurd (append_eq_nil_iff.mp hnil).1 (h.ne_nil _)
  | f :: a, g :: b, ha, hb, heq => by
    obtain ⟨hf, ha'⟩ := forall_mem_cons.mp ha
    obtain ⟨hg, hb'⟩ := forall_mem_cons.mp hb
    obtain ⟨hfirst, hrest⟩ := h.split hf hg heq
    rw [hfirst, fields_injective h ha' hb' hrest]

/-- A label ends at the first delimiter. -/
theorem label_injective {d} : ∀ {l m r s : List α}, d ∉ l → d ∉ m →
    l ++ d :: r = m ++ d :: s → l = m ∧ r = s
  | [], [], _, _, _, _, h => ⟨rfl, (List.cons.inj h).2⟩
  | [], x :: m, _, _, _, hm, h =>
    absurd (mem_cons_self ..) ((List.cons.inj h).1 ▸ hm)
  | x :: l, [], _, _, hl, _, h =>
    absurd (mem_cons_self ..) ((List.cons.inj h).1 ▸ hl)
  | x :: l, y :: m, _, _, hl, hm, h => by
    obtain ⟨hxy, htail⟩ := List.cons.inj h
    obtain ⟨hlm, hr⟩ := label_injective (fun hd => hl (mem_cons_of_mem _ hd))
      (fun hd => hm (mem_cons_of_mem _ hd)) htail
    exact ⟨by rw [hxy, hlm], hr⟩

theorem frame_injective (h : Lengths size width bound) {d l m a b} (hl : d ∉ l) (hm : d ∉ m)
    (ha : ∀ f ∈ a, f.length < bound) (hb : ∀ f ∈ b, f.length < bound)
    (heq : frame size d l a = frame size d m b) : l = m ∧ a = b := by
  obtain ⟨hlabel, hfields⟩ := label_injective hl hm heq
  exact ⟨hlabel, fields_injective h ha hb hfields⟩

end AgentArchivist.Lib.LengthPrefix
