import Mathlib.Data.List.Basic

/-! # Strings as their UTF-16 code units

`encodeChar c` are the one or two code units of a character: itself in the basic
plane, a high and a low surrogate above it. No character's units begin another's
(`encodeChar_append`), so a string is determined by its units and comparing two
strings unit by unit (`cmpUtf16`) is a lawful order on them. -/
namespace AgentArchivist.Lib.Utf16
open List

def encodeChar (c : Char) : List UInt16 :=
  if c.toNat < 0x10000 then [UInt16.ofNat c.toNat]
  else [UInt16.ofNat (0xd800 + (c.toNat - 0x10000) / 0x400),
    UInt16.ofNat (0xdc00 + (c.toNat - 0x10000) % 0x400)]

/-- The code units of a string (`str::encode_utf16`). -/
def encodeUtf16 (s : String) : List UInt16 := s.toList.flatMap encodeChar

/-- Compare two strings as sequences of UTF-16 code units. -/
def cmpUtf16 : String → String → Ordering := compareOn encodeUtf16

/-- A character is a scalar value: no surrogate, at most `0x10ffff`. -/
theorem scalar (c : Char) : c.toNat < 0xd800 ∨ 0xdfff < c.toNat ∧ c.toNat < 0x110000 := c.valid

theorem ofNat_inj {m n : Nat} (hm : m < 0x10000) (hn : n < 0x10000)
    (h : UInt16.ofNat m = UInt16.ofNat n) : m = n := by
  have h' := congrArg UInt16.toNat h
  rwa [UInt16.toNat_ofNat_of_lt' hm, UInt16.toNat_ofNat_of_lt' hn] at h'

variable {c : Char}

theorem encodeChar_bmp (h : c.toNat < 0x10000) :
    encodeChar c = [UInt16.ofNat c.toNat] := if_pos h

theorem encodeChar_astral (h : ¬ c.toNat < 0x10000) :
    encodeChar c = [UInt16.ofNat (0xd800 + (c.toNat - 0x10000) / 0x400),
      UInt16.ofNat (0xdc00 + (c.toNat - 0x10000) % 0x400)] := if_neg h

/-- A basic-plane unit is no high surrogate. -/
private theorem bmp_ne_high {c d : Char} (hc : c.toNat < 0x10000) (hd : ¬ d.toNat < 0x10000) :
    UInt16.ofNat c.toNat ≠ UInt16.ofNat (0xd800 + (d.toNat - 0x10000) / 0x400) := by
  intro h
  have hcs := scalar c
  have hds := scalar d
  have := ofNat_inj hc (by omega) h
  omega

theorem encodeChar_append {c d r s} (h : encodeChar c ++ r = encodeChar d ++ s) :
    c = d ∧ r = s := by
  have hcs := scalar c
  have hds := scalar d
  by_cases hc : c.toNat < 0x10000
  · by_cases hd : d.toNat < 0x10000
    · rw [encodeChar_bmp hc, encodeChar_bmp hd] at h
      obtain ⟨hu, hr⟩ := List.cons.inj h
      exact ⟨Char.toNat_inj.mp (ofNat_inj hc hd hu), hr⟩
    · rw [encodeChar_bmp hc, encodeChar_astral hd] at h
      exact absurd (List.cons.inj h).1 (bmp_ne_high hc hd)
  · by_cases hd : d.toNat < 0x10000
    · rw [encodeChar_astral hc, encodeChar_bmp hd] at h
      exact absurd (List.cons.inj h).1.symm (bmp_ne_high hd hc)
    rw [encodeChar_astral hc, encodeChar_astral hd] at h
    obtain ⟨hu, h'⟩ := List.cons.inj h
    obtain ⟨hl, hr⟩ := List.cons.inj h'
    have hhigh := ofNat_inj (by omega) (by omega) hu
    have hlow := ofNat_inj (by omega) (by omega) hl
    exact ⟨Char.toNat_inj.mp (by omega), hr⟩

theorem encodeChar_ne_nil (c : Char) : encodeChar c ≠ [] := by
  unfold encodeChar
  split <;> simp

theorem flatMap_encodeChar_injective : ∀ {a b : List Char},
    a.flatMap encodeChar = b.flatMap encodeChar → a = b
  | [], [], _ => rfl
  | [], d :: b, h => by
    rw [flatMap_nil, flatMap_cons] at h
    exact absurd (append_eq_nil_iff.mp h.symm).1 (encodeChar_ne_nil d)
  | c :: a, [], h => by
    rw [flatMap_nil, flatMap_cons] at h
    exact absurd (append_eq_nil_iff.mp h).1 (encodeChar_ne_nil c)
  | c :: a, d :: b, h => by
    rw [flatMap_cons, flatMap_cons] at h
    obtain ⟨rfl, htail⟩ := encodeChar_append h
    rw [flatMap_encodeChar_injective htail]

theorem encodeUtf16_injective {s t} (h : encodeUtf16 s = encodeUtf16 t) : s = t :=
  String.toList_inj.mp (flatMap_encodeChar_injective h)

instance : Std.TransCmp cmpUtf16 := inferInstanceAs (Std.TransCmp (compareOn encodeUtf16))

instance : Std.LawfulEqCmp cmpUtf16 where
  compare_self {s} := by
    show compare (encodeUtf16 s) (encodeUtf16 s) = .eq
    exact Std.ReflCmp.compare_self
  eq_of_compare {s t} h := by
    have hu : encodeUtf16 s = encodeUtf16 t := Std.LawfulEqCmp.eq_of_compare h
    exact encodeUtf16_injective hu

/-! ## Reading units back -/

/-- The character of a scalar value (`char::from_u32`). -/
def fromU32 (n : Nat) : Option Char :=
  if h : n.isValidChar then some (Char.ofNatAux n h) else none

theorem fromU32_eq_some {n} : fromU32 n = some c ↔ c.toNat = n := by
  unfold fromU32
  constructor
  · intro h
    by_cases hv : n.isValidChar
    · rw [dif_pos hv] at h
      cases h
      rfl
    · rw [dif_neg hv] at h
      cases h
  · intro h
    subst h
    have hv : c.toNat.isValidChar := c.valid
    rw [dif_pos hv]
    rfl

/-- The characters of one unit: a scalar value, no surrogate. -/
theorem encodeChar_eq_unit {n} (hn : n < 0x10000) :
    encodeChar c = [UInt16.ofNat n] ↔ ¬ (0xd800 ≤ n ∧ n < 0xe000) ∧ fromU32 n = some c := by
  have hs := scalar c
  rw [fromU32_eq_some]
  constructor
  · intro h
    by_cases hc : c.toNat < 0x10000
    · rw [encodeChar_bmp hc] at h
      have := ofNat_inj hc hn (List.cons.inj h).1
      omega
    · rw [encodeChar_astral hc] at h
      cases (List.cons.inj h).2
  · intro h
    rw [encodeChar_bmp (by omega), h.2]

/-- The scalar value of a surrogate pair. -/
def joinSurrogates (high low : Nat) : Nat := 0x10000 + (high - 0xd800) * 0x400 + (low - 0xdc00)

/-- The characters of two units: a high and a low surrogate. -/
theorem encodeChar_eq_pair {n m} (hn : n < 0x10000) (hm : m < 0x10000) :
    encodeChar c = [UInt16.ofNat n, UInt16.ofNat m] ↔
      (0xd800 ≤ n ∧ n < 0xdc00) ∧ (0xdc00 ≤ m ∧ m < 0xe000) ∧
        fromU32 (joinSurrogates n m) = some c := by
  have hs := scalar c
  rw [fromU32_eq_some]
  unfold joinSurrogates
  constructor
  · intro h
    by_cases hc : c.toNat < 0x10000
    · rw [encodeChar_bmp hc] at h
      cases (List.cons.inj h).2
    rw [encodeChar_astral hc] at h
    obtain ⟨hu, h'⟩ := List.cons.inj h
    have hhigh := ofNat_inj (by omega) hn hu
    obtain ⟨hl, -⟩ := List.cons.inj h'
    have hlow := ofNat_inj (by omega) hm hl
    omega
  · intro h
    have hhigh : 0xd800 + (c.toNat - 0x10000) / 0x400 = n := by omega
    have hlow : 0xdc00 + (c.toNat - 0x10000) % 0x400 = m := by omega
    rw [encodeChar_astral (by omega), hhigh, hlow]

end AgentArchivist.Lib.Utf16
