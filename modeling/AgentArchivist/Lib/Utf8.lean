import Mathlib.Data.List.Basic

/-! # Strings as their UTF-8 bytes

`utf8 s` are the bytes of a string and `fromUtf8 b` is the string a byte
sequence encodes, if it is well-formed UTF-8. The two are inverse
(`fromUtf8_eq_some`), so everything about decoding follows from the encoding. -/
namespace AgentArchivist.Lib.Utf8

/-- The UTF-8 bytes of a string (`str::as_bytes`). -/
def utf8 (s : String) : List UInt8 := s.toByteArray.data.toList

/-- The string a byte sequence encodes (`str::from_utf8`). -/
def fromUtf8 (b : List UInt8) : Option String := String.fromUTF8? ⟨b.toArray⟩

theorem fromUtf8_eq_some {b s} : fromUtf8 b = some s ↔ utf8 s = b := by
  unfold fromUtf8 String.fromUTF8? utf8
  constructor
  · intro h
    split at h
    · cases h; simp [String.fromUTF8]
    · cases h
  · rintro rfl
    have : (⟨s.toByteArray.data.toList.toArray⟩ : ByteArray) = s.toByteArray := by simp
    simp [this, s.isValidUTF8, String.fromUTF8]

@[simp] theorem fromUtf8_utf8 (s : String) : fromUtf8 (utf8 s) = some s :=
  fromUtf8_eq_some.mpr rfl

theorem utf8_injective {s t} (h : utf8 s = utf8 t) : s = t :=
  Option.some.inj ((fromUtf8_utf8 s).symm.trans (h ▸ fromUtf8_utf8 t))

@[simp] theorem utf8_append (s t : String) : utf8 (s ++ t) = utf8 s ++ utf8 t := by
  simp [utf8]

@[simp] theorem utf8_eq_nil {s : String} : utf8 s = [] ↔ s = "" := by
  constructor
  · intro h; exact utf8_injective (h.trans rfl)
  · rintro rfl; rfl

@[simp] theorem utf8_length (s : String) : (utf8 s).length = s.utf8ByteSize := by
  rfl

/-- The bytes of a string are those of its characters. -/
theorem utf8_eq_flatMap (s : String) : utf8 s = s.toList.flatMap String.utf8EncodeChar := by
  rw [utf8, ← String.utf8Encode_toList]
  simp [List.utf8Encode]

theorem utf8_ofList (l : List Char) : utf8 (String.ofList l) = l.flatMap String.utf8EncodeChar := by
  rw [utf8_eq_flatMap, String.toList_ofList]

theorem utf8EncodeChar_ascii {c} (h : c.toNat < 0x80) :
    String.utf8EncodeChar c = [UInt8.ofNat c.toNat] := by
  have h' : c.val.toNat ≤ 0x7f := Nat.le_of_lt_succ h
  rw [String.utf8EncodeChar, if_pos h']
  rfl

/-- The bytes of a character outside ASCII are outside ASCII. -/
theorem utf8EncodeChar_high {c} (h : 0x80 ≤ c.toNat) : ∀ b ∈ String.utf8EncodeChar c, 0x80 ≤ b := by
  have hbyte : ∀ n, 0x80 ≤ n → n < 256 → 0x80 ≤ UInt8.ofNat n := by
    intro n hn hlt
    rw [UInt8.le_iff_toNat_le, UInt8.toNat_ofNat_of_lt' hlt]
    exact hn
  have h' : ¬ c.val.toNat ≤ 0x7f := Nat.not_le_of_lt h
  intro b hb
  rw [String.utf8EncodeChar, if_neg h'] at hb
  simp only [List.mem_cons, List.not_mem_nil, or_false, apply_ite (b ∈ ·)] at hb
  split at hb
  · rcases hb with rfl | rfl <;> exact hbyte _ (by omega) (by omega)
  · split at hb
    · rcases hb with rfl | rfl | rfl <;> exact hbyte _ (by omega) (by omega)
    · rcases hb with rfl | rfl | rfl | rfl <;> exact hbyte _ (by omega) (by omega)

/-- ASCII bytes are text. -/
theorem fromUtf8_ascii {b} (h : ∀ x ∈ b, x < 0x80) : ∃ s, fromUtf8 b = some s := by
  have table : ∀ x : Fin 128, String.utf8EncodeChar (Char.ofNat x) = [UInt8.ofNat x] := by decide
  have hchar : ∀ x : UInt8, x < 0x80 → String.utf8EncodeChar (Char.ofNat x.toNat) = [x] := by
    intro x hx
    have hx' : x.toNat < 128 := UInt8.lt_iff_toNat_lt.mp hx
    have := table ⟨x.toNat, hx'⟩
    rwa [UInt8.ofNat_toNat] at this
  refine ⟨String.ofList (b.map fun x => Char.ofNat x.toNat), fromUtf8_eq_some.mpr ?_⟩
  rw [utf8_ofList]
  induction b with
  | nil => rfl
  | cons x b ih =>
    obtain ⟨hx, hb⟩ := List.forall_mem_cons.mp h
    rw [List.map_cons, List.flatMap_cons, hchar x hx, ih hb]
    rfl

end AgentArchivist.Lib.Utf8
