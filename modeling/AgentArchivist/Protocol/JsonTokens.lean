import AgentArchivist.Protocol.JsonGrammar

/-! # Whitespace, literals and numbers

What the parser's smallest steps read, in both directions: a step that succeeds
spans a text of the grammar, and the text of the grammar is read whole where the
next byte cannot belong to it. -/
namespace AgentArchivist.Protocol.JsonTokens
open Lib List
open Json JsonGrammar Decimal Fallible Fallible.Cursor Utf8

variable {c c' : Cursor UInt8}

theorem isWs_iff {b} : isWs b = true ↔ b = 0x20 ∨ b = 0x09 ∨ b = 0x0a ∨ b = 0x0d := by
  simp [isWs, or_assoc]

theorem blank_iff {w} : Blank w ↔ w.all isWs = true := by
  simp [Blank, isWs_iff]

theorem skipWs_spans (c : Cursor UInt8) : ∃ w, Blank w ∧ Spans c w (skipWs c) :=
  ⟨_, blank_iff.mpr (all_takeWhile), spans_skipWhile isWs c⟩

/-- Whitespace is skipped up to the first byte that is none. -/
theorem skipWs_eq {w} (h : Spans c w c') (hw : Blank w)
    (hb : ∀ b, c'.peek = some b → isWs b = false) : skipWs c = c' :=
  h.skipWhile_eq (blank_iff.mp hw) hb

theorem expect_ok {byte} : expect byte c = .ok c' ↔ Spans c [byte] c' := by
  rw [expect, require_eq_ok]
  constructor
  · rintro ⟨hp, h⟩
    cases h
    exact spans_peek hp
  · exact fun h => ⟨h.peek, congrArg Except.ok h.eq_advance⟩

theorem literal_ok {word} : literal word c = .ok c' ↔ Spans c (utf8 word) c' := by
  rw [literal, require_eq_ok]
  constructor
  · rintro ⟨⟨rest, hrest⟩, h⟩
    cases h
    exact spans_advance hrest.symm
  · exact fun h => ⟨⟨c'.rest, h.rest.symm⟩, congrArg Except.ok h.eq_advance⟩

/-! ## Numbers -/

theorem any_eq_false {p : UInt8 → Bool} {o} : o.any p = false ↔ ∀ b, o = some b → p b = false := by
  cases o <;> simp

/-- No digit follows. -/
def NoDigit (c : Cursor UInt8) : Prop := ∀ b, c.peek = some b → isDigit b = false

/-- Nothing that could continue a number follows. -/
def Ends (c : Cursor UInt8) : Prop :=
  ∀ b, c.peek = some b → isDigit b = false ∧ startsFraction b = false

theorem whole_zero : Whole [0x30] := by
  refine ⟨by simp, rfl, ?_⟩
  intro rest h
  exact (List.cons.inj h).2.symm

theorem integerPart_ok : integerPart c = .ok c' ↔ ∃ ds, Whole ds ∧ Spans c ds c' ∧ NoDigit c' := by
  unfold integerPart
  constructor
  · intro h
    split at h
    · rename_i hp
      split at h
      case isTrue => cases h
      case isFalse hd =>
        cases h
        exact ⟨_, whole_zero, spans_peek hp, any_eq_false.mp (Bool.eq_false_iff.mpr hd)⟩
    · rename_i b hne hp
      split at h
      case isTrue hd =>
        cases h
        obtain ⟨rest, hrest⟩ := head?_eq_some_iff.mp hp
        refine ⟨_, ⟨?_, all_takeWhile, ?_⟩, spans_skipWhile isDigit c, fun _ => peek_skipWhile⟩
        · rw [hrest, takeWhile_cons_of_pos hd]
          simp
        · intro tail htail
          rw [hrest, takeWhile_cons_of_pos hd] at htail
          exact absurd (List.cons.inj htail).1 hne
      case isFalse => cases h
    · cases h
  · intro ⟨ds, hw, hs, hn⟩
    obtain ⟨d, rest, rfl, hd⟩ := hw.head
    by_cases hz : d = 0x30
    · subst hz
      obtain rfl := hw.leading rest rfl
      have hadv : c.advance 1 = c' := hs.eq_advance
      rw [hs.peek, hadv, any_eq_false.mpr hn]
      rfl
    · rw [hs.peek]
      split
      · rename_i heq
        exact absurd (Option.some.inj heq) hz
      · rename_i b _ heq
        obtain rfl := Option.some.inj heq
        rw [if_pos hd, hs.skipWhile_eq hw.digits hn]
      · rename_i heq
        cases heq

/-- The number an in-domain spelling denotes. -/
theorem parseI64_number {n : Number} (hf : n.fraction = []) (he : n.exponent = []) :
    parseI64 n.bytes = inI64 n.integer := by
  have hm := n.whole_text.magnitude_eq
  unfold Number.bytes Number.integer
  rw [hf, he, append_nil, append_nil]
  cases n.negative with
  | true =>
    show (magnitude n.whole).bind (fun k => inI64 (-k)) = _
    rw [hm, Option.bind_some, if_pos rfl]
  | false =>
    show parseI64 n.whole = _
    rw [n.whole_text.not_sign, hm, Option.bind_some, if_neg Bool.false_ne_true]

theorem ascii_of_isDigit {b} (h : isDigit b = true) : b < 0x80 := by
  simp only [isDigit, Bool.and_eq_true, decide_eq_true_eq] at h
  exact UInt8.lt_of_le_of_lt h.2 (by decide)

theorem bytes_ascii {n : Number} (hf : n.fraction = []) (he : n.exponent = []) :
    ∀ b ∈ n.bytes, b < 0x80 := by
  intro b hb
  unfold Number.bytes at hb
  rw [hf, he, append_nil, append_nil] at hb
  rcases mem_append.mp hb with hb | hb
  · split at hb
    · obtain rfl := mem_singleton.mp hb
      decide
    · cases hb
  · exact ascii_of_isDigit (all_eq_true.mp n.whole_text.digits b hb)

/-- Where the digits start: the parser looks for the sign by its byte. -/
theorem sign_cut {n : Number} (hf : n.fraction = []) (he : n.exponent = [])
    (h : Spans c n.bytes c') :
    Spans (if c.peek = some 0x2d then c.advance 1 else c) n.whole c' := by
  unfold Number.bytes at h
  rw [hf, he, append_nil, append_nil] at h
  cases hneg : n.negative with
  | true =>
    rw [hneg] at h
    obtain ⟨c1, hsign, hwhole⟩ := h.split
    have hadv : c.advance 1 = c1 := hsign.eq_advance
    rwa [if_pos hsign.peek, hadv]
  | false =>
    rw [hneg] at h
    obtain ⟨d, rest, hd, hdigit⟩ := n.whole_text.head
    have hs : Spans c n.whole c' := h
    have hp : c.peek = some d := (hd ▸ hs).peek
    have hne : ¬ c.peek = some 0x2d := by
      intro hminus
      obtain rfl := Option.some.inj (hp.symm.trans hminus)
      cases hdigit
    rwa [if_neg hne]

/-- The parser's numbers are the integers of the domain, read as far as digits go. -/
theorem number_ok {v} : number c = .ok (v, c') ↔
    ∃ n : Number, InDomain (.number n) ∧ v = denote (.number n) ∧ Spans c n.bytes c' ∧ Ends c' := by
  constructor
  · intro h
    obtain ⟨c1, hint, h⟩ := bind_eq_ok.mp h
    obtain ⟨ds, hwhole, hspan, hnodigit⟩ := integerPart_ok.mp hint
    split at h
    case isTrue => cases h
    case isFalse hfrac =>
      let n : Number := ⟨decide (c.peek = some 0x2d), ds, [], [], hwhole, .inl rfl, .inl rfl⟩
      have hbytes : Spans c n.bytes c1 := by
        show Spans c ((if decide (c.peek = some 0x2d) = true then [0x2d] else []) ++ ds ++ [] ++ []) c1
        rw [append_nil, append_nil]
        by_cases hm : c.peek = some 0x2d
        · rw [if_pos hm] at hspan
          rw [if_pos (decide_eq_true hm)]
          exact (spans_peek hm).append hspan
        · rw [if_neg hm] at hspan
          rw [if_neg (by simpa using hm)]
          exact hspan
      rw [hbytes.take] at h
      split at h
      · cases h
      rename_i text htext
      rw [fromUtf8_eq_some.mp htext, parseI64_number rfl rfl] at h
      split at h
      · rename_i k hk
        cases h
        obtain ⟨hrange, rfl⟩ := inI64_eq_some.mp hk
        refine ⟨n, .number rfl rfl hrange, rfl, hbytes, ?_⟩
        intro b hb
        exact ⟨hnodigit b hb, any_eq_false.mp (Bool.eq_false_iff.mpr hfrac) b hb⟩
      · cases h
  · intro ⟨n, hdom, hv, hspan, hends⟩
    cases hdom with
    | number hf he hrange =>
      have hint : integerPart (if c.peek = some 0x2d then c.advance 1 else c) = .ok c' :=
        integerPart_ok.mpr ⟨n.whole, n.whole_text, sign_cut hf he hspan, fun b hb => (hends b hb).1⟩
      have hfrac : c'.peek.any startsFraction = false :=
        any_eq_false.mpr fun b hb => (hends b hb).2
      obtain ⟨text, htext⟩ := fromUtf8_ascii (bytes_ascii hf he)
      have hparse : parseI64 (utf8 text) = some (Int64.ofInt n.integer) := by
        rw [fromUtf8_eq_some.mp htext, parseI64_number hf he]
        exact inI64_eq_some.mpr ⟨hrange, rfl⟩
      refine bind_eq_ok.mpr ⟨c', hint, ?_⟩
      rw [hfrac, hspan.take, htext]
      simp only [hparse, hv, Bool.false_eq_true, if_false]
      rfl

end AgentArchivist.Protocol.JsonTokens
