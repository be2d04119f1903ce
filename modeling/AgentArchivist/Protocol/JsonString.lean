import AgentArchivist.Protocol.JsonTokens

/-! # Strings

The parser reads a string by runs of plain bytes, each checked to be UTF-8 as a
whole, with escapes between them; the grammar reads it by characters. A run is the
characters it encodes (`body_of_run`), and prepending one plain character to a
string prepends it to the parser's first run (`stringFrom_plain`). -/
namespace AgentArchivist.Protocol.JsonString
open Lib List
open Json JsonGrammar JsonTokens Fallible Fallible.Cursor Utf8 Utf16

variable {c c' : Cursor UInt8}

/-! ## Hex digits -/

theorem hexDigit_iff {b n} : hexDigit b = some n ↔ HexDigit b n := by
  unfold hexDigit HexDigit
  simp only [UInt8.le_iff_toNat_le]
  have h0 : (0x30 : UInt8).toNat = 0x30 := rfl
  have h9 : (0x39 : UInt8).toNat = 0x39 := rfl
  have ha : (0x61 : UInt8).toNat = 0x61 := rfl
  have hf : (0x66 : UInt8).toNat = 0x66 := rfl
  have hA : (0x41 : UInt8).toNat = 0x41 := rfl
  have hF : (0x46 : UInt8).toNat = 0x46 := rfl
  split
  · simp only [Option.some.injEq]
    omega
  split
  · simp only [Option.some.injEq]
    omega
  split
  · simp only [Option.some.injEq]
    omega
  · simp only [reduceCtorEq, false_iff]
    omega

theorem hexDigits_succ {n acc r} :
    hexDigits (n + 1) acc c = .ok r ↔
      ∃ b d, HexDigit b d ∧ c.peek = some b ∧ hexDigits n (acc * 16 + d) (c.advance 1) = .ok r := by
  simp only [hexDigits]
  constructor
  · intro h
    split at h
    · rename_i d hd
      obtain ⟨b, hb, hbd⟩ := Option.bind_eq_some_iff.mp hd
      exact ⟨b, d, hexDigit_iff.mp hbd, hb, h⟩
    · cases h
  · intro ⟨b, d, hd, hb, h⟩
    rw [hb, Option.bind_some, hexDigit_iff.mpr hd]
    exact h

theorem hex4_ok {n} : hex4 c = .ok (n, c') ↔ ∃ quad, HexQuad quad n ∧ Spans c quad c' := by
  unfold hex4
  constructor
  · intro h
    split at h
    case isTrue => cases h
    case isFalse =>
      obtain ⟨a, w, ha, hpa, h⟩ := hexDigits_succ.mp h
      obtain ⟨b, x, hb, hpb, h⟩ := hexDigits_succ.mp h
      obtain ⟨d, y, hd, hpd, h⟩ := hexDigits_succ.mp h
      obtain ⟨e, z, he, hpe, h⟩ := hexDigits_succ.mp h
      cases h
      have hn : w * 0x1000 + x * 0x100 + y * 0x10 + z
          = (((0 * 16 + w) * 16 + x) * 16 + y) * 16 + z := by omega
      refine ⟨[a, b, d, e], hn ▸ .mk ha hb hd he, ?_⟩
      simp [spans_cons, spans_nil, hpa, hpb, hpd, hpe]
  · intro ⟨quad, hq, hs⟩
    cases hq with
    | @mk a b d e w x y z ha hb hd he =>
      have hlen : ¬ c.rest.length < 4 := by
        rw [hs.length]
        simp
      simp only [spans_cons, spans_nil] at hs
      obtain ⟨hpa, hpb, hpd, hpe, rfl⟩ := hs
      rw [if_neg hlen]
      refine hexDigits_succ.mpr ⟨a, w, ha, hpa, hexDigits_succ.mpr ⟨b, x, hb, hpb,
        hexDigits_succ.mpr ⟨d, y, hd, hpd, hexDigits_succ.mpr ⟨e, z, he, hpe, ?_⟩⟩⟩⟩
      have hn : (((0 * 16 + w) * 16 + x) * 16 + y) * 16 + z
          = w * 0x1000 + x * 0x100 + y * 0x10 + z := by omega
      rw [hn]
      rfl

theorem hexQuad_lt {quad n} (h : HexQuad quad n) : n < 0x10000 := by
  cases h with
  | mk ha hb hc hd =>
    unfold HexDigit at ha hb hc hd
    omega

/-! ## Escapes -/

variable {ch : Char}

theorem simpleEscape_iff {b} (hu : b ≠ 0x75) :
    simpleEscape b = some ch ↔ EscapeText [0x5c, b] ch := by
  constructor
  · intro h
    unfold simpleEscape at h
    split at h <;> cases h
    · exact .quote
    · exact .backslash
    · exact .slash
    · exact .backspace
    · exact .formFeed
    · exact .lineFeed
    · exact .carriageReturn
    · exact .tab
  · intro h
    generalize ht : [0x5c, b] = text at h
    cases h with
    | unit hunit =>
      cases hunit with
      | mk => exact absurd (List.cons.inj (List.cons.inj ht).2).1 hu
    | pair hhigh =>
      cases hhigh with
      | mk => exact absurd (List.cons.inj (List.cons.inj ht).2).1 hu
    | _ =>
      obtain rfl := (List.cons.inj (List.cons.inj ht).2).1
      rfl

theorem codePoint_ok {n r} : codePoint n c = .ok (ch, r) ↔ fromU32 n = some ch ∧ c = r := by
  unfold codePoint
  cases fromU32 n with
  | none => simp
  | some d => simp [Prod.ext_iff]

/-- An escape that succeeds spans the text of one. -/
theorem escape_sound (h : escape c = .ok (ch, c')) :
    ∃ text, EscapeText (0x5c :: text) ch ∧ Spans c text c' := by
  unfold escape at h
  split at h
  · rename_i hp
    obtain ⟨⟨first, c1⟩, hhex, h⟩ := bind_eq_ok.mp h
    obtain ⟨quad, hq, hs⟩ := hex4_ok.mp hhex
    have hfirst : Spans c (0x75 :: quad) c1 := spans_cons.mpr ⟨hp, hs⟩
    simp only at h
    split at h
    case isTrue hhigh =>
      obtain ⟨hslash, h⟩ := refuse_eq_ok.mp h
      obtain ⟨hu, h⟩ := refuse_eq_ok.mp h
      obtain ⟨⟨second, c2⟩, hhex', h⟩ := bind_eq_ok.mp h
      obtain ⟨quad', hq', hs'⟩ := hex4_ok.mp hhex'
      obtain ⟨hlow, h⟩ := require_eq_ok.mp h
      obtain ⟨hch, rfl⟩ := codePoint_ok.mp h
      have hunits := (encodeChar_eq_pair (hexQuad_lt hq) (hexQuad_lt hq')).mpr ⟨hhigh, hlow, hch⟩
      have hsecond : Spans c1 (0x5c :: 0x75 :: quad') c2 :=
        spans_cons.mpr ⟨not_not.mp hslash, spans_cons.mpr ⟨not_not.mp hu, hs'⟩⟩
      exact ⟨_, .pair (.mk hq) (.mk hq') hunits, hfirst.append hsecond⟩
    case isFalse hhigh =>
      obtain ⟨hlow, h⟩ := refuse_eq_ok.mp h
      obtain ⟨hch, rfl⟩ := codePoint_ok.mp h
      have hunit := (encodeChar_eq_unit (hexQuad_lt hq)).mpr ⟨by omega, hch⟩
      exact ⟨_, .unit (.mk hq) hunit, hfirst⟩
  · rename_i b hb hp
    split at h
    · rename_i d hd
      cases h
      exact ⟨[b], (simpleEscape_iff hb).mp hd, spans_peek hp⟩
    · cases h
  · cases h

theorem escape_complete {text} (ht : EscapeText (0x5c :: text) ch) (hs : Spans c text c') :
    escape c = .ok (ch, c') := by
  generalize hfull : 0x5c :: text = full at ht
  cases ht with
  | unit hunit hc =>
    cases hunit with
    | mk hq =>
      obtain rfl := (List.cons.inj hfull).2
      obtain ⟨hp, hs⟩ := spans_cons.mp hs
      obtain ⟨hsurr, hch⟩ := (encodeChar_eq_unit (hexQuad_lt hq)).mp hc
      unfold escape
      rw [hp]
      refine bind_eq_ok.mpr ⟨_, hex4_ok.mpr ⟨_, hq, hs⟩, ?_⟩
      simp only
      rw [if_neg (by omega), if_neg (by omega)]
      exact codePoint_ok.mpr ⟨hch, rfl⟩
  | pair hhigh hlow hc =>
    cases hhigh with
    | mk hq =>
      cases hlow with
      | mk hq' =>
        obtain rfl := (List.cons.inj hfull).2
        obtain ⟨hh, hl, hch⟩ := (encodeChar_eq_pair (hexQuad_lt hq) (hexQuad_lt hq')).mp hc
        obtain ⟨c1, hs1, hs2⟩ := hs.split
        obtain ⟨hp, hs1⟩ := spans_cons.mp hs1
        obtain ⟨hslash, hs2⟩ := spans_cons.mp hs2
        obtain ⟨hu, hs2⟩ := spans_cons.mp hs2
        unfold escape
        rw [hp]
        refine bind_eq_ok.mpr ⟨_, hex4_ok.mpr ⟨_, hq, hs1⟩, ?_⟩
        simp only
        rw [if_pos hh, if_neg (not_not.mpr hslash), if_neg (not_not.mpr hu)]
        refine bind_eq_ok.mpr ⟨_, hex4_ok.mpr ⟨_, hq', hs2⟩, ?_⟩
        simp only
        rw [if_pos hl]
        exact codePoint_ok.mpr ⟨hch, rfl⟩
  | _ =>
    obtain rfl := (List.cons.inj hfull).2
    simp only [spans_cons, spans_nil] at hs
    obtain ⟨hp, rfl⟩ := hs
    unfold escape
    rw [hp]
    rfl

/-! ## Runs of plain bytes -/

theorem chunk_ok {run text} : chunk run c = .ok text ↔ utf8 text = run := by
  unfold chunk
  split
  case isTrue h =>
    rw [h, utf8_eq_nil, Except.ok.injEq]
    exact eq_comm
  case isFalse =>
    rw [← fromUtf8_eq_some]
    cases fromUtf8 run with
    | none | some => simp

/-- A character stands for itself exactly when its bytes are plain. -/
theorem plain_iff : (String.utf8EncodeChar ch).all isPlain = true ↔ Unescaped ch := by
  have hquote : ch ≠ '\x22' ↔ ch.toNat ≠ 0x22 := not_congr Char.toNat_inj.symm
  have hslash : ch ≠ '\x5c' ↔ ch.toNat ≠ 0x5c := not_congr Char.toNat_inj.symm
  unfold Unescaped
  rw [hquote, hslash]
  by_cases hascii : ch.toNat < 0x80
  · have hbyte : (UInt8.ofNat ch.toNat).toNat = ch.toNat := by
      refine UInt8.toNat_ofNat_of_lt' ?_
      show ch.toNat < 256
      omega
    rw [utf8EncodeChar_ascii hascii]
    simp only [isPlain, all_cons, all_nil, Bool.and_true, Bool.and_eq_true, bne_iff_ne,
      decide_eq_true_eq, ne_eq, ← UInt8.toNat_inj, UInt8.le_iff_toNat_le, hbyte, and_assoc]
    rfl
  · have hhigh := utf8EncodeChar_high (Nat.le_of_not_lt hascii)
    refine ⟨fun _ => by omega, fun _ => all_eq_true.mpr ?_⟩
    intro b hb
    have hb' : 0x80 ≤ b.toNat := UInt8.le_iff_toNat_le.mp (hhigh b hb)
    simp only [isPlain, Bool.and_eq_true, bne_iff_ne, decide_eq_true_eq, ne_eq,
      ← UInt8.toNat_inj, UInt8.le_iff_toNat_le]
    refine ⟨⟨?_, ?_⟩, ?_⟩
    · show b.toNat ≠ 0x22
      omega
    · show b.toNat ≠ 0x5c
      omega
    · show 0x20 ≤ b.toNat
      omega

/-- A run of plain bytes is the characters it encodes. -/
theorem body_of_run {text : String} {body cs} (h : (utf8 text).all isPlain = true)
    (hb : StringBody body cs) : StringBody (utf8 text ++ body) (text.toList ++ cs) := by
  rw [utf8_eq_flatMap] at h ⊢
  generalize text.toList = chars at h ⊢
  induction chars with
  | nil => exact hb
  | cons ch chars ih =>
    rw [flatMap_cons, all_append, Bool.and_eq_true] at h
    rw [flatMap_cons, append_assoc]
    exact .plain (plain_iff.mp h.1) (ih h.2)

/-! ## Strings -/

variable {r : String × Cursor UInt8} {out : String}

theorem afterRun_ok {next : String → Cursor UInt8 → Result (String × Cursor UInt8)}
    : afterRun next out c = .ok r ↔
      (c.peek = some 0x22 ∧ r = (out, c.advance 1)) ∨
      (c.peek = some 0x5c ∧ ∃ ch c₁, escape (c.advance 1) = .ok (ch, c₁) ∧
        next (out.push ch) c₁ = .ok r) := by
  unfold afterRun
  split
  · rename_i hp
    simp [hp, eq_comm]
  · rename_i hp
    simp only [hp, bind_eq_ok, Prod.exists]
    simp
  · rename_i b hq hs hp
    have hq' : c.peek ≠ some 0x22 := fun h => hq (Option.some.inj (hp.symm.trans h))
    have hs' : c.peek ≠ some 0x5c := fun h => hs (Option.some.inj (hp.symm.trans h))
    split <;> simp [hq', hs']
  · rename_i hp
    simp [hp]

theorem stringFrom_ok {fuel} :
    stringFrom (fuel + 1) out c = .ok r ↔ ∃ text, utf8 text = c.rest.takeWhile isPlain ∧
      afterRun (stringFrom fuel) (out ++ text) (c.skipWhile isPlain) = .ok r := by
  simp [stringFrom, bind_eq_ok, chunk_ok]

/-- What the string loop returns is the text of a string body and its closing quote. -/
theorem stringFrom_sound : ∀ {fuel : Nat} {out s : String} {c c' : Cursor UInt8},
    stringFrom fuel out c = .ok (s, c') →
    ∃ body cs, StringBody body cs ∧ Spans c (body ++ [0x22]) c' ∧ s.toList = out.toList ++ cs
  | 0, _, _, _, _, h => by cases h
  | fuel + 1, out, s, c, c', h => by
    obtain ⟨text, hrun, h⟩ := stringFrom_ok.mp h
    have hspan : Spans c (utf8 text) (c.skipWhile isPlain) := hrun ▸ spans_skipWhile isPlain c
    have hplain : (utf8 text).all isPlain = true := hrun ▸ all_takeWhile
    rcases afterRun_ok.mp h with ⟨hquote, heq⟩ | ⟨hslash, ch, c₁, hesc, hnext⟩
    · obtain ⟨rfl, rfl⟩ := Prod.mk.inj heq
      refine ⟨utf8 text ++ [], text.toList ++ [], body_of_run hplain .nil, ?_, ?_⟩
      · rw [append_nil]
        exact hspan.append (spans_peek hquote)
      · rw [append_nil, String.toList_append]
    · obtain ⟨seq, hseq, hs⟩ := escape_sound hesc
      obtain ⟨body, cs, hbody, hbs, hout⟩ := stringFrom_sound hnext
      refine ⟨utf8 text ++ (0x5c :: seq ++ body), text.toList ++ ch :: cs,
        body_of_run hplain (.escape hseq hbody), ?_, ?_⟩
      · have hseq' : Spans (c.skipWhile isPlain) (0x5c :: seq) c₁ := spans_cons.mpr ⟨hslash, hs⟩
        rw [append_assoc, append_assoc]
        exact hspan.append (hseq'.append hbs)
      · simp [hout]

/-- One more plain character in front lengthens the first run. -/
theorem stringFrom_plain {fuel c₁} (hch : Unescaped ch) (hs : Spans c (String.utf8EncodeChar ch) c₁)
    (h : stringFrom (fuel + 1) (out.push ch) c₁ = .ok r) : stringFrom (fuel + 1) out c = .ok r := by
  obtain ⟨text, hrun, h⟩ := stringFrom_ok.mp h
  have hplain := plain_iff.mpr hch
  have htake : c.rest.takeWhile isPlain
      = String.utf8EncodeChar ch ++ c₁.rest.takeWhile isPlain := by
    rw [hs.rest, takeWhile_append_of_pos (all_eq_true.mp hplain)]
  have hskip : c.skipWhile isPlain = c₁.skipWhile isPlain := by
    have hlong := hs.append (spans_skipWhile isPlain c₁)
    rw [← htake] at hlong
    exact (spans_skipWhile isPlain c).unique hlong
  refine stringFrom_ok.mpr ⟨String.ofList [ch] ++ text, ?_, ?_⟩
  · rw [utf8_append, utf8_ofList, hrun, htake]
    simp
  have hout : out ++ (String.ofList [ch] ++ text) = out.push ch ++ text := by
    apply String.toList_inj.mp
    simp
  rw [hout, hskip]
  exact h

theorem stringFrom_stop {fuel b} (hb : c.peek = some b) (hp : isPlain b = false)
    (h : afterRun (stringFrom fuel) out c = .ok r) : stringFrom (fuel + 1) out c = .ok r := by
  have hskip : c.skipWhile isPlain = c := by
    refine (Spans.nil c).skipWhile_eq rfl ?_
    intro a ha
    rw [hb] at ha
    cases ha
    exact hp
  have htake : c.rest.takeWhile isPlain = [] := by
    obtain ⟨rest, hrest⟩ := head?_eq_some_iff.mp hb
    rw [hrest, takeWhile_cons_of_neg (by simp [hp])]
  refine stringFrom_ok.mpr ⟨"", htake.symm, ?_⟩
  rw [String.append_empty, hskip]
  exact h

theorem escapeText_cons {seq} (h : EscapeText seq ch) : ∃ text, seq = 0x5c :: text := by
  cases h with
  | unit hunit =>
    cases hunit
    exact ⟨_, rfl⟩
  | pair hhigh =>
    cases hhigh
    exact ⟨_, rfl⟩
  | _ => exact ⟨_, rfl⟩

theorem push_ofList (out : String) (ch : Char) (cs : List Char) :
    out.push ch ++ String.ofList cs = out ++ String.ofList (ch :: cs) := by
  apply String.toList_inj.mp
  simp

/-- The string loop reads any string body, given a turn for each of its bytes. -/
theorem stringFrom_complete {body} {cs} (h : StringBody body cs) :
    ∀ {fuel : Nat} {out : String} {c : Cursor UInt8}, body.length < fuel →
      Spans c (body ++ [0x22]) c' → stringFrom fuel out c = .ok (out ++ String.ofList cs, c') := by
  induction h with
  | nil =>
    intro fuel out c hfuel hs
    obtain ⟨fuel, rfl⟩ := Nat.exists_eq_succ_of_ne_zero (Nat.ne_of_gt hfuel)
    obtain ⟨hp, hs⟩ := spans_cons.mp hs
    obtain rfl := spans_nil.mp hs
    exact stringFrom_stop hp rfl (afterRun_ok.mpr (.inl ⟨hp, by simp⟩))
  | @plain ch text cs hch _ ih =>
    intro fuel out c hfuel hs
    rw [length_append] at hfuel
    rw [append_assoc] at hs
    obtain ⟨c1, hchar, hs⟩ := hs.split
    obtain ⟨fuel, rfl⟩ := Nat.exists_eq_succ_of_ne_zero (by omega : fuel ≠ 0)
    exact stringFrom_plain hch hchar (push_ofList out ch cs ▸ ih (by omega) hs)
  | @escape seq ch text cs hseq _ ih =>
    intro fuel out c hfuel hs
    rw [length_append] at hfuel
    rw [append_assoc] at hs
    obtain ⟨c1, hesc, hrest⟩ := hs.split
    obtain ⟨tail, rfl⟩ := escapeText_cons hseq
    obtain ⟨fuel, rfl⟩ := Nat.exists_eq_succ_of_ne_zero (by omega : fuel ≠ 0)
    obtain ⟨hp, hesc⟩ := spans_cons.mp hesc
    rw [length_cons] at hfuel
    refine stringFrom_stop hp rfl (afterRun_ok.mpr (.inr ⟨hp, ch, c1, escape_complete hseq hesc, ?_⟩))
    exact push_ofList out ch cs ▸ ih (by omega) hrest

/-- The parser's strings are the grammar's. -/
theorem string_ok {s} : string c = .ok (s, c') ↔ ∃ text, StringText text s ∧ Spans c text c' := by
  unfold string
  simp only [bind_eq_ok, expect_ok]
  constructor
  · intro ⟨c1, hquote, h⟩
    obtain ⟨body, cs, hbody, hs, hout⟩ := stringFrom_sound h
    have hcs : s.toList = cs := hout
    exact ⟨_, ⟨body, hcs ▸ hbody, rfl⟩, hquote.append hs⟩
  · intro ⟨text, ⟨body, hbody, htext⟩, hs⟩
    subst htext
    obtain ⟨hp, hs⟩ := spans_cons.mp hs
    refine ⟨c.advance 1, spans_peek hp, ?_⟩
    have hfuel : body.length < (c.advance 1).rest.length + 1 := by
      rw [hs.length, length_append]
      omega
    have h : stringFrom _ "" _ = .ok ("" ++ String.ofList s.toList, c') :=
      stringFrom_complete hbody hfuel hs
    rwa [String.empty_append, String.ofList_toList] at h

end AgentArchivist.Protocol.JsonString
