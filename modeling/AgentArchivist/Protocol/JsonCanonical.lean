import AgentArchivist.Protocol.JsonAccept

/-! # Canonical bytes

What the writer writes is a text of the grammar: `treeOf v` is its tree, a value's
own structure with its numbers spelled out. So a well-formed value is what its
canonical bytes parse to, and canonical bytes determine the value. -/
namespace AgentArchivist.Protocol.JsonCanonical
open Lib List
open Json JsonGrammar JsonAccept Decimal Fallible SortedMap Utf8 Utf16

mutual
/-- The most arrays and objects around any part of a value. -/
def valueDepth : Value → Nat
  | .array items => itemsDepth items
  | .object members => membersDepth members
  | _ => 0
def itemsDepth : List Value → Nat
  | [] => 0
  | v :: rest => max (valueDepth v + 1) (itemsDepth rest)
def membersDepth : List (String × Value) → Nat
  | [] => 0
  | (_, v) :: rest => max (valueDepth v + 1) (membersDepth rest)
end

/-- An integer as the writer spells it. -/
def numberOf (n : Int64) : Number where
  negative := n.toInt < 0
  whole := decimal n.toInt.natAbs
  fraction := []
  exponent := []
  whole_text := (decimal_spec _).1
  fraction_text := .inl rfl
  exponent_text := .inl rfl

mutual
/-- A value as a syntax tree. -/
def treeOf : Value → Tree
  | .null => .null
  | .bool b => .bool b
  | .int n => .number (numberOf n)
  | .text s => .text s
  | .array items => .array (treeItems items)
  | .object members => .object (treeMembers members)
def treeItems : List Value → List Tree
  | [] => []
  | v :: rest => treeOf v :: treeItems rest
def treeMembers : List (String × Value) → List (String × Tree)
  | [] => []
  | (name, v) :: rest => (name, treeOf v) :: treeMembers rest
end

theorem treeItems_eq_map : ∀ vs : List Value, treeItems vs = vs.map treeOf
  | [] => rfl
  | v :: vs => by rw [treeItems, treeItems_eq_map vs, map_cons]

theorem treeMembers_eq_map : ∀ ms : List (String × Value),
    treeMembers ms = ms.map fun m => (m.1, treeOf m.2)
  | [] => rfl
  | (name, v) :: ms => by rw [treeMembers, treeMembers_eq_map ms, map_cons]

theorem itemsDepth_lt {n} : ∀ {vs : List Value},
    itemsDepth vs < n + 1 ↔ ∀ v ∈ vs, valueDepth v < n
  | [] => by simp [itemsDepth]
  | v :: vs => by
    have ih := @itemsDepth_lt n vs
    simp only [itemsDepth, forall_mem_cons, ← ih]
    omega

theorem membersDepth_lt {n} : ∀ {ms : List (String × Value)},
    membersDepth ms < n + 1 ↔ ∀ m ∈ ms, valueDepth m.2 < n
  | [] => by simp [membersDepth]
  | (name, v) :: ms => by
    have ih := @membersDepth_lt n ms
    simp only [membersDepth, forall_mem_cons, ← ih]
    omega

/-! ## Numbers and strings -/

theorem numberOf_integer (n : Int64) : (numberOf n).integer = n.toInt := by
  show (if decide (n.toInt < 0) = true then -(valueFrom 0 (decimal n.toInt.natAbs) : Int)
    else valueFrom 0 (decimal n.toInt.natAbs)) = n.toInt
  rw [(decimal_spec _).2]
  split
  case isTrue h =>
    have := of_decide_eq_true h
    omega
  case isFalse h =>
    have : ¬ n.toInt < 0 := fun hn => h (decide_eq_true hn)
    omega

theorem numberOf_bytes (n : Int64) : (numberOf n).bytes = renderI64 n := by
  rw [renderI64_eq]
  show (if decide (n.toInt < 0) = true then [0x2d] else []) ++ decimal n.toInt.natAbs ++ [] ++ [] = _
  simp

/-- A hex digit as the writer spells it. -/
theorem hexDigit_digitChar {d} (h : d < 16) :
    ∃ b, utf8 (String.singleton d.digitChar) = [b] ∧ HexDigit b d := by
  have table : ∀ d : Fin 16,
      utf8 (String.singleton d.val.digitChar) = [UInt8.ofNat d.val.digitChar.toNat] ∧
        HexDigit (UInt8.ofNat d.val.digitChar.toNat) d := by
    unfold HexDigit
    decide
  exact ⟨_, table ⟨d, h⟩⟩

/-- Each character is written as itself or as an escape for it. -/
theorem body_writeChar {ch text cs} (hb : StringBody text cs) :
    StringBody (writeChar ch ++ text) (ch :: cs) := by
  unfold writeChar
  split_ifs with hquote hslash h h h h h hcontrol
  · exact hquote ▸ .escape .quote hb
  · exact hslash ▸ .escape .backslash hb
  · exact h ▸ .escape .backspace hb
  · exact h ▸ .escape .formFeed hb
  · exact h ▸ .escape .lineFeed hb
  · exact h ▸ .escape .carriageReturn hb
  · exact h ▸ .escape .tab hb
  · obtain ⟨x, hx, hxd⟩ := hexDigit_digitChar (Nat.mod_lt (ch.toNat / 16) (by omega : 0 < 16))
    obtain ⟨y, hy, hyd⟩ := hexDigit_digitChar (Nat.mod_lt ch.toNat (by omega : 0 < 16))
    have hzero : HexDigit 0x30 0 := .inl ⟨by omega, rfl⟩
    have hn : 0 * 0x1000 + 0 * 0x100 + ch.toNat / 16 % 16 * 0x10 + ch.toNat % 16 = ch.toNat := by
      omega
    have hunit := encodeChar_bmp (c := ch) (by omega)
    rw [← hn] at hunit
    rw [hx, hy]
    exact .escape (.unit (.mk (.mk hzero hzero hxd hyd)) hunit) hb
  · exact .plain ⟨hquote, hslash, Nat.le_of_not_lt hcontrol⟩ hb

theorem stringText_writeString (s : String) : StringText (writeString s) s := by
  refine ⟨s.toList.flatMap writeChar, ?_, rfl⟩
  induction s.toList with
  | nil => exact .nil
  | cons ch cs ih => exact body_writeChar ih

/-! ## Arrays and objects -/

theorem itemsText_writeItems : ∀ {vs : List Value}, vs ≠ [] →
    (∀ v ∈ vs, ValueText (canonicalBytes v) (treeOf v)) →
    ItemsText (writeItems true vs) (treeItems vs)
  | [], hne, _ => absurd rfl hne
  | [v], _, h => by
    have hv := ItemsText.one blank_nil (h v (mem_singleton_self v)) blank_nil
    simpa [writeItems, treeItems] using hv
  | v :: w :: rest, _, h => by
    obtain ⟨hv, hrest⟩ := forall_mem_cons.mp h
    have htail := itemsText_writeItems (cons_ne_nil w rest) hrest
    -- items after the first are the first ones of the rest, behind a comma
    simpa [writeItems, treeItems] using ItemsText.cons blank_nil hv blank_nil htail

variable {v : Value}

theorem memberText_write (name : String) (h : ValueText (canonicalBytes v) (treeOf v)) :
    MemberText (writeString name ++ 0x3a :: canonicalBytes v) (name, treeOf v) := by
  have hm := MemberText.mk blank_nil (stringText_writeString name) blank_nil blank_nil h blank_nil
  simpa using hm

theorem membersText_writeMembers : ∀ {ms : List (String × Value)}, ms ≠ [] →
    (∀ m ∈ ms, ValueText (canonicalBytes m.2) (treeOf m.2)) →
    MembersText (writeMembers true ms) (treeMembers ms)
  | [], hne, _ => absurd rfl hne
  | [(name, v)], _, h => by
    have hv := MembersText.one (memberText_write name (h _ (mem_singleton_self (name, v))))
    simpa [writeMembers, treeMembers] using hv
  | (name, v) :: m :: rest, _, h => by
    obtain ⟨hv, hrest⟩ := forall_mem_cons.mp h
    have htail := membersText_writeMembers (cons_ne_nil m rest) hrest
    simpa [writeMembers, treeMembers] using MembersText.cons (memberText_write name hv) htail

/-- The canonical bytes of a well-formed value are a text of its tree. -/
theorem valueText_canonicalBytes (h : WellFormed v) :
    ValueText (canonicalBytes v) (treeOf v) := by
  induction h with
  | null => exact .null
  | bool b =>
    cases b with
    | true => exact .true
    | false => exact .false
  | int n =>
    rw [canonicalBytes, ← numberOf_bytes]
    exact .number (numberOf n)
  | text s => exact .text (stringText_writeString s)
  | @array items _ ih =>
    cases items with
    | nil => exact .emptyArray blank_nil
    | cons v rest => exact .array (itemsText_writeItems (cons_ne_nil v rest) ih)
  | @object members _ _ ih =>
    cases members with
    | nil => exact .emptyObject blank_nil
    | cons m rest => exact .object (membersText_writeMembers (cons_ne_nil m rest) ih)

/-- The tree of a well-formed value is in the domain and denotes the value. -/
theorem denote_treeOf (h : WellFormed v) : InDomain (treeOf v) ∧ denote (treeOf v) = v := by
  induction h with
  | null => exact ⟨.null, rfl⟩
  | bool b => exact ⟨.bool b, rfl⟩
  | int n =>
    have hn := numberOf_integer n
    refine ⟨.number rfl rfl ?_, ?_⟩
    · rw [hn]
      exact ⟨Int64.le_toInt n, Int64.toInt_lt n⟩
    · rw [treeOf, denote, hn, Int64.ofInt_toInt]
  | text s => exact ⟨.text s, rfl⟩
  | @array items _ ih =>
    rw [treeOf, treeItems_eq_map]
    refine ⟨inDomain_array.mpr ?_, ?_⟩
    · intro t ht
      obtain ⟨v, hv, rfl⟩ := mem_map.mp ht
      exact (ih v hv).1
    · have hmap : items.map (denote ∘ treeOf) = items.map id :=
        map_congr_left fun v hv => (ih v hv).2
      rw [denote, denoteItems_eq_map, map_map, hmap, map_id]
  | @object members hsorted _ ih =>
    rw [treeOf, treeMembers_eq_map]
    have hdenote : denoteMembers (members.map fun m => (m.1, treeOf m.2)) = members := by
      have hmap : members.map ((fun m => (m.1, denote m.2)) ∘ fun m => (m.1, treeOf m.2))
          = members.map id := map_congr_left fun m hm => Prod.ext rfl (ih m hm).2
      rw [denoteMembers_eq_map, map_map, hmap, map_id]
    refine ⟨inDomain_object.mpr ⟨?_, ?_⟩, ?_⟩
    · rw [map_map]
      exact keys_nodup hsorted
    · intro m hm
      obtain ⟨x, hx, rfl⟩ := mem_map.mp hm
      exact (ih x hx).1
    · rw [denote, hdenote, sort_of_sorted hsorted]

theorem depth_denote {t} (h : InDomain t) : ∀ n, valueDepth (denote t) < n ↔ depth t < n := by
  induction h with
  | @array items _ ih =>
    intro n
    cases n with
    | zero => simp
    | succ n =>
      rw [denote, valueDepth, itemsDepth_lt, depth_array, denoteItems_eq_map, forall_mem_map]
      exact forall₂_congr fun t ht => ih t ht n
  | @object members _ _ ih =>
    intro n
    cases n with
    | zero => simp
    | succ n =>
      have hmem : ∀ m, m ∈ sort cmpUtf16 (denoteMembers members) ↔ m ∈ denoteMembers members :=
        fun m => (sort_perm (denoteMembers members)).mem_iff
      rw [denote, valueDepth, membersDepth_lt, depth_object]
      simp only [hmem]
      rw [denoteMembers_eq_map, forall_mem_map]
      exact forall₂_congr fun m hm => ih m hm n
  | _ => exact fun n => Iff.rfl

theorem depth_treeOf (h : WellFormed v) {n} (hn : valueDepth v ≤ n) : depth (treeOf v) ≤ n := by
  obtain ⟨hdom, hv⟩ := denote_treeOf h
  refine Nat.le_of_lt_succ ((depth_denote hdom (n + 1)).mp ?_)
  rw [hv]
  exact Nat.lt_succ_of_le hn

/-! ## Round trip -/

theorem parse_canonicalBytes {maxBytes maxDepth} (h : WellFormed v)
    (hdepth : valueDepth v ≤ maxDepth) (hlen : (canonicalBytes v).length ≤ maxBytes) :
    parseWithLimits (canonicalBytes v) maxBytes maxDepth = .ok v := by
  obtain ⟨hdom, hv⟩ := denote_treeOf h
  have htext : JsonText (canonicalBytes v) (treeOf v) :=
    ⟨[], _, [], blank_nil, valueText_canonicalBytes h, blank_nil, by simp⟩
  exact parseWithLimits_ok.mpr ⟨hlen, treeOf v, htext, hdom, depth_treeOf h hdepth, hv⟩

/-- A parsed value is well-formed and within the depth bound. -/
theorem parse_wellFormed {input maxBytes maxDepth}
    (h : parseWithLimits input maxBytes maxDepth = .ok v) :
    WellFormed v ∧ valueDepth v ≤ maxDepth := by
  obtain ⟨-, t, -, hdom, hdepth, rfl⟩ := parseWithLimits_ok.mp h
  exact ⟨wellFormed_denote hdom,
    Nat.le_of_lt_succ ((depth_denote hdom _).mpr (Nat.lt_succ_of_le hdepth))⟩

theorem canonicalBytes_injective {v w} (hv : WellFormed v) (hw : WellFormed w)
    (h : canonicalBytes v = canonicalBytes w) : v = w := by
  have hparse := parse_canonicalBytes hv (Nat.le_max_left (valueDepth v) (valueDepth w)) (Nat.le_refl _)
  have hparse' := parse_canonicalBytes hw (Nat.le_max_right (valueDepth v) (valueDepth w)) (Nat.le_refl _)
  rw [h] at hparse
  exact Except.ok.inj (hparse.symm.trans hparse')

/-- Parse a transmission and write it canonically. -/
def canonicalize (input : List UInt8) : Result (List UInt8) := do
  let v ← parse input
  .ok (canonicalBytes v)

/-- Canonical bytes parse back to their value, no two values share them, and
writing what was parsed changes nothing the second time. -/
theorem canonical_round_trip :
    (∀ v maxBytes maxDepth, WellFormed v → valueDepth v ≤ maxDepth →
      (canonicalBytes v).length ≤ maxBytes →
      parseWithLimits (canonicalBytes v) maxBytes maxDepth = .ok v) ∧
    (∀ v w, WellFormed v → WellFormed w → canonicalBytes v = canonicalBytes w → v = w) ∧
    (∀ input v, parse input = .ok v → (canonicalBytes v).length ≤ DEFAULT_MAX_BYTES →
      parse (canonicalBytes v) = .ok v) ∧
    ∀ input text, canonicalize input = .ok text → text.length ≤ DEFAULT_MAX_BYTES →
      canonicalize text = .ok text := by
  have hagain : ∀ input v, parse input = .ok v → (canonicalBytes v).length ≤ DEFAULT_MAX_BYTES →
      parse (canonicalBytes v) = .ok v := by
    intro input v h hlen
    obtain ⟨hwf, hdepth⟩ := parse_wellFormed h
    exact parse_canonicalBytes hwf hdepth hlen
  refine ⟨fun v _ _ => parse_canonicalBytes, fun v w => canonicalBytes_injective, hagain, ?_⟩
  intro input text h hlen
  obtain ⟨v, hv, heq⟩ := bind_eq_ok.mp h
  cases heq
  exact bind_eq_ok.mpr ⟨v, hagain input v hv hlen, rfl⟩

theorem canonical_round_trip_minimum :
    parse (canonicalBytes (.object [("a", .int (-9223372036854775808)), ("b", .text "\x01\n")]))
      = .ok (.object [("a", .int (-9223372036854775808)), ("b", .text "\x01\n")]) := by
  refine canonical_round_trip.1 _ _ _ (.object ?_ ?_) (by decide) (by decide)
  · simp only [Sorted, pairwise_cons, mem_singleton, forall_eq, not_mem_nil,
      false_implies, implies_true, List.Pairwise.nil, and_true]
    decide
  intro m hm
  simp only [mem_cons, not_mem_nil, or_false] at hm
  rcases hm with rfl | rfl
  · exact .int _
  · exact .text _

/-! ## No control bytes -/

/-- No byte of a text is a control character. -/
def Graphic (text : List UInt8) : Prop := ∀ b ∈ text, 0x20 ≤ b

theorem graphic_append {a b} (ha : Graphic a) (hb : Graphic b) : Graphic (a ++ b) :=
  forall_mem_append.mpr ⟨ha, hb⟩

theorem graphic_cons {b rest} (hb : 0x20 ≤ b) (h : Graphic rest) :
    Graphic (b :: rest) := forall_mem_cons.mpr ⟨hb, h⟩

instance (text : List UInt8) : Decidable (Graphic text) := List.decidableBAll _ text

theorem graphic_writeChar (ch : Char) : Graphic (writeChar ch) := by
  have hhex : ∀ n, Graphic (utf8 (String.singleton (Nat.digitChar (n % 16)))) := by
    have table : ∀ d : Fin 16, Graphic (utf8 (String.singleton d.val.digitChar)) := by decide
    exact fun n => table ⟨n % 16, Nat.mod_lt n (by decide)⟩
  unfold writeChar
  split_ifs with _ _ _ _ _ _ _ hcontrol
  any_goals decide
  · exact graphic_append (graphic_append (by decide) (hhex _)) (hhex _)
  by_cases hascii : ch.toNat < 0x80
  · rw [utf8EncodeChar_ascii hascii]
    refine forall_mem_singleton.mpr (UInt8.le_iff_toNat_le.mpr ?_)
    rw [UInt8.toNat_ofNat_of_lt' (show ch.toNat < 256 by omega)]
    exact Nat.le_of_not_lt hcontrol
  · exact fun b hb => UInt8.le_trans (by decide) (utf8EncodeChar_high (Nat.le_of_not_lt hascii) b hb)

theorem graphic_writeString (s : String) : Graphic (writeString s) := by
  refine graphic_cons (by decide) (graphic_append ?_ (by decide))
  intro b hb
  obtain ⟨ch, -, hb⟩ := mem_flatMap.mp hb
  exact graphic_writeChar ch b hb

theorem graphic_renderI64 (n : Int64) : Graphic (renderI64 n) := by
  rw [renderI64_eq]
  refine graphic_append ?_ fun b hb => ?_
  · split <;> decide
  · have hdigit := all_eq_true.mp (decimal_spec n.toInt.natAbs).1.digits b hb
    simp only [isDigit, Bool.and_eq_true, decide_eq_true_eq] at hdigit
    exact UInt8.le_trans (by decide) hdigit.1

mutual
theorem graphic_canonicalBytes : ∀ v : Value, Graphic (canonicalBytes v)
  | .null => by decide
  | .bool true => by decide
  | .bool false => by decide
  | .int n => graphic_renderI64 n
  | .text s => graphic_writeString s
  | .array items =>
    graphic_cons (by decide) (graphic_append (graphic_writeItems true items) (by decide))
  | .object members =>
    graphic_cons (by decide) (graphic_append (graphic_writeMembers true members) (by decide))
theorem graphic_writeItems (first : Bool) : ∀ items : List Value, Graphic (writeItems first items)
  | [] => forall_mem_nil _
  | v :: rest => by
    unfold writeItems
    refine graphic_append (graphic_append ?_ (graphic_canonicalBytes v)) (graphic_writeItems false rest)
    cases first <;> decide
theorem graphic_writeMembers (first : Bool) :
    ∀ members : List (String × Value), Graphic (writeMembers first members)
  | [] => forall_mem_nil _
  | (name, v) :: rest => by
    unfold writeMembers
    refine graphic_append (graphic_append (graphic_append ?_ (graphic_writeString name))
      (graphic_cons (by decide) (graphic_canonicalBytes v))) (graphic_writeMembers false rest)
    cases first <;> decide
end

end AgentArchivist.Protocol.JsonCanonical
