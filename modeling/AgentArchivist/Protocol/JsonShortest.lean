import AgentArchivist.Protocol.EnvelopeSize

/-! # The canonical text is the shortest

Of the texts that denote a value none is shorter than its canonical bytes: whitespace is
dropped, an escape is written only where the grammar needs one and then in its shortest
form, and a number has no digits to spare. So what fits the parser's bound on input
still fits it when it is written back. -/
namespace AgentArchivist.Protocol.JsonShortest
open Lib Protocol List
open Decimal SortedMap Utf16 EnvelopeSize Json JsonAccept JsonCanonical JsonGrammar

/-! ## Strings -/

theorem writeChar_unescaped {c} (h : Unescaped c) : writeChar c = String.utf8EncodeChar c := by
  obtain ⟨hquote, hslash, hlow⟩ := h
  have hcontrol : ∀ d : Char, d.toNat < 0x20 → c ≠ d := by
    intro d hd heq
    rw [heq] at hlow
    omega
  unfold writeChar
  rw [if_neg hquote, if_neg hslash, if_neg (hcontrol _ (by decide)), if_neg (hcontrol _ (by decide)),
    if_neg (hcontrol _ (by decide)), if_neg (hcontrol _ (by decide)), if_neg (hcontrol _ (by decide)),
    if_neg (Nat.not_lt_of_le hlow)]

/-- No character takes more bytes than its escaped code unit. -/
theorem length_writeChar_le (c : Char) : (writeChar c).length ≤ 6 := by
  by_cases h : Unescaped c
  · have hsize := c.utf8Size_le_four
    rw [writeChar_unescaped h, String.length_utf8EncodeChar]
    omega
  have hone : c.toNat < 0x80 := by
    by_contra hbig
    refine h ⟨?_, ?_, by omega⟩ <;> rintro rfl <;> exact hbig (by decide)
  have hsize : (String.utf8EncodeChar c).length = 1 := by
    rw [String.length_utf8EncodeChar, Char.utf8Size_eq_one_iff]
    exact UInt32.le_iff_toNat_le.mpr (Nat.le_of_lt_succ hone)
  have := length_writeChar c
  omega

theorem length_unitText {text} {u} (h : UnitText text u) : text.length = 6 := by
  obtain ⟨⟨_, _, _, _⟩⟩ := h
  rfl

theorem length_writeChar_escape {seq} {c} (h : EscapeText seq c) :
    (writeChar c).length ≤ seq.length := by
  cases h with
  | unit hu _ =>
    rw [length_unitText hu]
    exact length_writeChar_le c
  | pair hu hv _ =>
    have := length_writeChar_le c
    rw [length_append, length_unitText hu, length_unitText hv]
    omega
  | _ => decide

theorem length_body {body cs} (h : StringBody body cs) :
    (cs.flatMap writeChar).length ≤ body.length := by
  induction h with
  | nil => exact Nat.le_refl 0
  | plain hc _ ih =>
    rw [flatMap_cons, writeChar_unescaped hc, length_append, length_append]
    exact Nat.add_le_add_left ih _
  | escape hseq _ ih =>
    rw [flatMap_cons, length_append, length_append]
    exact Nat.add_le_add (length_writeChar_escape hseq) ih

theorem length_stringText {text} {s} (h : StringText text s) :
    (writeString s).length ≤ text.length := by
  obtain ⟨body, hbody, rfl⟩ := h
  have := length_body hbody
  simp only [writeString, length_cons, length_append, length_nil]
  omega

/-! ## Numbers -/

theorem valueFrom_lt : ∀ {ds : List UInt8} (acc : Nat), ds.all isDigit = true →
    valueFrom acc ds < (acc + 1) * 10 ^ ds.length
  | [], acc, _ => by simp [valueFrom]
  | d :: ds, acc, h => by
    rw [all_cons, Bool.and_eq_true] at h
    have hd : d.toNat ≤ 0x39 := by
      have := h.1
      simp only [isDigit, Bool.and_eq_true, decide_eq_true_eq, UInt8.le_iff_toNat_le] at this
      exact this.2
    have ih := valueFrom_lt (acc * 10 + (d.toNat - 0x30)) h.2
    refine Nat.lt_of_lt_of_le ih ?_
    rw [length_cons, Nat.pow_succ, Nat.mul_comm (10 ^ ds.length), ← Nat.mul_assoc]
    exact Nat.mul_le_mul_right _ (by omega)

theorem length_number {n : Number} (h : -2 ^ 63 ≤ n.integer ∧ n.integer < 2 ^ 63) :
    (renderI64 (Int64.ofInt n.integer)).length ≤ n.bytes.length := by
  have hint : (Int64.ofInt n.integer).toInt = n.integer := Int64.toInt_ofInt_of_le h.1 h.2
  have hpos : 0 < n.whole.length := length_pos_iff.mpr n.whole_text.nonempty
  have hdigits : (decimal (valueFrom 0 n.whole)).length ≤ n.whole.length := by
    refine length_decimal hpos ?_
    have := valueFrom_lt 0 n.whole_text.digits
    rwa [Nat.zero_add, Nat.one_mul] at this
  have habs : n.integer.natAbs = valueFrom 0 n.whole := by
    unfold Number.integer
    split <;> simp
  have hsign : (if n.integer < 0 then [(0x2d : UInt8)] else []).length ≤
      (if n.negative then [(0x2d : UInt8)] else []).length := by
    unfold Number.integer
    cases n.negative with
    | true => simp only [reduceIte]; split <;> simp
    | false => simp
  rw [renderI64_eq, hint, habs]
  simp only [Number.bytes, length_append]
  omega

/-! ## Values -/

theorem length_writeItems_first (vs : List Value) :
    (writeItems true vs).length = (writeItems false vs).length - 1 := by
  cases vs with
  | nil => rfl
  | cons v vs =>
    simp only [writeItems, length_append, length_cons, length_nil, reduceIte,
      Bool.false_eq_true]
    omega

theorem length_writeMembers_eq (ms : List (String × Value)) :
    (writeMembers false ms).length = (ms.map memberCost).sum := by
  induction ms with
  | nil => rfl
  | cons m ms ih =>
    simp only [writeMembers, length_append, length_cons, map_cons, sum_cons, ih,
      memberCost, reduceIte, Bool.false_eq_true, length_nil]
    omega

theorem length_writeMembers_first (ms : List (String × Value)) :
    (writeMembers true ms).length = (writeMembers false ms).length - 1 := by
  cases ms with
  | nil => rfl
  | cons m ms =>
    simp only [writeMembers, length_append, length_cons, length_nil, reduceIte,
      Bool.false_eq_true]
    omega

/-- Their order does not change the length of the members. -/
theorem length_writeMembers_sort (ms : List (String × Value)) :
    (writeMembers true (sort cmpUtf16 ms)).length = (writeMembers false ms).length - 1 := by
  rw [length_writeMembers_first, length_writeMembers_eq, length_writeMembers_eq,
    ((sort_perm ms).map memberCost).sum_eq]

-- a separator before each part, also the first, is one byte more than the text has
mutual
theorem length_valueText : ∀ {text : List UInt8} {t : Tree}, ValueText text t → InDomain t →
    (canonicalBytes (denote t)).length ≤ text.length
  | _, _, .null, _ => Nat.le_refl _
  | _, _, .true, _ => Nat.le_refl _
  | _, _, .false, _ => Nat.le_refl _
  | _, _, .number n, hdom => by
    cases hdom with
    | number _ _ hrange => exact length_number hrange
  | _, _, .text hs, _ => length_stringText hs
  | _, _, .emptyArray _, _ => by simp [denote, denoteItems, canonicalBytes, writeItems]
  | _, _, .array hitems, hdom => by
    have ih := length_itemsText hitems (inDomain_array.mp hdom)
    simp only [denote, canonicalBytes, length_cons, length_append, length_nil,
      length_writeItems_first]
    omega
  | _, _, .emptyObject _, _ => by simp [denote, denoteMembers, sort, canonicalBytes, writeMembers]
  | _, _, .object hmembers, hdom => by
    have ih := length_membersText hmembers (inDomain_object.mp hdom).2
    simp only [denote, canonicalBytes, length_cons, length_append, length_nil,
      length_writeMembers_sort]
    omega

theorem length_itemsText : ∀ {text : List UInt8} {ts : List Tree}, ItemsText text ts →
    (∀ t ∈ ts, InDomain t) → (writeItems false (denoteItems ts)).length ≤ text.length + 1
  | _, _, .one _ ht _, hdom => by
    have ih := length_valueText ht (hdom _ mem_cons_self)
    simp only [denoteItems, writeItems, reduceIte, Bool.false_eq_true, length_append,
      length_cons, length_nil]
    omega
  | _, _, .cons _ ht _ hrest, hdom => by
    have ih := length_valueText ht (hdom _ mem_cons_self)
    have ih' := length_itemsText hrest fun t h => hdom t (mem_cons_of_mem _ h)
    simp only [denoteItems, writeItems, reduceIte, Bool.false_eq_true, length_append,
      length_cons, length_nil]
    omega

theorem length_membersText : ∀ {text : List UInt8} {ms : List (String × Tree)}, MembersText text ms →
    (∀ m ∈ ms, InDomain m.2) → (writeMembers false (denoteMembers ms)).length ≤ text.length + 1
  | _, _, .one hm, hdom => by
    have ih := length_memberText hm (hdom _ mem_cons_self)
    rw [length_writeMembers_eq, denoteMembers_eq_map]
    simpa using ih
  | _, _, .cons hm hrest, hdom => by
    have ih := length_memberText hm (hdom _ mem_cons_self)
    have ih' := length_membersText hrest fun t h => hdom t (mem_cons_of_mem _ h)
    rw [length_writeMembers_eq, denoteMembers_eq_map] at ih' ⊢
    simp only [map_cons, sum_cons, length_append, length_cons]
    omega

theorem length_memberText : ∀ {text : List UInt8} {m : String × Tree}, MemberText text m →
    InDomain m.2 → memberCost (m.1, denote m.2) ≤ text.length + 1
  | _, _, .mk _ hname _ _ ht _, hdom => by
    have hlen := length_stringText hname
    have ih := length_valueText ht hdom
    simp only [memberCost, length_append, length_cons]
    omega
end

/-- What was parsed is written back in no more bytes. -/
theorem length_canonicalBytes_le {input} {v maxBytes maxDepth}
    (h : parseWithLimits input maxBytes maxDepth = .ok v) :
    (canonicalBytes v).length ≤ input.length := by
  obtain ⟨-, t, ⟨w, body, w', -, hbody, -, rfl⟩, hdom, -, rfl⟩ := parseWithLimits_ok.mp h
  have := length_valueText hbody hdom
  simp only [length_append]
  omega

end AgentArchivist.Protocol.JsonShortest
