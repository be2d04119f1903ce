import AgentArchivist.Auth.Authority
import AgentArchivist.Lib.Lexical
import Mathlib.Tactic.Ring

/-! # The order of timestamp texts

The state database compares timestamps as texts. Over UTC timestamps that is the order of
the instants, field by field, as long as the greater text does not have the shorter
fraction: the `Z` that ends a fraction is greater than every digit. -/
namespace AgentArchivist.Client.TimestampOrder
open Auth.Authority Lib.Lexical Lib.Utf8 Protocol.Vocabulary List

/-- Texts compared by their bytes. -/
def textLe (a b : String) : Bool := lexLe (utf8 a) (utf8 b)

/-- The digits after the second. -/
def fraction (raw : List UInt8) : List UInt8 := slice raw 20 (raw.length - 1)

/-- Year, month, day, hour, minute, second and nanosecond. -/
def civil (stamp : Timestamp) : List Nat :=
  let raw := utf8 stamp.asStr
  [decimal (slice raw 0 4), decimal (slice raw 5 7), decimal (slice raw 8 10),
    decimal (slice raw 11 13), decimal (slice raw 14 16), decimal (slice raw 17 19),
    decimal (fraction raw) * 10 ^ (9 - (fraction raw).length)]

/-- A timestamp is at or before another one. -/
def notAfter (a b : Timestamp) : Bool := lexLe (civil a) (civil b)

/-! ## Numbers -/

/-- Digits put after a number. -/
def extend (acc : Nat) (digits : List UInt8) : Nat :=
  digits.foldl (fun acc c => acc * 10 + (c - 0x30).toNat) acc

theorem decimal_append (c u : List UInt8) : decimal (c ++ u) = extend (decimal c) u := by
  rw [decimal, foldl_append]
  rfl

theorem digit_lt {c} (h : isAsciiDigit c = true) : (c - 0x30).toNat = c.toNat - 48 ∧
    48 ≤ c.toNat ∧ c.toNat ≤ 57 := by
  simp only [isAsciiDigit, Bool.and_eq_true, decide_eq_true_eq, UInt8.le_iff_toNat_le] at h
  have h0 : (0x30 : UInt8).toNat = 48 := rfl
  have h9 : (0x39 : UInt8).toNat = 57 := rfl
  refine ⟨?_, by omega, by omega⟩
  rw [UInt8.toNat_sub_of_le _ _ (by rw [UInt8.le_iff_toNat_le]; exact h.1), h0]

theorem extend_bounds (acc : Nat) {u} (hu : u.all isAsciiDigit = true) :
    acc * 10 ^ u.length ≤ extend acc u ∧ extend acc u < (acc + 1) * 10 ^ u.length := by
  induction u generalizing acc with
  | nil => simp [extend]
  | cons c u ih =>
    rw [all_cons, Bool.and_eq_true] at hu
    obtain ⟨hvalue, hlow, hhigh⟩ := digit_lt hu.1
    obtain ⟨h1, h2⟩ := ih (acc * 10 + (c - 0x30).toNat) hu.2
    have hstep : extend acc (c :: u) = extend (acc * 10 + (c - 0x30).toNat) u := rfl
    constructor
    · calc acc * (10 ^ u.length * 10) = acc * 10 * 10 ^ u.length := by ring
        _ ≤ (acc * 10 + (c - 0x30).toNat) * 10 ^ u.length := Nat.mul_le_mul_right _ (by omega)
        _ ≤ _ := h1
    · calc extend (acc * 10 + (c - 0x30).toNat) u
          < (acc * 10 + (c - 0x30).toNat + 1) * 10 ^ u.length := h2
        _ ≤ (acc * 10 + 10) * 10 ^ u.length := Nat.mul_le_mul_right _ (by omega)
        _ = (acc + 1) * (10 ^ u.length * 10) := by ring

/-- Digits that are smaller at the first place where they differ spell the smaller number. -/
theorem decimal_lt {u v} (hlen : u.length = v.length) (hu : u.all isAsciiDigit = true)
    (hv : v.all isAsciiDigit = true) (h : LessAt u v) : decimal u < decimal v := by
  obtain ⟨c, x, y, u', v', rfl, rfl, hlt⟩ := h
  simp only [all_append, all_cons, Bool.and_eq_true] at hu hv
  have htail : u'.length = v'.length := by simpa using hlen
  obtain ⟨hx, hxlow, _⟩ := digit_lt hu.2.1
  obtain ⟨hy, _, _⟩ := digit_lt hv.2.1
  rw [UInt8.lt_iff_toNat_lt] at hlt
  rw [decimal_append, decimal_append]
  have hupper := (extend_bounds (decimal c * 10 + (x - 0x30).toNat) hu.2.2).2
  have hlower := (extend_bounds (decimal c * 10 + (y - 0x30).toNat) hv.2.2).1
  calc extend (decimal c) (x :: u') = extend (decimal c * 10 + (x - 0x30).toNat) u' := rfl
    _ < (decimal c * 10 + (x - 0x30).toNat + 1) * 10 ^ u'.length := hupper
    _ ≤ (decimal c * 10 + (y - 0x30).toNat) * 10 ^ v'.length := by
      rw [htail]
      exact Nat.mul_le_mul_right _ (by omega)
    _ ≤ extend (decimal c * 10 + (y - 0x30).toNat) v' := hlower

/-! ## Fields -/

/-- One field after another: texts with a field of one width in front are in order by its
number first. -/
theorem field_le {u v s t} {ns nt} (hlen : u.length = v.length) (hu : u.all isAsciiDigit = true)
    (hv : v.all isAsciiDigit = true) (h : lexLe (u ++ s) (v ++ t) = true)
    (hrest : lexLe s t = true → lexLe ns nt = true) :
    lexLe (decimal u :: ns) (decimal v :: nt) = true := by
  rw [lexLe_cons]
  rcases lexLe_append hlen h with hless | ⟨rfl, hle⟩
  · exact .inl (decimal_lt hlen hu hv hless)
  · exact .inr ⟨rfl, hrest hle⟩

theorem lexLe_tail {c : UInt8} {s t : List UInt8} (h : lexLe (c :: s) (c :: t) = true) :
    lexLe s t = true := by
  rcases lexLe_cons.mp h with hlt | ⟨_, hle⟩
  · exact absurd hlt (by simp)
  · exact hle

theorem drop_eq_slice {raw} (lo hi : Nat) (h : lo ≤ hi) :
    raw.drop lo = slice raw lo hi ++ raw.drop hi := by
  have hdrop : raw.drop hi = (raw.drop lo).drop (hi - lo) := by
    rw [drop_drop, Nat.add_sub_cancel' h]
  rw [slice, hdrop, take_append_drop]

theorem drop_eq_getD {raw : List UInt8} {i} (h : i < raw.length) :
    raw.drop i = raw.getD i 0 :: raw.drop (i + 1) := by
  simp [h]

theorem slice_length {raw} {lo hi} (h : hi ≤ raw.length) : (slice raw lo hi).length = hi - lo := by
  rw [slice, length_take, length_drop]
  omega

/-- The end of a timestamp: a `Z`, or a fraction before it. -/
inductive Ending : List UInt8 → List UInt8 → Prop
  | whole : Ending [] [0x5a]
  | fraction {digits : List UInt8} (digit : digits.all isAsciiDigit = true) (some : digits ≠ [])
      (short : digits.length ≤ 9) : Ending digits (0x2e :: (digits ++ [0x5a]))

/-- The fields of a timestamp's text. -/
structure Fields (raw : List UInt8) (tail : List UInt8) : Prop where
  eq : raw = slice raw 0 4 ++ 0x2d :: (slice raw 5 7 ++ 0x2d :: (slice raw 8 10 ++ 0x54 ::
    (slice raw 11 13 ++ 0x3a :: (slice raw 14 16 ++ 0x3a :: (slice raw 17 19 ++ tail)))))
  year : (slice raw 0 4).length = 4 ∧ (slice raw 0 4).all isAsciiDigit = true
  month : (slice raw 5 7).length = 2 ∧ (slice raw 5 7).all isAsciiDigit = true
  day : (slice raw 8 10).length = 2 ∧ (slice raw 8 10).all isAsciiDigit = true
  hour : (slice raw 11 13).length = 2 ∧ (slice raw 11 13).all isAsciiDigit = true
  minute : (slice raw 14 16).length = 2 ∧ (slice raw 14 16).all isAsciiDigit = true
  second : (slice raw 17 19).length = 2 ∧ (slice raw 17 19).all isAsciiDigit = true
  ending : Ending (TimestampOrder.fraction raw) tail
  length : raw.length = 19 + tail.length

theorem fields (stamp : Timestamp) : ∃ tail, Fields (utf8 stamp.asStr) tail := by
  have h : timestampGrammar stamp.asStr = true := stamp.valid
  generalize stamp.asStr = text at h ⊢
  unfold timestampGrammar at h
  generalize utf8 text = raw at h ⊢
  simp only [Bool.and_eq_true, decide_eq_true_eq, beq_iff_eq, Bool.or_eq_true] at h
  obtain ⟨⟨⟨⟨⟨⟨⟨⟨⟨⟨⟨⟨⟨⟨hmin, _⟩, h4⟩, h7⟩, h10⟩, h13⟩, h16⟩, hyear⟩, hmonth⟩, hday⟩, hhour⟩,
    hminute⟩, hsecond⟩, hlast⟩, htail⟩ := h
  refine ⟨raw.drop 19, ?_, ⟨slice_length (by omega), hyear⟩, ⟨slice_length (by omega), hmonth⟩,
    ⟨slice_length (by omega), hday⟩, ⟨slice_length (by omega), hhour⟩,
    ⟨slice_length (by omega), hminute⟩, ⟨slice_length (by omega), hsecond⟩, ?_, ?_⟩
  · have h0 : raw = raw.drop 0 := rfl
    have hsep {i : Nat} {c : UInt8} (hi : i < 19) (hc : raw.getD i 0 = c) :
        raw.drop i = c :: raw.drop (i + 1) := by rw [drop_eq_getD (by omega), hc]
    conv_lhs => rw [h0, drop_eq_slice 0 4 (by omega), hsep (by omega) h4,
      drop_eq_slice 5 7 (by omega), hsep (by omega) h7, drop_eq_slice 8 10 (by omega),
      hsep (by omega) h10, drop_eq_slice 11 13 (by omega), hsep (by omega) h13,
      drop_eq_slice 14 16 (by omega), hsep (by omega) h16, drop_eq_slice 17 19 (by omega)]
  · have hfraction : fraction raw = ((raw.drop 19).drop 1).take ((raw.drop 19).length - 2) := by
      rw [fraction, slice, drop_drop, length_drop]
      congr 1
    rw [hfraction]
    generalize raw.drop 19 = tail at hlast htail ⊢
    obtain ⟨front, rfl⟩ := getLast?_eq_some_iff.mp hlast
    rcases htail with hone | ⟨⟨⟨⟨hthree, hdot⟩, hdigits⟩, _⟩, hten⟩
    · obtain rfl : front = [] := by simpa using hone
      exact .whole
    obtain ⟨digits, rfl⟩ : ∃ digits, front = 0x2e :: digits := by
      cases front with
      | nil => simp at hthree
      | cons c digits => exact ⟨digits, by simpa using hdot⟩
    have htake : ((0x2e :: digits ++ [0x5a]).drop 1).take ((0x2e :: digits ++ [0x5a]).length - 2) =
        digits := by simp
    rw [slice, Nat.sub_sub, htake] at hdigits
    rw [htake]
    exact .fraction hdigits (by rintro rfl; simp at hthree)
      (by simp at hten; omega)
  · rw [length_drop]
    omega

/-- Fractions of as many digits or more: the order of their texts is that of their values. -/
theorem fraction_le {u v} (hu : u.all isAsciiDigit = true) (hv : v.all isAsciiDigit = true)
    (hlen : u.length ≤ v.length) (hshort : v.length ≤ 9)
    (h : lexLe (u ++ [0x5a]) (v ++ [0x5a]) = true) :
    decimal u * 10 ^ (9 - u.length) ≤ decimal v * 10 ^ (9 - v.length) := by
  obtain ⟨w, x, rfl, hw⟩ : ∃ w x, v = w ++ x ∧ u.length = w.length :=
    ⟨v.take u.length, v.drop u.length, (take_append_drop _ _).symm, by simp [hlen]⟩
  rw [all_append, Bool.and_eq_true] at hv
  rw [append_assoc] at h
  rcases lexLe_append hw h with hless | ⟨rfl, hrest⟩
  · have hlt := decimal_lt hw hu hv.1 hless
    have hlow := (extend_bounds (decimal w) hv.2).1
    have hsplit : 9 - u.length = x.length + (9 - (w ++ x).length) := by
      rw [length_append] at hshort ⊢
      omega
    calc decimal u * 10 ^ (9 - u.length) ≤ decimal w * 10 ^ (9 - u.length) :=
          Nat.mul_le_mul_right _ hlt.le
      _ = decimal w * 10 ^ x.length * 10 ^ (9 - (w ++ x).length) := by
          rw [hsplit, Nat.pow_add, Nat.mul_assoc]
      _ ≤ decimal (w ++ x) * 10 ^ (9 - (w ++ x).length) := by
          rw [decimal_append]
          exact Nat.mul_le_mul_right _ hlow
  · cases x with
    | nil => rw [append_nil]
    | cons c x =>
      -- a digit in the place of the `Z`
      rw [all_cons, Bool.and_eq_true] at hv
      obtain ⟨_, _, hdigit⟩ := digit_lt hv.2.1
      have hz : (0x5a : UInt8).toNat = 90 := rfl
      rcases lexLe_cons.mp hrest with hlt | ⟨heq, _⟩
      · rw [UInt8.lt_iff_toNat_lt] at hlt
        omega
      · rw [← heq] at hdigit
        omega

theorem ending_le {u v s t : List UInt8} (ha : Ending u s) (hb : Ending v t)
    (hlen : s.length ≤ t.length) (h : lexLe s t = true) :
    decimal u * 10 ^ (9 - u.length) ≤ decimal v * 10 ^ (9 - v.length) := by
  cases ha with
  | whole =>
    cases hb with
    | whole => exact le_refl _
    | fraction digit _ short => cases h
  | fraction digit some _ =>
    cases hb with
    | whole => simp at hlen
    | fraction digit' _ short' =>
      exact fraction_le digit digit' (by simpa using hlen) short' (lexLe_tail h)

/-- Where the later text has no shorter fraction, the order of texts is the order of time. -/
theorem notAfter_of_textLe {a b : Timestamp}
    (hlen : (utf8 a.asStr).length ≤ (utf8 b.asStr).length) (h : textLe a.asStr b.asStr = true) :
    notAfter a b = true := by
  obtain ⟨s, fa⟩ := fields a
  obtain ⟨t, fb⟩ := fields b
  rw [textLe, fa.eq, fb.eq] at h
  refine field_le (fa.year.1.trans fb.year.1.symm) fa.year.2 fb.year.2 h fun h => ?_
  refine field_le (fa.month.1.trans fb.month.1.symm) fa.month.2 fb.month.2 (lexLe_tail h) fun h => ?_
  refine field_le (fa.day.1.trans fb.day.1.symm) fa.day.2 fb.day.2 (lexLe_tail h) fun h => ?_
  refine field_le (fa.hour.1.trans fb.hour.1.symm) fa.hour.2 fb.hour.2 (lexLe_tail h) fun h => ?_
  refine field_le (fa.minute.1.trans fb.minute.1.symm) fa.minute.2 fb.minute.2 (lexLe_tail h)
    fun h => ?_
  refine field_le (fa.second.1.trans fb.second.1.symm) fa.second.2 fb.second.2 (lexLe_tail h)
    fun h => ?_
  have hends : s.length ≤ t.length := by
    have := fa.length
    have := fb.length
    omega
  rw [lexLe_cons]
  rcases (ending_le fa.ending fb.ending hends h).lt_or_eq with hlt | heq
  · exact .inl hlt
  · exact .inr ⟨heq, rfl⟩

end AgentArchivist.Client.TimestampOrder
