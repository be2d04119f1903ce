import AgentArchivist.Auth.CivilDays
import AgentArchivist.Client.TimestampOrder
import Mathlib.Tactic.IntervalCases

/-! # The window of a receipt key

The end of a signing window is written as text: the instant is moved by whole days and its
fields are printed. The text is a timestamp of the calendar, and its instant is the one that
was moved to. -/
namespace AgentArchivist.Auth.ReceiptWindow
open Lib List
open Authority CivilDays ReceiptKeys Client.TimestampOrder Fallible Utf8 Protocol.Vocabulary

/-! ## Printed numbers -/

theorem length_toDigits (n : Nat) : (Nat.toDigits 10 n).length = (Lib.Decimal.decimal n).length := by
  induction n using Nat.strongRecOn with
  | ind n ih =>
    rw [Lib.Decimal.decimal_eq, Nat.toDigits_eq_if (by omega)]
    split
    · rfl
    · rw [length_append, length_append, ih (n / 10) (by omega)]
      rfl

theorem decimal_eq_valueFrom {digits} (h : digits.all isAsciiDigit = true) (acc : Nat) :
    extend acc digits = Lib.Decimal.valueFrom acc digits := by
  induction digits generalizing acc with
  | nil => rfl
  | cons c digits ih =>
    rw [all_cons, Bool.and_eq_true] at h
    have hstep : extend acc (c :: digits) = extend (acc * 10 + (c - 0x30).toNat) digits := rfl
    rw [hstep, (digit_lt h.1).1, ih h.2]
    rfl

/-- Digits of a width that spell a number. -/
structure Spells (width : Nat) (n : Int) (digits : List UInt8) : Prop where
  length : digits.length = width
  digit : digits.all isAsciiDigit = true
  value : (decimal digits : Int) = n

theorem extend_zeros (k : Nat) : extend 0 (List.replicate k 0x30) = 0 := by
  induction k with
  | zero => rfl
  | succ k ih => exact ih

theorem spells_padded {width n} (hwidth : 0 < width) (hlow : 0 ≤ n) (hhigh : n < 10 ^ width) :
    Spells width n (utf8 (padded width n)) := by
  obtain ⟨m, rfl⟩ := Int.eq_ofNat_of_zero_le hlow
  have hm : m < 10 ^ width := by exact_mod_cast hhigh
  have hdigits : Lib.Decimal.decimal m = (Nat.toDigits 10 m).flatMap String.utf8EncodeChar := by
    rw [Lib.Decimal.decimal, Nat.toString_eq_ofList_toDigits, utf8_ofList]
  have hzero : String.utf8EncodeChar '0' = [0x30] := rfl
  have htext : utf8 (padded width m) =
      List.replicate (width - (Lib.Decimal.decimal m).length) 0x30 ++ Lib.Decimal.decimal m := by
    rw [padded, utf8_ofList, Int.toNat_natCast, List.leftpad, flatMap_append, ← hdigits,
      length_toDigits]
    congr 1
    generalize width - (Lib.Decimal.decimal m).length = k
    induction k with
    | zero => rfl
    | succ k ih => rw [replicate_succ, flatMap_cons, ih, hzero]; rfl
  obtain ⟨hwhole, hvalue⟩ := Lib.Decimal.decimal_spec m
  have hall : (Lib.Decimal.decimal m).all isAsciiDigit = true := hwhole.digits
  have hshort := Lib.Decimal.length_decimal hwidth hm
  rw [htext]
  refine ⟨?_, ?_, ?_⟩
  · rw [length_append, length_replicate]
    omega
  · rw [all_append, hall, Bool.and_true, all_replicate]
    split <;> rfl
  have hprinted : decimal (List.replicate (width - (Lib.Decimal.decimal m).length) 0x30 ++
      Lib.Decimal.decimal m) = m := by
    rw [decimal_append, show decimal (List.replicate _ 0x30) = 0 from extend_zeros _,
      decimal_eq_valueFrom hall, hvalue]
  exact congrArg Nat.cast hprinted

/-! ## Printed timestamps -/

/-- The fields of a timestamp, as numbers. -/
structure Reads (stamp : Timestamp) (year month day hour minute second : Int) (nanoseconds : Nat) :
    Prop where
  year : (decimal (slice (utf8 stamp.asStr) 0 4) : Int) = year
  month : (decimal (slice (utf8 stamp.asStr) 5 7) : Int) = month
  day : (decimal (slice (utf8 stamp.asStr) 8 10) : Int) = day
  hour : (decimal (slice (utf8 stamp.asStr) 11 13) : Int) = hour
  minute : (decimal (slice (utf8 stamp.asStr) 14 16) : Int) = minute
  second : (decimal (slice (utf8 stamp.asStr) 17 19) : Int) = second
  nanoseconds : (ofLex (utcInstant stamp)).2 = nanoseconds

section
variable {stamp : Timestamp} {year month day hour minute second : Int} {nanoseconds : Nat}

theorem Reads.instant_eq (h : Reads stamp year month day hour minute second nanoseconds) :
    instant stamp = toLex (daysFromCivil year month day * 86400 + hour * 3600 + minute * 60 + second,
      nanoseconds) := by
  have hseconds : (ofLex (utcInstant stamp)).1 =
      daysFromCivil year month day * 86400 + hour * 3600 + minute * 60 + second := by
    rw [← h.year, ← h.month, ← h.day, ← h.hour, ← h.minute, ← h.second]
    rfl
  exact congrArg toLex (Prod.ext hseconds h.nanoseconds)

theorem daysInMonth_eq {y m : Nat} (hlow : 1 ≤ m) (hhigh : m ≤ 12) :
    ((if [1, 3, 5, 7, 8, 10, 12].contains m then 31 else if [4, 6, 9, 11].contains m then 30
      else if y % 4 == 0 && (y % 100 != 0 || y % 400 == 0) then 29 else 28 : Nat) : Int) =
        monthLength y m := by
  have hleap : (y % 4 == 0 && (y % 100 != 0 || y % 400 == 0)) = decide (isLeap y) := by
    rw [Bool.eq_iff_iff, decide_eq_true_iff]
    simp only [Bool.and_eq_true, Bool.or_eq_true, beq_iff_eq, bne_iff_ne]
    unfold isLeap
    omega
  rw [hleap]
  by_cases h : isLeap y <;> interval_cases m <;> simp [monthLength, h]

theorem Reads.calendarValid_eq (h : Reads stamp year month day hour minute second nanoseconds)
    (hmonth : 1 ≤ month ∧ month ≤ 12) (hday : 1 ≤ day ∧ day ≤ monthLength year month)
    (hhour : hour < 24) (hminute : minute < 60) (hsecond : second ≤ 60) :
    calendarValid stamp = true := by
  obtain ⟨rfl, rfl, rfl, rfl, rfl, rfl, -⟩ := h
  rw [← daysInMonth_eq (by omega) (by omega)] at hday
  unfold decimal at *
  simp only [calendarValid, Bool.and_eq_true, decide_eq_true_eq] at hday ⊢
  omega

/-- A printed timestamp reads as what was printed. -/
theorem reads_of_text {y mo d h mi s tail} (hy : Spells 4 year y) (hmo : Spells 2 month mo)
    (hd : Spells 2 day d) (hh : Spells 2 hour h) (hmi : Spells 2 minute mi) (hs : Spells 2 second s)
    (htail : tail = [0x5a] ∧ nanoseconds = 0 ∨
      ∃ digits, tail = 0x2e :: (digits ++ [0x5a]) ∧ Spells 9 nanoseconds digits)
    (htext : utf8 stamp.asStr = y ++ 0x2d :: (mo ++ 0x2d :: (d ++ 0x54 :: (h ++ 0x3a ::
      (mi ++ 0x3a :: (s ++ tail)))))) :
    Reads stamp year month day hour minute second nanoseconds := by
  obtain ⟨rest, hfields⟩ := fields stamp
  have heq := hfields.eq.symm.trans htext
  obtain ⟨hyear, heq⟩ := append_inj heq (hfields.year.1.trans hy.length.symm)
  obtain ⟨hmonth, heq⟩ := append_inj (List.cons.inj heq).2
    (hfields.month.1.trans hmo.length.symm)
  obtain ⟨hday, heq⟩ := append_inj (List.cons.inj heq).2 (hfields.day.1.trans hd.length.symm)
  obtain ⟨hhour, heq⟩ := append_inj (List.cons.inj heq).2 (hfields.hour.1.trans hh.length.symm)
  obtain ⟨hminute, heq⟩ := append_inj (List.cons.inj heq).2
    (hfields.minute.1.trans hmi.length.symm)
  obtain ⟨hsecond, hrest⟩ := append_inj (List.cons.inj heq).2
    (hfields.second.1.trans hs.length.symm)
  refine ⟨?_, ?_, ?_, ?_, ?_, ?_, ?_⟩
  · rw [hyear, hy.value]
  · rw [hmonth, hmo.value]
  · rw [hday, hd.value]
  · rw [hhour, hh.value]
  · rw [hminute, hmi.value]
  · rw [hsecond, hs.value]
  have hlength := hfields.length
  have hnanos : (ofLex (utcInstant stamp)).2 = if (utf8 stamp.asStr).length > 20 then
      decimal (fraction (utf8 stamp.asStr)) * 10 ^ (9 - (fraction (utf8 stamp.asStr)).length)
      else 0 := rfl
  have hending := hfields.ending
  rw [hrest] at hlength hending
  rw [hnanos, hlength]
  rcases htail with ⟨rfl, rfl⟩ | ⟨digits, rfl, hdigits⟩
  · rfl
  have hfraction : fraction (utf8 stamp.asStr) = digits := by
    generalize fraction (utf8 stamp.asStr) = shown at hending
    generalize htail : 0x2e :: (digits ++ [(0x5a : UInt8)]) = tail at hending
    cases hending with
    | whole => simp at htail
    | fraction _ _ _ => exact (append_cancel_right (List.cons.inj htail).2).symm
  have hvalue := hdigits.value
  rw [hfraction, hdigits.length, if_pos (by simp [hdigits.length])]
  simp only [Nat.sub_self, Nat.pow_zero, Nat.mul_one]
  exact_mod_cast hvalue

end

/-- Less than a second of nanoseconds. -/
theorem nanoseconds_lt (stamp : Timestamp) : (ofLex (instant stamp)).2 < 10 ^ 9 := by
  have hnanos : (ofLex (instant stamp)).2 = if (utf8 stamp.asStr).length > 20 then
      decimal (fraction (utf8 stamp.asStr)) * 10 ^ (9 - (fraction (utf8 stamp.asStr)).length)
      else 0 := rfl
  obtain ⟨tail, hfields⟩ := fields stamp
  have hending := hfields.ending
  rw [hnanos]
  split
  · generalize fraction (utf8 stamp.asStr) = digits at hending ⊢
    have hpart : decimal digits < 10 ^ digits.length ∧ digits.length ≤ 9 := by
      cases hending with
      | whole => exact ⟨by decide, by decide⟩
      | fraction hdigit _ hshort =>
        have hbounds := (extend_bounds 0 hdigit).2
        rw [Nat.zero_add, Nat.one_mul] at hbounds
        exact ⟨hbounds, hshort⟩
    calc decimal digits * 10 ^ (9 - digits.length)
        < 10 ^ digits.length * 10 ^ (9 - digits.length) :=
          Nat.mul_lt_mul_of_pos_right hpart.1 (Nat.pow_pos (by decide))
      _ = 10 ^ 9 := by rw [← Nat.pow_add, Nat.add_sub_cancel' hpart.2]
  · decide

/-! ## Whole days later -/

/-- The instant so many days later. -/
def later (at' : Instant) (days : Int) : Instant := toLex ((ofLex at').1 + days * 86400, (ofLex at').2)

/-- The text of a date, of the seconds into its day and of the nanoseconds. -/
def printed (year month date rest : Int) (nanoseconds : Nat) : String :=
  let day := padded 4 year ++ "-" ++ padded 2 month ++ "-" ++ padded 2 date ++ "T" ++
    padded 2 (rest / 3600) ++ ":" ++ padded 2 (rest % 3600 / 60) ++ ":" ++ padded 2 (rest % 60)
  if nanoseconds = 0 then day ++ "Z" else day ++ "." ++ padded 9 nanoseconds ++ "Z"

theorem checked_ok {n m} (h : checked n = .ok m) : m = n := by
  unfold checked at h
  split at h
  · exact (Except.ok.inj h).symm
  · cases h

theorem asStr_of_parse {text} {last}
    (h : ((Text.parse text : Except GrammarError Timestamp).mapError
      fun _ => ReceiptKeyError.invalidWindow) = .ok last) : last.asStr = text := by
  unfold Text.parse at h
  split at h
  · exact congrArg Text.asStr (Except.ok.inj h).symm
  · cases h

theorem utf8_separators : utf8 "-" = [0x2d] ∧ utf8 "T" = [0x54] ∧ utf8 ":" = [0x3a] ∧
    utf8 "." = [0x2e] ∧ utf8 "Z" = [0x5a] := by decide

theorem reads_printed {stamp} {year month date rest nanoseconds} (hyear : 0 ≤ year ∧ year ≤ 9999)
    (hmonth : 1 ≤ month ∧ month ≤ 12) (hdate : 1 ≤ date ∧ date ≤ 31)
    (hrest : 0 ≤ rest ∧ rest < 86400) (hnanos : nanoseconds < 10 ^ 9)
    (htext : stamp.asStr = printed year month date rest nanoseconds) :
    Reads stamp year month date (rest / 3600) (rest % 3600 / 60) (rest % 60) nanoseconds := by
  have hyears : Spells 4 year _ := spells_padded (by decide) hyear.1 (by omega)
  have hmonths : Spells 2 month _ := spells_padded (by decide) (by omega) (by omega)
  have hdates : Spells 2 date _ := spells_padded (by decide) (by omega) (by omega)
  have hhours : Spells 2 (rest / 3600) _ := spells_padded (by decide) (by omega) (by omega)
  have hminutes : Spells 2 (rest % 3600 / 60) _ := spells_padded (by decide) (by omega) (by omega)
  have hseconds : Spells 2 (rest % 60) _ := spells_padded (by decide) (by omega) (by omega)
  obtain ⟨hdash, ht, hcolon, hdot, hz⟩ := utf8_separators
  by_cases hzero : nanoseconds = 0
  · refine reads_of_text hyears hmonths hdates hhours hminutes hseconds (.inl ⟨rfl, hzero⟩) ?_
    rw [htext, printed, if_pos hzero]
    simp [utf8_append, hdash, ht, hcolon, hz]
  have hfraction : Spells 9 (nanoseconds : Int) _ :=
    spells_padded (by decide) (by omega) (by exact_mod_cast hnanos)
  refine reads_of_text hyears hmonths hdates hhours hminutes hseconds
    (.inr ⟨_, rfl, hfraction⟩) ?_
  rw [htext, printed, if_neg hzero]
  simp [utf8_append, hdash, ht, hcolon, hdot, hz]

/-- Days are added to the instant, and the result is a timestamp of the calendar. -/
theorem addDays_ok {stamp last days} (h : addDays stamp days = .ok last) :
    instant last = later (instant stamp) days ∧ calendarValid last = true := by
  obtain ⟨seconds, hseconds⟩ : ∃ seconds, seconds = (ofLex (instant stamp)).1 + days * 86400 :=
    ⟨_, rfl⟩
  obtain ⟨⟨year, month, date⟩, hcivil⟩ : ∃ c, civilFromDays (seconds / 86400) = c := ⟨_, rfl⟩
  obtain ⟨added, hadded, h1⟩ := bind_eq_ok.mp h
  obtain ⟨sum, hsum, h2⟩ := bind_eq_ok.mp h1
  obtain rfl : sum = seconds := by rw [hseconds, checked_ok hsum, checked_ok hadded]
  rw [show civilFromDays (sum.ediv 86400) = _ from hcivil] at h2
  obtain ⟨hyear, h3⟩ := refuse_eq_ok.mp h2
  have htext : last.asStr = printed year month date (sum % 86400) (ofLex (instant stamp)).2 :=
    asStr_of_parse h3
  obtain ⟨hback, hmonth, hdate⟩ := civilFromDays_spec hcivil
  have hlength : monthLength year month ≤ 31 := by
    unfold monthLength
    split <;> split <;> omega
  have hreads := reads_printed (by omega) hmonth (by omega) (by omega) (nanoseconds_lt stamp) htext
  refine ⟨?_, hreads.calendarValid_eq hmonth hdate (by omega) (by omega) (by omega)⟩
  rw [hreads.instant_eq, hback, later, ← hseconds]
  congr 2
  omega

theorem le_later (a : Instant) {days} (h : 0 < days) : a ≤ later a days := by
  refine le_of_lt (Prod.Lex.lt_iff.mpr (.inl ?_))
  simp only [later, ofLex_toLex]
  omega

/-- A window of the certified length passes its check. -/
theorem validateWindow_ok {first last} (h : addDays first RECEIPT_KEY_VALIDITY_DAYS = .ok last) :
    validateWindow first last = .ok () := by
  have hlast := (addDays_ok h).1
  rw [validateWindow, if_neg (not_lt.mpr (hlast ▸ le_later _ (by decide)))]
  refine bind_eq_ok.mpr ⟨last, h, ?_⟩
  rw [if_neg (not_not.mpr rfl)]

/-- What passes the check is a window of the certified length. -/
theorem window_of_validateWindow {first last} (h : validateWindow first last = .ok ()) :
    instant last = later (instant first) RECEIPT_KEY_VALIDITY_DAYS := by
  simp only [validateWindow, refuse_eq_ok, bind_eq_ok, not_not] at h
  obtain ⟨-, last', hlast, hsame, -⟩ := h
  exact hsame ▸ (addDays_ok hlast).1

end AgentArchivist.Auth.ReceiptWindow
