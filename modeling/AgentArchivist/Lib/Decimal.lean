import AgentArchivist.Lib.Utf8
import Mathlib.Algebra.Group.Int.Defs
import Mathlib.Algebra.Group.Nat.Defs

/-! # Decimal integers as text

`parseI64` reads a signed 64-bit integer as `i64::from_str` does, `decimal` and
`renderI64` write one, and reading undoes writing (`parseI64_renderI64`). A written
number is a nonempty run of digits with no leading zero (`decimal_spec`). -/
namespace AgentArchivist.Lib.Decimal
open Lib.Utf8 List

def isDigit (b : UInt8) : Bool := 0x30 ≤ b && b ≤ 0x39

/-- Read digits after those that gave `acc`. -/
def valueFrom (acc : Nat) (ds : List UInt8) : Nat :=
  ds.foldl (fun acc b => acc * 10 + (b.toNat - 0x30)) acc

/-- A nonempty run of digits. -/
def magnitude (ds : List UInt8) : Option Nat :=
  if ds ≠ [] ∧ ds.all isDigit then some (valueFrom 0 ds) else none

def inI64 (n : Int) : Option Int64 :=
  if -2 ^ 63 ≤ n ∧ n < 2 ^ 63 then some (Int64.ofInt n) else none

/-- `i64::from_str`: an optional sign, digits, and the range of the type. -/
def parseI64 : List UInt8 → Option Int64
  | 0x2d :: ds => (magnitude ds).bind fun n => inI64 (-n)
  | 0x2b :: ds => (magnitude ds).bind fun n => inI64 n
  | ds => (magnitude ds).bind fun n => inI64 n

/-- `n.to_string().as_bytes()`. -/
def decimal (n : Nat) : List UInt8 := utf8 (toString n)

def renderI64 (n : Int64) : List UInt8 := utf8 (toString n.toInt)

def digitByte (d : Nat) : UInt8 := UInt8.ofNat (0x30 + d)

theorem utf8_digitChar {d} (h : d < 10) : String.utf8EncodeChar d.digitChar = [digitByte d] := by
  have table : ∀ d : Fin 10, String.utf8EncodeChar d.val.digitChar = [digitByte d.val] := by
    decide
  exact table ⟨d, h⟩

theorem isDigit_digitByte {d} (h : d < 10) : isDigit (digitByte d) = true := by
  have table : ∀ d : Fin 10, isDigit (digitByte d.val) = true := by decide
  exact table ⟨d, h⟩

theorem toNat_digit {d} (h : d < 10) : (digitByte d).toNat = 0x30 + d :=
  UInt8.toNat_ofNat_of_lt' (by show 0x30 + d < 256; omega)

/-- The last digit, after those before it. -/
theorem decimal_eq (n : Nat) : decimal n =
    if n < 10 then [digitByte n]
    else decimal (n / 10) ++ [digitByte (n % 10)] := by
  unfold decimal
  rw [Nat.toString_eq_ofList_toDigits, utf8_ofList, Nat.toDigits_eq_if (by omega)]
  split
  case isTrue h => simp [utf8_digitChar h]
  case isFalse h =>
    rw [flatMap_append, ← utf8_ofList, ← Nat.toString_eq_ofList_toDigits]
    simp [utf8_digitChar (Nat.mod_lt n (by omega : 0 < 10))]

/-- A run of digits without a leading zero. -/
structure Whole (ds : List UInt8) : Prop where
  nonempty : ds ≠ []
  digits : ds.all isDigit = true
  leading : ∀ rest, ds = 0x30 :: rest → rest = []

theorem valueFrom_append (acc : Nat) (a b : List UInt8) :
    valueFrom acc (a ++ b) = valueFrom (valueFrom acc a) b := foldl_append

theorem Whole.magnitude_eq {ds} (h : Whole ds) :
    magnitude ds = some (valueFrom 0 ds) := if_pos ⟨h.nonempty, h.digits⟩

/-- What is written for a number. -/
theorem decimal_spec (n : Nat) : Whole (decimal n) ∧ valueFrom 0 (decimal n) = n := by
  induction n using Nat.strongRecOn with
  | ind n ih =>
    rw [decimal_eq]
    split
    case isTrue h =>
      refine ⟨⟨by simp, by simp [isDigit_digitByte h], ?_⟩, ?_⟩
      · intro rest hrest
        exact (List.cons.inj hrest).2.symm
      · simp [valueFrom, toNat_digit h]
    case isFalse h =>
      have hlast : n % 10 < 10 := Nat.mod_lt n (by omega)
      obtain ⟨⟨hne, hdigits, hleading⟩, hvalue⟩ := ih (n / 10) (by omega)
      refine ⟨⟨by simp, by simp [hdigits, isDigit_digitByte hlast], ?_⟩, ?_⟩
      · intro rest hrest
        -- a leading zero would be the whole of `n / 10`, which is positive
        cases hd : decimal (n / 10) with
        | nil => exact absurd hd hne
        | cons d ds =>
          rw [hd] at hrest hvalue
          obtain ⟨rfl, -⟩ := List.cons.inj hrest
          rw [hleading ds hd] at hvalue
          simp only [valueFrom, foldl_cons, foldl_nil] at hvalue
          have : (0x30 : UInt8).toNat = 0x30 := rfl
          omega
      · rw [valueFrom_append, hvalue]
        simp only [valueFrom, foldl_cons, foldl_nil, toNat_digit hlast]
        omega

theorem length_decimal : ∀ {k n : Nat}, 0 < k → n < 10 ^ k → (decimal n).length ≤ k
  | 1, n, _, hn => by
    rw [decimal_eq, if_pos (show n < 10 from hn)]
    exact Nat.le_refl 1
  | k + 2, n, _, hn => by
    rw [decimal_eq]
    split
    · exact Nat.le_add_left 1 (k + 1)
    have hshort : n / 10 < 10 ^ (k + 1) := by
      rw [Nat.pow_succ] at hn
      omega
    have ih := length_decimal (Nat.succ_pos k) hshort
    rw [length_append]
    exact Nat.succ_le_succ ih

theorem Whole.head {ds} (h : Whole ds) : ∃ d rest, ds = d :: rest ∧ isDigit d = true := by
  cases hds : ds with
  | nil => exact absurd hds h.nonempty
  | cons d rest =>
    have hall := h.digits
    rw [hds, all_cons, Bool.and_eq_true] at hall
    exact ⟨d, rest, rfl, hall.1⟩

theorem Whole.not_sign {ds} (h : Whole ds) :
    parseI64 ds = (magnitude ds).bind fun n => inI64 n := by
  obtain ⟨d, rest, rfl, hd⟩ := h.head
  unfold parseI64
  split
  · rename_i heq
    rw [(List.cons.inj heq).1] at hd
    cases hd
  · rename_i heq
    rw [(List.cons.inj heq).1] at hd
    cases hd
  · rfl

theorem inI64_eq_some {n v} :
    inI64 n = some v ↔ (-2 ^ 63 ≤ n ∧ n < 2 ^ 63) ∧ Int64.ofInt n = v := by
  unfold inI64
  by_cases h : -2 ^ 63 ≤ n ∧ n < 2 ^ 63
  · rw [if_pos h]
    exact ⟨fun hv => ⟨h, Option.some.inj hv⟩, fun hv => congrArg some hv.2⟩
  · rw [if_neg h]
    exact ⟨nofun, fun hv => absurd hv.1 h⟩

/-- What is written for a signed number: a minus sign and a magnitude. -/
theorem renderI64_eq (n : Int64) :
    renderI64 n = (if n.toInt < 0 then [0x2d] else []) ++ decimal n.toInt.natAbs := by
  unfold renderI64 decimal
  generalize n.toInt = i
  cases i with
  | ofNat m =>
    have hm : ¬ Int.ofNat m < 0 := Int.not_lt.mpr (Int.natCast_nonneg m)
    rfl
  | negSucc m =>
    rw [if_pos (Int.negSucc_lt_zero m)]
    show utf8 ("-" ++ toString (m + 1)) = _
    rfl

end AgentArchivist.Lib.Decimal
