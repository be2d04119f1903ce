import AgentArchivist.Protocol.Sha256
import Mathlib.Data.Nat.NthRoot.Defs
import Mathlib.Data.Nat.Prime.Defs

/-! # The hasher computes FIPS 180-4

The standard is stated in its own terms: constants from the roots of primes, the message
schedule as a recurrence, the padded message as one byte string, the hash value over its
blocks. However a message is split into updates, the hasher returns its digest. -/
namespace AgentArchivist.Protocol.Sha256Standard
open Sha256 List

/-! ## The standard -/

/-- The first sixty-four primes. -/
def primes : List Nat := (List.range 312).filter Nat.Prime

/-- The first thirty-two bits of the fractional part of the `n`-th root of `p`. -/
def rootBits (n p : Nat) : UInt32 := UInt32.ofNat (Nat.nthRoot n (p * 2 ^ (32 * n)))

def constant (t : Nat) : UInt32 := rootBits 3 (primes.getD t 0)

def ROTR (n x : UInt32) : UInt32 := (x >>> n) ||| (x <<< (32 - n))

def Ch (x y z : UInt32) : UInt32 := (x &&& y) ^^^ (~~~x &&& z)

def Maj (x y z : UInt32) : UInt32 := (x &&& y) ^^^ (x &&& z) ^^^ (y &&& z)

def Sigma0 (x : UInt32) : UInt32 := ROTR 2 x ^^^ ROTR 13 x ^^^ ROTR 22 x

def Sigma1 (x : UInt32) : UInt32 := ROTR 6 x ^^^ ROTR 11 x ^^^ ROTR 25 x

def sigma0 (x : UInt32) : UInt32 := ROTR 7 x ^^^ ROTR 18 x ^^^ (x >>> 3)

def sigma1 (x : UInt32) : UInt32 := ROTR 17 x ^^^ ROTR 19 x ^^^ (x >>> 10)

/-- The words `M` of a block, then the recurrence. -/
def W (M : Nat → UInt32) (t : Nat) : UInt32 :=
  if t < 16 then M t
  else sigma1 (W M (t - 2)) + W M (t - 7) + sigma0 (W M (t - 15)) + W M (t - 16)
termination_by t

/-- The working variables, and a hash value. -/
structure Words where
  (a b c d e f g h : UInt32)

def Words.toList (v : Words) : List UInt32 := [v.a, v.b, v.c, v.d, v.e, v.f, v.g, v.h]

def initial : Words :=
  let root i := rootBits 2 (primes.getD i 0)
  ⟨root 0, root 1, root 2, root 3, root 4, root 5, root 6, root 7⟩

def round (v : Words) (k w : UInt32) : Words :=
  let T1 := v.h + Sigma1 v.e + Ch v.e v.f v.g + k + w
  let T2 := Sigma0 v.a + Maj v.a v.b v.c
  ⟨T1 + T2, v.a, v.b, v.c, v.d + T1, v.e, v.f, v.g⟩

def hashBlock (H : Words) (M : Nat → UInt32) : Words :=
  let v := (List.range 64).foldl (fun v t => round v (constant t) (W M t)) H
  ⟨v.a + H.a, v.b + H.b, v.c + H.c, v.d + H.d, v.e + H.e, v.f + H.f, v.g + H.g, v.h + H.h⟩

/-- Word `t` of a block, big-endian. -/
def wordAt (block : List UInt8) (t : Nat) : UInt32 :=
  let byte i := block.getD (4 * t + i) 0
  u32FromBe (byte 0) (byte 1) (byte 2) (byte 3)

/-- A one bit, as few zeros as end 64 bits before a block does, and the length in bits. -/
def padded (message : List UInt8) : List UInt8 :=
  message ++ 0x80 :: List.replicate ((119 - message.length % 64) % 64) 0 ++
    (List.range 8).map fun i => UInt8.ofNat (8 * message.length / 256 ^ (7 - i))

/-- The hash value after `n` blocks. -/
def hashValue (H : Words) (bytes : List UInt8) (n : Nat) : Words :=
  (List.range n).foldl (fun H i => hashBlock H (wordAt ((bytes.drop (64 * i)).take 64))) H

def sha256 (message : List UInt8) : List UInt8 :=
  (hashValue initial (padded message) ((padded message).length / 64)).toList.flatMap u32ToBe

/-! ## One block -/

theorem K_eq : K = (List.range 64).map constant := by decide +kernel

theorem initial_eq : initial.toList = H0 := by decide +kernel

/-- Sixteen words of the recurrence give the ones after them. -/
theorem schedule_eq (M : Nat → UInt32) (n k : Nat) :
    schedule n ((List.range' k 16).map (W M)) = (List.range' (k + 16) n).map (W M) := by
  induction n generalizing k with
  | zero => rfl
  | succ n ih =>
    have hnext : W M (k + 16) =
        W M k + sigma0 (W M (k + 1)) + W M (k + 9) + sigma1 (W M (k + 14)) := by
      rw [W, if_neg (by omega)]
      show sigma1 (W M (k + 14)) + W M (k + 9) + sigma0 (W M (k + 1)) + W M k = _
      ac_rfl
    have hstep : schedule (n + 1) ((List.range' k 16).map (W M)) =
        W M (k + 16) :: schedule n ((List.range' (k + 1) 16).map (W M)) := by
      show _ = W M (k + 16) :: schedule n (((List.range' k 16).map (W M)).drop 1 ++ [W M (k + 16)])
      rw [hnext]
      rfl
    rw [hstep, ih, Nat.add_right_comm]
    rfl

theorem rounds_eq (v : Words) (ws : List (UInt32 × UInt32)) :
    rounds ws v.a v.b v.c v.d v.e v.f v.g v.h =
      (ws.foldl (fun v w => round v w.1 w.2) v).toList := by
  induction ws generalizing v with
  | nil => rfl
  | cons w ws ih => exact ih (round v w.1 w.2)

theorem words_eq (n : Nat) (block : List UInt8) (h : block.length = 4 * n) :
    words block = (List.range n).map (wordAt block) := by
  induction n generalizing block with
  | zero => rw [length_eq_zero_iff.mp h]; rfl
  | succ n ih =>
    rcases block with _ | ⟨a, _ | ⟨b, _ | ⟨c, _ | ⟨d, rest⟩⟩⟩⟩ <;>
      simp only [length_cons, length_nil] at h <;> try omega
    rw [words, ih rest (by omega), range_succ_eq_map, map_cons, map_map]
    rfl

theorem compress_eq (H : Words) {block : List UInt8} (h : block.length = 64) :
    compress H.toList block = (hashBlock H (wordAt block)).toList := by
  have hwords : words block = (List.range' 0 16).map (W (wordAt block)) := by
    rw [words_eq 16 block h, range_eq_range']
    refine map_congr_left fun t ht => ?_
    rw [W, if_pos (by simpa using ht)]
  have hschedule : K.zip (words block ++ schedule 48 (words block)) =
      (List.range 64).map fun t => (constant t, W (wordAt block) t) := by
    rw [hwords, schedule_eq, ← map_append, K_eq]
    exact zip_map' ..
  show List.zipWith (· + ·) H.toList (rounds _ H.a H.b H.c H.d H.e H.f H.g H.h) = _
  rw [hschedule, rounds_eq, foldl_map]
  simp only [hashBlock, Words.toList, zipWith_cons_cons, zipWith_nil_left, UInt32.add_comm]

/-! ## The blocks of a message -/

theorem compressBlocks_eq (n : Nat) (H : Words) (bytes : List UInt8) (h : 64 * n ≤ bytes.length) :
    (compressBlocks n H.toList bytes).1 = (hashValue H bytes n).toList := by
  induction n generalizing H bytes with
  | zero => rfl
  | succ n ih =>
    have hblock : (bytes.take 64).length = 64 := by
      rw [length_take]
      omega
    rw [compressBlocks, compress_eq H hblock, ih _ _ (by rw [length_drop]; omega)]
    simp only [hashValue, range_succ_eq_map, foldl_cons, foldl_map, drop_drop,
      Nat.mul_zero, drop_zero, Nat.mul_succ, Nat.add_comm 64]

theorem buffer_length (h : Hasher) (data : List UInt8) :
    (update h data).buffer.length = (h.buffer.length + data.length) % 64 := by
  simp only [update, absorb_eq _ h.buffered, compressBlocks_rest, length_drop,
    length_append]
  omega

/-- The loop pushes as many zeros as the buffer lacks. -/
theorem pad_eq (n : Nat) (h : Hasher) (hn : (120 - h.buffer.length) % 64 ≤ n) :
    pad n h = update h (List.replicate ((120 - h.buffer.length) % 64) 0) := by
  have hbuffered := h.buffered
  induction n generalizing h with
  | zero =>
    rw [Nat.le_zero.mp hn]
    exact (update_nil h).symm
  | succ n ih =>
    rw [pad]
    split
    · rename_i hfull
      rw [hfull]
      exact (update_nil h).symm
    · have hlength := buffer_length h [0]
      rw [length_singleton] at hlength
      have hcount : (120 - h.buffer.length) % 64 = (120 - (update h [0]).buffer.length) % 64 + 1 := by
        omega
      rw [ih _ (by omega) (update h [0]).buffered, update_update, hcount, replicate_succ]
      rfl

theorem lengthBytes_eq {n : Nat} (h : n < 2 ^ 61) : u64ToBe (UInt64.ofNat n * 8) =
    (List.range 8).map fun i => UInt8.ofNat (8 * n / 256 ^ (7 - i)) := by
  have hbits : (UInt64.ofNat n * 8).toNat = 8 * n := by
    rw [UInt64.toNat_mul, UInt64.toNat_ofNat_of_lt' (by show n < 2 ^ 64; omega)]
    show n * 8 % 2 ^ 64 = 8 * n
    omega
  rw [← hbits]
  generalize UInt64.ofNat n * 8 = bits
  simp [u64ToBe, List.range, List.range.loop, ← UInt8.toNat_inj, Nat.shiftRight_eq_div_pow]

/-- The words of a fresh hasher are those of the standard's hash value. -/
theorem state_eq (bytes : List UInt8) :
    (update new bytes).state = (hashValue initial bytes (bytes.length / 64)).toList := by
  rw [← compressBlocks_eq _ _ _ (by omega), initial_eq]
  exact congrArg Prod.fst (absorb_eq H0 (by decide) bytes)

/-- A block that the buffer and the rest make up is compressed. -/
theorem state_full (h : Hasher) {rest : List UInt8} (hfull : h.buffer.length + rest.length = 64) :
    (update h rest).state = compress h.state (h.buffer ++ rest) := by
  have hlength : (h.buffer ++ rest).length = 64 := by rw [length_append, hfull]
  simp only [update, absorb_eq _ h.buffered, hlength, compressBlocks,
    take_of_length_le (Nat.le_of_eq hlength)]

theorem foldl_update (chunks : List (List UInt8)) (h : Hasher) :
    chunks.foldl update h = update h chunks.flatten := by
  induction chunks generalizing h with
  | nil => exact (update_nil h).symm
  | cons chunk chunks ih => rw [foldl_cons, ih, update_update, flatten_cons]

/-- However a message is split into updates, the digest is the standard's. -/
theorem finalize_eq_standard (chunks : List (List UInt8)) (h : chunks.flatten.length < 2 ^ 61) :
    finalize (chunks.foldl update new) = sha256 chunks.flatten := by
  rw [foldl_update]
  generalize chunks.flatten = message at h ⊢
  let body := message ++ 0x80 :: List.replicate ((119 - message.length % 64) % 64) 0
  have hpad : pad 64 (update (update new message) [0x80]) = update new body := by
    have hbuffer := buffer_length new (message ++ [0x80])
    have hnew : new.buffer.length = 0 := rfl
    rw [hnew, length_append, length_singleton] at hbuffer
    have hzeros : (120 - (update new (message ++ [0x80])).buffer.length) % 64 =
        (119 - message.length % 64) % 64 := by omega
    rw [update_update, pad_eq 64 _ (by omega), hzeros, update_update, append_assoc]
    rfl
  have hbody : (update new body).buffer.length = 56 := by
    rw [buffer_length]
    simp only [new, body, length_append, length_cons, length_replicate, length_nil]
    omega
  have hbits : (update new message).length * 8 = UInt64.ofNat message.length * 8 := by
    rw [update, new, UInt64.zero_add]
  have hlast := @state_full (update new body) (u64ToBe (UInt64.ofNat message.length * 8)) (by
    rw [hbody, u64ToBe_length])
  rw [finalize, hpad, take_of_length_le (Nat.le_of_eq hbody), hbits, ← hlast, update_update,
    lengthBytes_eq h, state_eq]
  rfl

theorem finalize_eq_standard_abc : finalize ([[0x61], [], [0x62, 0x63]].foldl update new) =
    sha256 [0x61, 0x62, 0x63] := finalize_eq_standard [[0x61], [], [0x62, 0x63]] (by decide)

end AgentArchivist.Protocol.Sha256Standard
