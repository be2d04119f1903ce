import AgentArchivist.Lib.Utf8
import Mathlib.Algebra.Group.Nat.Defs

/-! # The incremental SHA-256 hasher and the lowercase-hex codec

`Sha256` follows the source's hasher: eight state words, the bytes of the block
not yet full (the source's `buffer[..buffered]`, whose other bytes are never
read), and the wrapping byte count. Its loops run a known number of times, so
they are counted recursions here: `compressBlocks` once per whole block of the
input, `pad` at most once per byte of a block. -/
namespace AgentArchivist.Protocol.Sha256
open Lib.Utf8 List

def H0 : List UInt32 :=
  [0x6a09e667, 0xbb67ae85, 0x3c6ef372, 0xa54ff53a, 0x510e527f, 0x9b05688c, 0x1f83d9ab, 0x5be0cd19]

def K : List UInt32 :=
  [0x428a2f98, 0x71374491, 0xb5c0fbcf, 0xe9b5dba5, 0x3956c25b, 0x59f111f1, 0x923f82a4, 0xab1c5ed5,
   0xd807aa98, 0x12835b01, 0x243185be, 0x550c7dc3, 0x72be5d74, 0x80deb1fe, 0x9bdc06a7, 0xc19bf174,
   0xe49b69c1, 0xefbe4786, 0x0fc19dc6, 0x240ca1cc, 0x2de92c6f, 0x4a7484aa, 0x5cb0a9dc, 0x76f988da,
   0x983e5152, 0xa831c66d, 0xb00327c8, 0xbf597fc7, 0xc6e00bf3, 0xd5a79147, 0x06ca6351, 0x14292967,
   0x27b70a85, 0x2e1b2138, 0x4d2c6dfc, 0x53380d13, 0x650a7354, 0x766a0abb, 0x81c2c92e, 0x92722c85,
   0xa2bfe8a1, 0xa81a664b, 0xc24b8b70, 0xc76c51a3, 0xd192e819, 0xd6990624, 0xf40e3585, 0x106aa070,
   0x19a4c116, 0x1e376c08, 0x2748774c, 0x34b0bcb5, 0x391c0cb3, 0x4ed8aa4a, 0x5b9cca4f, 0x682e6ff3,
   0x748f82ee, 0x78a5636f, 0x84c87814, 0x8cc70208, 0x90befffa, 0xa4506ceb, 0xbef9a3f7, 0xc67178f2]

def rotateRight (x n : UInt32) : UInt32 := (x >>> n) ||| (x <<< (32 - n))

def u32FromBe (a b c d : UInt8) : UInt32 :=
  (a.toUInt32 <<< 24) ||| (b.toUInt32 <<< 16) ||| (c.toUInt32 <<< 8) ||| d.toUInt32

def u32ToBe (w : UInt32) : List UInt8 :=
  [(w >>> 24).toUInt8, (w >>> 16).toUInt8, (w >>> 8).toUInt8, w.toUInt8]

/-- `u64::to_be_bytes`. -/
def u64ToBe (n : UInt64) : List UInt8 :=
  [(n >>> 56).toUInt8, (n >>> 48).toUInt8, (n >>> 40).toUInt8, (n >>> 32).toUInt8,
   (n >>> 24).toUInt8, (n >>> 16).toUInt8, (n >>> 8).toUInt8, n.toUInt8]

@[simp] theorem u64ToBe_length (n : UInt64) : (u64ToBe n).length = 8 := rfl

/-- The sixteen words of a block, big-endian. -/
def words : List UInt8 → List UInt32
  | a :: b :: c :: d :: rest => u32FromBe a b c d :: words rest
  | _ => []

/-- The words `w[16..16 + n]` of the message schedule, from the sixteen before. -/
def schedule : Nat → List UInt32 → List UInt32
  | 0, _ => []
  | n + 1, w =>
    let w15 := w.getD 1 0
    let w2 := w.getD 14 0
    let s0 := rotateRight w15 7 ^^^ rotateRight w15 18 ^^^ (w15 >>> 3)
    let s1 := rotateRight w2 17 ^^^ rotateRight w2 19 ^^^ (w2 >>> 10)
    let next := w.getD 0 0 + s0 + w.getD 9 0 + s1
    next :: schedule n (w.drop 1 ++ [next])

/-- The working variables `a` to `h` through the rounds, one per schedule word. -/
def rounds : List (UInt32 × UInt32) → (a b c d e f g h : UInt32) → List UInt32
  | [], a, b, c, d, e, f, g, h => [a, b, c, d, e, f, g, h]
  | (k, w) :: rest, a, b, c, d, e, f, g, h =>
    let s1 := rotateRight e 6 ^^^ rotateRight e 11 ^^^ rotateRight e 25
    let ch := (e &&& f) ^^^ (~~~e &&& g)
    let t1 := h + s1 + ch + k + w
    let s0 := rotateRight a 2 ^^^ rotateRight a 13 ^^^ rotateRight a 22
    let maj := (a &&& b) ^^^ (a &&& c) ^^^ (b &&& c)
    let t2 := s0 + maj
    rounds rest (t1 + t2) a b c (d + t1) e f g

def compress (state : List UInt32) (block : List UInt8) : List UInt32 :=
  let w := words block
  match state with
  | [a, b, c, d, e, f, g, h] =>
    List.zipWith (· + ·) state (rounds (K.zip (w ++ schedule 48 w)) a b c d e f g h)
  | _ => state

/-- `while rest.len() >= 64`, for an input of `n` whole blocks. -/
def compressBlocks : Nat → List UInt32 → List UInt8 → List UInt32 × List UInt8
  | 0, state, rest => (state, rest)
  | n + 1, state, rest => compressBlocks n (compress state (rest.take 64)) (rest.drop 64)

/-- The buffer takes what it has room for; a full one is compressed, then the
whole blocks of the rest, whose tail is the new buffer. -/
def absorb (state : List UInt32) (buffer rest : List UInt8) : List UInt32 × List UInt8 :=
  if buffer.length + rest.length < 64 then (state, buffer ++ rest)
  else if buffer.isEmpty then compressBlocks (rest.length / 64) state rest
  else
    let want := 64 - buffer.length
    let rest' := rest.drop want
    compressBlocks (rest'.length / 64) (compress state (buffer ++ rest.take want)) rest'

/-! ## Blocks and buffers -/

theorem rounds_length : ∀ (ws : List (UInt32 × UInt32)) (a b c d e f g h : UInt32),
    (rounds ws a b c d e f g h).length = 8
  | [], _, _, _, _, _, _, _, _ => rfl
  | _ :: rest, _, _, _, _, _, _, _, _ => rounds_length rest _ _ _ _ _ _ _ _

theorem compress_length {state} (h : state.length = 8) (block : List UInt8) :
    (compress state block).length = 8 := by
  unfold compress
  split
  · simp [rounds_length]
  · exact h

theorem compressBlocks_state : ∀ (n : Nat) {state : List UInt32} (rest : List UInt8),
    state.length = 8 → (compressBlocks n state rest).1.length = 8
  | 0, _, _, h => h
  | n + 1, _, rest, h => compressBlocks_state n (rest.drop 64) (compress_length h _)

theorem compressBlocks_rest : ∀ (n : Nat) (state : List UInt32) (rest : List UInt8),
    (compressBlocks n state rest).2 = rest.drop (64 * n)
  | 0, _, _ => rfl
  | n + 1, state, rest => by
    rw [compressBlocks, compressBlocks_rest n, drop_drop]
    congr 1
    omega

variable {buffer : List UInt8}

/-- Buffering changes nothing: absorbing is compressing the blocks of the
buffered bytes and the new ones taken together. -/
theorem absorb_eq (state : List UInt32) (hb : buffer.length < 64)
    (rest : List UInt8) : absorb state buffer rest =
      compressBlocks ((buffer ++ rest).length / 64) state (buffer ++ rest) := by
  unfold absorb
  split
  · rename_i hlt
    rw [Nat.div_eq_of_lt (by simpa using hlt)]
    rfl
  split
  · rename_i he
    rw [List.isEmpty_iff.mp he, nil_append]
  have hdiv : (buffer ++ rest).length / 64 =
      (rest.drop (64 - buffer.length)).length / 64 + 1 := by
    simp only [length_append, length_drop]
    omega
  rw [hdiv, compressBlocks, take_append, drop_append,
    take_of_length_le (l := buffer) (by omega),
    drop_of_length_le (l := buffer) (by omega), nil_append]

/-- The blocks of a prefix, then the blocks of its tail with what follows. -/
theorem compressBlocks_append (n : Nat) : ∀ (state : List UInt32) (a b : List UInt8),
    a.length / 64 = n →
    compressBlocks ((a ++ b).length / 64) state (a ++ b) =
      let r := compressBlocks n state a
      compressBlocks ((r.2 ++ b).length / 64) r.1 (r.2 ++ b) := by
  induction n with
  | zero => intro state a b _; rfl
  | succ n ih =>
    intro state a b h
    have hl : 64 ≤ a.length := by omega
    have hdiv : (a ++ b).length / 64 = (a.drop 64 ++ b).length / 64 + 1 := by
      simp only [length_append, length_drop]
      omega
    rw [hdiv, compressBlocks, take_append_of_le_length hl,
      drop_append_of_le_length hl]
    exact ih _ _ _ (by simp only [length_drop]; omega)

/-! ## The hasher -/

/-- The source's `Sha256`: the state words, `buffer[..buffered]` and the length. -/
structure Hasher where
  state : List UInt32
  buffer : List UInt8
  length : UInt64
  words : state.length = 8
  buffered : buffer.length < 64
  deriving DecidableEq, Repr

def new : Hasher := ⟨H0, [], 0, rfl, by decide⟩

theorem absorb_words {state} (hs : state.length = 8) (hb : buffer.length < 64) (rest : List UInt8) :
    (absorb state buffer rest).1.length = 8 := by
  rw [absorb_eq state hb]
  exact compressBlocks_state _ _ hs

theorem absorb_buffered (state : List UInt32) (hb : buffer.length < 64)
    (rest : List UInt8) : (absorb state buffer rest).2.length < 64 := by
  rw [absorb_eq state hb, compressBlocks_rest, length_drop]
  omega

def update (h : Hasher) (data : List UInt8) : Hasher :=
  let r := absorb h.state h.buffer data
  ⟨r.1, r.2, h.length + UInt64.ofNat data.length, absorb_words h.words h.buffered data,
    absorb_buffered h.state h.buffered data⟩

/-- `while self.buffered != 56`: zero bytes, at most a block of them. -/
def pad : Nat → Hasher → Hasher
  | 0, h => h
  | n + 1, h => if h.buffer.length = 56 then h else pad n (update h [0])

def finalize (h : Hasher) : List UInt8 :=
  let padded := pad 64 (update h [0x80])
  (compress padded.state (padded.buffer.take 56 ++ u64ToBe (h.length * 8))).flatMap u32ToBe

/-- One-shot SHA-256. -/
def digest (data : List UInt8) : List UInt8 := finalize (update new data)

theorem finalize_length (h : Hasher) : (finalize h).length = 32 := by
  simp [finalize, length_flatMap, u32ToBe, compress_length (pad 64 (update h [0x80])).words]

theorem digest_length (data : List UInt8) : (digest data).length = 32 := finalize_length _

/-- Streaming: two updates are one update of the concatenation. -/
theorem update_update (h : Hasher) (a b : List UInt8) :
    update (update h a) b = update h (a ++ b) := by
  have hb := (update h a).buffered
  have key : absorb (update h a).state (update h a).buffer b =
      absorb h.state h.buffer (a ++ b) := by
    rw [absorb_eq _ hb, absorb_eq _ h.buffered, ← append_assoc]
    rw [compressBlocks_append _ h.state (h.buffer ++ a) b rfl]
    simp only [update, absorb_eq _ h.buffered]
  rw [Hasher.mk.injEq]
  refine ⟨congrArg Prod.fst key, congrArg Prod.snd key, ?_⟩
  simp only [update, length_append, UInt64.ofNat_add, UInt64.add_assoc]

theorem update_nil (h : Hasher) : update h [] = h := by
  simp [update, absorb, h.buffered]

example : digest [] =
    [0xe3, 0xb0, 0xc4, 0x42, 0x98, 0xfc, 0x1c, 0x14, 0x9a, 0xfb, 0xf4, 0xc8, 0x99, 0x6f, 0xb9, 0x24,
     0x27, 0xae, 0x41, 0xe4, 0x64, 0x9b, 0x93, 0x4c, 0xa4, 0x95, 0x99, 0x1b, 0x78, 0x52, 0xb8, 0x55] := by
  decide +kernel

/-! ## Lowercase hexadecimal -/

def HEX : List Char :=
  ['0', '1', '2', '3', '4', '5', '6', '7', '8', '9', 'a', 'b', 'c', 'd', 'e', 'f']

def hexChar (nibble : UInt8) : Char := HEX.getD nibble.toNat '0'

def encodeHex (bytes : List UInt8) : String :=
  String.ofList (bytes.flatMap fun byte : UInt8 =>
    [hexChar (byte >>> 4), hexChar (byte &&& 0x0f)])

def hexValue (c : UInt8) : Option UInt8 :=
  if 0x30 ≤ c ∧ c ≤ 0x39 then some (c - 0x30)
  else if 0x61 ≤ c ∧ c ≤ 0x66 then some (c - 0x61 + 10)
  else none

/-- `chunks_exact(2)`, each pair one byte. -/
def decodePairs : List UInt8 → Option (List UInt8)
  | a :: b :: rest => do
    let hi ← hexValue a
    let lo ← hexValue b
    return ((hi <<< 4) ||| lo) :: (← decodePairs rest)
  | _ => some []

def decodeHex (text : String) : Option (List UInt8) :=
  let raw := utf8 text
  if raw.length % 2 ≠ 0 then none else decodePairs raw

/-- A property of all bytes, decided value by value. -/
theorem forall_uint8 {p : UInt8 → Prop} (h : ∀ n : Fin 256, p (UInt8.ofNat n)) (b : UInt8) : p b := by
  have := h ⟨b.toNat, b.toNat_lt⟩
  simpa using this

/-- The two digits of a byte, as bytes. -/
def hexPair (byte : UInt8) : List UInt8 :=
  String.utf8EncodeChar (hexChar (byte >>> 4)) ++ String.utf8EncodeChar (hexChar (byte &&& 0x0f))

theorem utf8_encodeHex (bytes : List UInt8) : utf8 (encodeHex bytes) = bytes.flatMap hexPair := by
  rw [encodeHex, utf8_ofList, flatMap_assoc]
  simp only [flatMap_cons, flatMap_nil, append_nil]
  rfl

theorem hexPair_spec : ∀ byte : UInt8, ∃ a b, hexPair byte = [a, b] ∧
    hexValue a = some (byte >>> 4) ∧ hexValue b = some (byte &&& 0x0f) ∧
    ((byte >>> 4) <<< 4) ||| (byte &&& 0x0f) = byte := by
  intro byte
  refine ⟨(hexPair byte).getD 0 0, (hexPair byte).getD 1 0, ?_⟩
  revert byte
  exact forall_uint8 (by decide +kernel)

theorem decodePairs_flatMap (bytes : List UInt8) :
    decodePairs (bytes.flatMap hexPair) = some bytes := by
  induction bytes with
  | nil => rfl
  | cons byte rest ih =>
    obtain ⟨a, b, hp, ha, hb, hbyte⟩ := hexPair_spec byte
    simp [flatMap_cons, hp, decodePairs, ha, hb, ih, hbyte]

theorem flatMap_hexPair_length (bytes : List UInt8) :
    (bytes.flatMap hexPair).length = 2 * bytes.length := by
  induction bytes with
  | nil => rfl
  | cons byte rest ih =>
    obtain ⟨a, b, hp, -⟩ := hexPair_spec byte
    simp [flatMap_cons, hp, ih]
    omega

/-- Rendering and decoding a digest gives it back. -/
theorem decodeHex_encodeHex (bytes : List UInt8) : decodeHex (encodeHex bytes) = some bytes := by
  have heven : ¬ (bytes.flatMap hexPair).length % 2 ≠ 0 := by
    rw [flatMap_hexPair_length]
    omega
  rw [decodeHex, utf8_encodeHex, if_neg heven, decodePairs_flatMap]

theorem hexPair_value : ∀ c d v w : UInt8, hexValue c = some v → hexValue d = some w →
    hexPair ((v <<< 4) ||| w) = [c, d] := by
  have digit : ∀ c v : UInt8, hexValue c = some v →
      v.toNat < 16 ∧ String.utf8EncodeChar (hexChar v) = [c] := by
    have h : ∀ c : UInt8, (hexValue c).all (fun v => decide (v.toNat < 16 ∧
        String.utf8EncodeChar (hexChar v) = [c])) = true := forall_uint8 (by decide +kernel)
    intro c v hv
    have hc := h c
    rw [hv] at hc
    exact of_decide_eq_true hc
  have nibbles : ∀ v w : Fin 16,
      (((UInt8.ofNat v) <<< 4) ||| UInt8.ofNat w) >>> 4 = UInt8.ofNat v ∧
      (((UInt8.ofNat v) <<< 4) ||| UInt8.ofNat w) &&& 0x0f = UInt8.ofNat w := by decide +kernel
  intro c d v w hv hw
  obtain ⟨hv16, hvc⟩ := digit c v hv
  obtain ⟨hw16, hwd⟩ := digit d w hw
  obtain ⟨h1, h2⟩ := nibbles ⟨v.toNat, hv16⟩ ⟨w.toNat, hw16⟩
  simp only [UInt8.ofNat_toNat] at h1 h2
  rw [hexPair, h1, h2, hvc, hwd, singleton_append]

theorem flatMap_of_decodePairs : ∀ {raw bytes : List UInt8}, raw.length % 2 = 0 →
    decodePairs raw = some bytes → bytes.flatMap hexPair = raw
  | [], _, _, h => by simp only [decodePairs, Option.some.injEq] at h; subst h; rfl
  | [_], _, hl, _ => by simp at hl
  | c :: d :: rest, bytes, hl, h => by
    simp only [decodePairs, Option.bind_eq_bind, Option.bind_eq_some_iff, Option.pure_def,
      Option.some.injEq] at h
    obtain ⟨v, hv, w, hw, tail, ht, rfl⟩ := h
    rw [flatMap_cons, hexPair_value c d v w hv hw,
      flatMap_of_decodePairs (by simp at hl ⊢; omega) ht]
    rfl

/-- Decoding keeps the text: only one text decodes to a byte sequence. -/
theorem encodeHex_of_decodeHex {text bytes} (h : decodeHex text = some bytes) :
    encodeHex bytes = text := by
  unfold decodeHex at h
  dsimp only at h
  split at h
  · cases h
  apply utf8_injective
  rw [utf8_encodeHex]
  exact flatMap_of_decodePairs (by omega) h

end AgentArchivist.Protocol.Sha256
