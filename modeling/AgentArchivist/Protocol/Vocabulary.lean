import AgentArchivist.Protocol.Sha256

/-! # The wire vocabulary

Identifier grammars, digests and the closed v1 enum sets. A value carries the
proof that its text passed its grammar, so a value that exists is one whose
wire text is canonical: the three families below (`Text`, `Digest`,
`ClosedEnum`) each render to exactly the text they were parsed from. -/
namespace AgentArchivist.Protocol.Vocabulary
open Lib.Utf8 Protocol.Sha256

/-- Why a candidate wire token is not a value of the target type. -/
inductive GrammarError where
  | notCanonical
deriving DecidableEq, Repr

/-! ## Character classes -/

def isAsciiDigit (c : UInt8) : Bool := 0x30 ≤ c && c ≤ 0x39
def isAsciiLowercase (c : UInt8) : Bool := 0x61 ≤ c && c ≤ 0x7a
def isAsciiUppercase (c : UInt8) : Bool := 0x41 ≤ c && c ≤ 0x5a
def isAsciiAlphanumeric (c : UInt8) : Bool :=
  isAsciiDigit c || isAsciiLowercase c || isAsciiUppercase c
def isLowerHex (c : UInt8) : Bool := isAsciiDigit c || (0x61 ≤ c && c ≤ 0x66)

/-- `raw[lo..hi]`. -/
def slice (raw : List UInt8) (lo hi : Nat) : List UInt8 := (raw.drop lo).take (hi - lo)

/-! ## Grammars -/

/-- `^[0-9a-f]{8}-[0-9a-f]{4}-<v>[0-9a-f]{3}-[89ab][0-9a-f]{3}-[0-9a-f]{12}$`. -/
def uuidGrammar (version : UInt8) (text : String) : Bool :=
  let raw := utf8 text
  raw.length == 36 && raw.zipIdx.all fun (c, i) =>
    if i = 8 ∨ i = 13 ∨ i = 18 ∨ i = 23 then c == 0x2d
    else if i = 14 then c == 0x30 + version
    else if i = 19 then c == 0x38 || c == 0x39 || c == 0x61 || c == 0x62
    else isLowerHex c

/-- `^[a-z0-9][a-z0-9._-]{0,63}$`. -/
def shortTokenGrammar (text : String) : Bool :=
  match utf8 text with
  | [] => false
  | c :: rest =>
    rest.length + 1 ≤ 64 && (isAsciiLowercase c || isAsciiDigit c) &&
      rest.all fun c => isAsciiLowercase c || isAsciiDigit c || c == 0x2e || c == 0x5f || c == 0x2d

/-- `^[0-9A-Za-z._+-]{1,32}$`. -/
def versionTokenGrammar (text : String) : Bool :=
  let raw := utf8 text
  !raw.isEmpty && raw.length ≤ 32 &&
    raw.all fun c => isAsciiAlphanumeric c || c == 0x2e || c == 0x5f || c == 0x2b || c == 0x2d

/-- One to 1024 bytes of any text. -/
def opaqueIdGrammar (text : String) : Bool :=
  let raw := utf8 text
  !raw.isEmpty && raw.length ≤ 1024

/-- Date, `T`, time, an optional fraction of one to nine digits, `Z`. -/
def timestampGrammar (text : String) : Bool :=
  let raw := utf8 text
  let digits (lo hi : Nat) := (slice raw lo hi).all isAsciiDigit
  let tail := raw.drop 19
  20 ≤ raw.length && raw.length ≤ 35 &&
    raw.getD 4 0 == 0x2d && raw.getD 7 0 == 0x2d && raw.getD 10 0 == 0x54 &&
    raw.getD 13 0 == 0x3a && raw.getD 16 0 == 0x3a &&
    digits 0 4 && digits 5 7 && digits 8 10 && digits 11 13 && digits 14 16 && digits 17 19 &&
    tail.getLast? == some 0x5a &&
    (tail.length == 1 ||
      (3 ≤ tail.length && tail.head? == some 0x2e &&
        (slice tail 1 (tail.length - 1)).all isAsciiDigit &&
        2 ≤ tail.length - 1 && tail.length - 1 ≤ 10))

/-- The boundary charset `[0-9A-Za-z'()+_,.:=?-]`. -/
def isBoundaryChar (c : UInt8) : Bool :=
  isAsciiAlphanumeric c || [0x27, 0x28, 0x29, 0x2b, 0x5f, 0x2c, 0x2e, 0x3a, 0x3d, 0x3f, 0x2d].contains c

/-- The literal 28 bytes before the boundary. -/
def contentTypePrefix : List UInt8 := utf8 "multipart/related; boundary="

def contentTypeGrammar (text : String) : Bool :=
  let raw := utf8 text
  let boundary := raw.drop contentTypePrefix.length
  raw.length ≤ 100 && contentTypePrefix.isPrefixOf raw &&
    1 ≤ boundary.length && boundary.length ≤ 70 && boundary.all isBoundaryChar

/-- One segment of an error code: `[a-z][a-z0-9_]{0,23}`. -/
def errorCodeSegment : List UInt8 → Bool
  | [] => false
  | c :: rest =>
    rest.length + 1 ≤ 24 && isAsciiLowercase c &&
      rest.all fun c => isAsciiLowercase c || isAsciiDigit c || c == 0x5f

/-- `domain.condition`, split at the first dot. -/
def errorCodeGrammar (text : String) : Bool :=
  let raw := utf8 text
  match raw.findIdx? (· == 0x2e) with
  | none => false
  | some dot => 0 < dot && errorCodeSegment (raw.take dot) && errorCodeSegment (raw.drop (dot + 1))

/-! ## Text newtypes -/

/-- Stored wire text together with the proof that its grammar holds. -/
structure Text (validate : String → Bool) where
  text : String
  valid : validate text = true
deriving DecidableEq

namespace Text

variable {validate : String → Bool}

def parse (text : String) : Except GrammarError (Text validate) :=
  if h : validate text = true then .ok ⟨text, h⟩ else .error .notCanonical

def asStr (t : Text validate) : String := t.text

@[ext] theorem ext {a b : Text validate} (h : a.asStr = b.asStr) : a = b := by
  cases a; cases b; simpa [asStr] using h

theorem parse_asStr (t : Text validate) : parse t.asStr = .ok t := by
  simp [parse, asStr, t.valid]

theorem asStr_of_parse {text} {t : Text validate} (h : parse text = .ok t) : t.asStr = text := by
  unfold parse at h
  split at h
  · cases h; rfl
  · cases h

end Text

abbrev TenantId := Text (uuidGrammar 4)
abbrev ClientId := Text (uuidGrammar 4)
abbrev GenerationId := Text (uuidGrammar 7)
abbrev RequestId := Text (uuidGrammar 7)
abbrev TraceId := Text (uuidGrammar 7)
abbrev InferenceRequestId := Text (uuidGrammar 7)
abbrev ProviderAttemptId := Text (uuidGrammar 7)
abbrev HarnessId := Text shortTokenGrammar
abbrev AdapterId := Text shortTokenGrammar
abbrev VersionToken := Text versionTokenGrammar
abbrev OpaqueId := Text opaqueIdGrammar
abbrev Timestamp := Text timestampGrammar
abbrev ContentType := Text contentTypeGrammar
abbrev ErrorCode := Text errorCodeGrammar

/-- Whether the stored timestamp is a real calendar instant; the leap second is one. -/
def calendarValid (t : Timestamp) : Bool :=
  let raw := utf8 t.asStr
  let number (lo hi : Nat) := (slice raw lo hi).foldl (fun acc c => acc * 10 + (c - 0x30).toNat) 0
  let year := number 0 4
  let month := number 5 7
  let day := number 8 10
  let leap := year % 4 == 0 && (year % 100 != 0 || year % 400 == 0)
  let daysInMonth :=
    if [1, 3, 5, 7, 8, 10, 12].contains month then 31
    else if [4, 6, 9, 11].contains month then 30
    else if leap then 29 else 28
  1 ≤ month && month ≤ 12 && 1 ≤ day && day ≤ daysInMonth &&
    number 11 13 < 24 && number 14 16 < 60 && number 17 19 ≤ 60

/-! ## Digests -/

theorem isLowerHex_hexPair (byte : UInt8) : (hexPair byte).all isLowerHex = true := by
  revert byte
  exact forall_uint8 (by decide +kernel)

/-- The lowercase hexadecimal characters of exactly `n` bytes. -/
def hexBytes (n : Nat) (text : String) : Except GrammarError (List UInt8) :=
  let bytes := utf8 text
  if bytes.length ≠ 2 * n ∨ ¬ bytes.all isLowerHex then .error .notCanonical
  else match decodeHex text with
    | none => .error .notCanonical
    | some raw => if raw.length = n then .ok raw else .error .notCanonical

theorem hexBytes_ok {n text} {raw} :
    hexBytes n text = .ok raw ↔ raw.length = n ∧ encodeHex raw = text := by
  constructor
  · intro h
    unfold hexBytes at h
    dsimp only at h
    split at h
    · cases h
    split at h
    · cases h
    rename_i hd
    split at h
    · rename_i hlen
      cases h
      exact ⟨hlen, encodeHex_of_decodeHex hd⟩
    · cases h
  · rintro ⟨hlen, rfl⟩
    have hl : (utf8 (encodeHex raw)).length = 2 * n := by
      rw [utf8_encodeHex, flatMap_hexPair_length, hlen]
    have ha : (utf8 (encodeHex raw)).all isLowerHex = true := by
      rw [utf8_encodeHex, List.all_eq_true]
      intro c hc
      obtain ⟨byte, -, hb⟩ := List.mem_flatMap.mp hc
      exact List.all_eq_true.mp (isLowerHex_hexPair byte) c hb
    unfold hexBytes
    simp only [hl, ha, not_true_eq_false, or_self, ne_eq, if_false]
    rw [decodeHex_encodeHex]
    simp [hlen]

/-- A 32-byte digest. -/
structure Digest where
  raw : List UInt8
  length_raw : raw.length = 32
deriving DecidableEq

namespace Digest

def ofList (raw : List UInt8) (h : raw.length = 32) : Digest := ⟨raw, h⟩

/-- Exactly 64 lowercase hexadecimal characters. -/
def parse (text : String) : Except GrammarError Digest :=
  let bytes := utf8 text
  if bytes.length ≠ 64 ∨ ¬ bytes.all isLowerHex then .error .notCanonical
  else match decodeHex text with
    | none => .error .notCanonical
    | some raw => if h : raw.length = 32 then .ok ⟨raw, h⟩ else .error .notCanonical

def toHex (d : Digest) : String := encodeHex d.raw

/-- One byte throughout. -/
def fill (b : UInt8) : Digest := ⟨List.replicate 32 b, List.length_replicate⟩

@[ext] theorem ext {a b : Digest} (h : a.raw = b.raw) : a = b := by
  cases a; cases b; simpa using h

theorem map_raw_parse (text : String) : (parse text).map raw = hexBytes 32 text := by
  unfold parse hexBytes
  dsimp only
  split
  · rfl
  · split
    · rfl
    · split <;> rfl

theorem parse_toHex (d : Digest) : parse d.toHex = .ok d := by
  have hraw := (map_raw_parse d.toHex).trans (hexBytes_ok.mpr ⟨d.length_raw, rfl⟩)
  cases hp : parse d.toHex with
  | error e =>
    rw [hp] at hraw
    cases hraw
  | ok d' =>
    rw [hp] at hraw
    exact congrArg Except.ok (ext (Except.ok.inj hraw))

theorem toHex_of_parse {text} {d} (h : parse text = .ok d) : d.toHex = text := by
  have hraw := map_raw_parse text
  rw [h] at hraw
  exact (hexBytes_ok.mp hraw.symm).2

end Digest

abbrev SessionHash := Digest
abbrev ArtifactHash := Digest
abbrev OccurrenceId := Digest
abbrev AttestationId := Digest
abbrev BlobDigest := Digest
abbrev IncomingChecksum := Digest
abbrev EnvelopeDigest := Digest
abbrev RequestContentDigest := Digest
abbrev PayloadCanonicalDigest := Digest
abbrev PayloadTransportDigest := Digest
abbrev KeyId := Digest
abbrev Ed25519PublicKey := Digest

/-- The identifier of a public key: the SHA-256 of its raw bytes. -/
def KeyId.fromPublicKey (key : Ed25519PublicKey) : KeyId :=
  ⟨digest key.raw, digest_length key.raw⟩

/-- The 64 bytes of a signature. -/
structure Ed25519Signature where
  raw : List UInt8
  length_raw : raw.length = 64
deriving DecidableEq

namespace Ed25519Signature

/-- Exactly 128 lowercase hexadecimal characters. -/
def parse (text : String) : Except GrammarError Ed25519Signature :=
  match h : hexBytes 64 text with
  | .error e => .error e
  | .ok raw => .ok ⟨raw, (hexBytes_ok.mp h).1⟩

def toHex (s : Ed25519Signature) : String := encodeHex s.raw

def fill (b : UInt8) : Ed25519Signature := ⟨List.replicate 64 b, List.length_replicate⟩

theorem parse_ok {text} {s} : parse text = .ok s ↔ s.toHex = text := by
  unfold parse
  split
  · rename_i e h
    refine ⟨nofun, fun hs => ?_⟩
    rw [hexBytes_ok.mpr ⟨s.length_raw, hs⟩] at h
    cases h
  rename_i raw h
  obtain ⟨hlen, htext⟩ := hexBytes_ok.mp h
  constructor
  · intro hs
    cases hs
    exact htext
  · intro hs
    rw [hexBytes_ok.mpr ⟨s.length_raw, hs⟩] at h
    cases h
    rfl

end Ed25519Signature

/-! ## Closed enums -/

/-- A fail-closed enum: its tokens name its variants and nothing else. -/
class ClosedEnum (α : Type) where
  variants : List α
  token : α → String
  complete : ∀ v, v ∈ variants := by intro v; cases v <;> decide
  token_injective : Function.Injective token := by intro a b; cases a <;> cases b <;> decide

namespace ClosedEnum

variable {α : Type} [ClosedEnum α]

def parse (text : String) : Except GrammarError α :=
  match (variants : List α).find? (fun v => token v == text) with
  | some v => .ok v
  | none => .error .notCanonical

theorem token_of_parse {text : String} {v : α} (h : parse text = .ok v) : token v = text := by
  unfold parse at h
  split at h
  · rename_i w hf
    cases h
    simpa using List.find?_some hf
  · cases h

theorem parse_token (v : α) : parse (token v) = .ok v := by
  unfold parse
  cases hf : (variants : List α).find? (fun w => token w == token v) with
  | some w =>
    have hw : token w = token v := by simpa using List.find?_some hf
    rw [token_injective hw]
  | none => exact absurd (List.find?_eq_none.mp hf v (complete v)) (by simp)

end ClosedEnum

inductive ArtifactKind where
  | fileSlice
  | databaseProjection
deriving DecidableEq, Repr

instance : ClosedEnum ArtifactKind where
  variants := [.fileSlice, .databaseProjection]
  token
    | .fileSlice => "file-slice"
    | .databaseProjection => "database-projection"

inductive RangeKind where
  | byte
  | event
deriving DecidableEq, Repr

instance : ClosedEnum RangeKind where
  variants := [.byte, .event]
  token
    | .byte => "byte"
    | .event => "event"

inductive IdSource where
  | upstream
  | synthetic
deriving DecidableEq, Repr

instance : ClosedEnum IdSource where
  variants := [.upstream, .synthetic]
  token
    | .upstream => "upstream"
    | .synthetic => "synthetic"

inductive StorageProfile where
  | zstdV1
deriving DecidableEq, Repr

instance : ClosedEnum StorageProfile where
  variants := [.zstdV1]
  token
    | .zstdV1 => "zstd-v1"

inductive TransportEncoding where
  | identity
  | zstd
deriving DecidableEq, Repr

instance : ClosedEnum TransportEncoding where
  variants := [.identity, .zstd]
  token
    | .identity => "identity"
    | .zstd => "zstd"

inductive ChecksumAlgorithm where
  | sha256
deriving DecidableEq, Repr

instance : ClosedEnum ChecksumAlgorithm where
  variants := [.sha256]
  token
    | .sha256 => "sha256"

/-- What the backend can establish of one object, never more. -/
inductive StorageOutcome where
  | created
  | alreadyPresent
  | replacedEquivalent
  | logicallyCommittedUnknownPhysicalResult
deriving DecidableEq, Repr

instance : ClosedEnum StorageOutcome where
  variants :=
    [.created, .alreadyPresent, .replacedEquivalent, .logicallyCommittedUnknownPhysicalResult]
  token
    | .created => "created"
    | .alreadyPresent => "already_present"
    | .replacedEquivalent => "replaced_equivalent"
    | .logicallyCommittedUnknownPhysicalResult => "logically_committed_unknown_physical_result"

inductive SignatureAlgorithm where
  | ed25519
deriving DecidableEq, Repr

instance : ClosedEnum SignatureAlgorithm where
  variants := [.ed25519]
  token
    | .ed25519 => "ed25519"

/-! The enums of the inference artifact. -/

inductive InferenceArtifactKind where
  | providerRequest
  | providerResponse
  | streamingEvent
  | retry
  | usage
  | transportError
deriving DecidableEq, Repr

instance : ClosedEnum InferenceArtifactKind where
  variants :=
    [.providerRequest, .providerResponse, .streamingEvent, .retry, .usage, .transportError]
  token
    | .providerRequest => "provider-request"
    | .providerResponse => "provider-response"
    | .streamingEvent => "streaming-event"
    | .retry => "retry"
    | .usage => "usage"
    | .transportError => "transport-error"

inductive RetryReason where
  | httpStatus
  | rateLimit
  | transportError
  | streamIncomplete
  | timeout
deriving DecidableEq, Repr

instance : ClosedEnum RetryReason where
  variants := [.httpStatus, .rateLimit, .transportError, .streamIncomplete, .timeout]
  token
    | .httpStatus => "http-status"
    | .rateLimit => "rate-limit"
    | .transportError => "transport-error"
    | .streamIncomplete => "stream-incomplete"
    | .timeout => "timeout"

inductive UsageSource where
  | responseBody
  | streamEvent
deriving DecidableEq, Repr

instance : ClosedEnum UsageSource where
  variants := [.responseBody, .streamEvent]
  token
    | .responseBody => "response-body"
    | .streamEvent => "stream-event"

inductive TransportErrorClass where
  | connect
  | dns
  | tlsHandshake
  | readTimeout
  | writeTimeout
  | connectionReset
  | streamInterrupted
  | transferDecode
  | other
deriving DecidableEq, Repr

instance : ClosedEnum TransportErrorClass where
  variants :=
    [.connect, .dns, .tlsHandshake, .readTimeout, .writeTimeout, .connectionReset,
     .streamInterrupted, .transferDecode, .other]
  token
    | .connect => "connect"
    | .dns => "dns"
    | .tlsHandshake => "tls-handshake"
    | .readTimeout => "read-timeout"
    | .writeTimeout => "write-timeout"
    | .connectionReset => "connection-reset"
    | .streamInterrupted => "stream-interrupted"
    | .transferDecode => "transfer-decode"
    | .other => "other"

/-! ## Wire text -/

/-- A type with a canonical wire text: `FromStr` and its inverse. -/
class WireText (α : Type) where
  fromStr : String → Except GrammarError α
  text : α → String
  text_of_fromStr : ∀ {s : String} {a : α}, fromStr s = .ok a → text a = s
  fromStr_text : ∀ a : α, fromStr (text a) = .ok a

instance (validate : String → Bool) : WireText (Text validate) where
  fromStr := Text.parse
  text := Text.asStr
  text_of_fromStr := Text.asStr_of_parse
  fromStr_text := Text.parse_asStr

instance : WireText Digest where
  fromStr := Digest.parse
  text := Digest.toHex
  text_of_fromStr := Digest.toHex_of_parse
  fromStr_text := Digest.parse_toHex

instance : WireText Ed25519Signature where
  fromStr := Ed25519Signature.parse
  text := Ed25519Signature.toHex
  text_of_fromStr := Ed25519Signature.parse_ok.mp
  fromStr_text _ := Ed25519Signature.parse_ok.mpr rfl

instance {α : Type} [ClosedEnum α] : WireText α where
  fromStr := ClosedEnum.parse
  text := ClosedEnum.token
  text_of_fromStr := ClosedEnum.token_of_parse
  fromStr_text := ClosedEnum.parse_token

theorem fromStr_ok {T : Type} [WireText T] {s : String} {t : T} :
    WireText.fromStr s = .ok t ↔ s = WireText.text t := by
  constructor
  · intro h
    exact (WireText.text_of_fromStr h).symm
  · intro h
    rw [h]
    exact WireText.fromStr_text t

theorem WireText.text_injective {T : Type} [WireText T] {a b : T}
    (h : WireText.text a = WireText.text b) : a = b := by
  have := WireText.fromStr_text a
  rw [h, WireText.fromStr_text] at this
  exact (Except.ok.inj this).symm

/-! ## Values for the examples -/

namespace Specimen

def tenant : TenantId := ⟨"33333333-3333-4333-8333-333333333333", by decide +kernel⟩
def home : TenantId := ⟨"0f1e2d3c-4b5a-4978-8a9b-0c1d2e3f4a5b", by decide +kernel⟩
def harness : HarnessId := ⟨"claude-code", by decide +kernel⟩
def newYear : Timestamp := ⟨"2026-01-01T00:00:00Z", by decide +kernel⟩
def version : VersionToken := ⟨"1", by decide +kernel⟩
def request : RequestId := ⟨"1a07b201-7000-7000-8000-000000000001", by decide +kernel⟩

end Specimen

end AgentArchivist.Protocol.Vocabulary
