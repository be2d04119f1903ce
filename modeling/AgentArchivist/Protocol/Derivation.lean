import AgentArchivist.Lib.LengthPrefix
import AgentArchivist.Protocol.Vocabulary

/-! # Identity derivations

Every labelled derivation is the SHA-256 of a label, a zero byte and fields, each
behind its length as eight big-endian bytes. The source writes a frame field by
field, into a hasher (`FrameBuilder`) or into a buffer (`PreimageBuilder`); both see
the same preimage (`FrameBuilder.finish_eq`, `PreimageBuilder.Holds`). -/
namespace AgentArchivist.Protocol.Derivation
open Lib
open LengthPrefix Utf8 Sha256 Vocabulary

def LABEL_DELIMITER : UInt8 := 0x00

/-- A string slice: no slice is longer than `isize::MAX` bytes. -/
structure Str where
  text : String
  fits : (utf8 text).length < 2 ^ 63
deriving DecidableEq, Repr

/-- A byte slice. -/
structure Slice where
  bytes : List UInt8
  fits : bytes.length < 2 ^ 63
deriving DecidableEq, Repr

/-- A field as it is pushed. -/
inductive Field where
  | text (s : Str)
  | digest32 (d : Digest)
  | u63 (value : UInt64)
  | bytes (s : Slice)

/-- The eight bytes before a field of `n` bytes. -/
def lengthBytes (n : Nat) : List UInt8 := u64ToBe (UInt64.ofNat n)

def Field.content : Field → List UInt8
  | .text s => utf8 s.text
  | .digest32 d => d.raw
  | .u63 value => u64ToBe value
  | .bytes s => s.bytes

/-! ## The hashing builder -/

structure FrameBuilder where
  hasher : Hasher

namespace FrameBuilder

def new (label : String) : FrameBuilder :=
  ⟨update (update Sha256.new (utf8 label)) [LABEL_DELIMITER]⟩

def pushText (f : FrameBuilder) (text : Str) : FrameBuilder :=
  ⟨update (update f.hasher (lengthBytes (utf8 text.text).length)) (utf8 text.text)⟩

def pushDigest32 (f : FrameBuilder) (d : Digest) : FrameBuilder :=
  ⟨update (update f.hasher (lengthBytes 32)) d.raw⟩

def pushU63 (f : FrameBuilder) (value : UInt64) : FrameBuilder :=
  ⟨update (update f.hasher (lengthBytes 8)) (u64ToBe value)⟩

def pushBytes (f : FrameBuilder) (s : Slice) : FrameBuilder :=
  ⟨update (update f.hasher (lengthBytes s.bytes.length)) s.bytes⟩

def push (f : FrameBuilder) : Field → FrameBuilder
  | .text s => f.pushText s
  | .digest32 d => f.pushDigest32 d
  | .u63 value => f.pushU63 value
  | .bytes s => f.pushBytes s

def finish (f : FrameBuilder) : Digest := ⟨finalize f.hasher, finalize_length _⟩

end FrameBuilder

/-! ## The buffering builder -/

structure PreimageBuilder where
  bytes : List UInt8

namespace PreimageBuilder

def new (label : String) : PreimageBuilder := ⟨utf8 label ++ [LABEL_DELIMITER]⟩

def pushLen (p : PreimageBuilder) (len : Nat) : PreimageBuilder := ⟨p.bytes ++ lengthBytes len⟩

def pushText (p : PreimageBuilder) (text : Str) : PreimageBuilder :=
  ⟨(p.pushLen (utf8 text.text).length).bytes ++ utf8 text.text⟩

def pushDigest32 (p : PreimageBuilder) (d : Digest) : PreimageBuilder :=
  ⟨(p.pushLen 32).bytes ++ d.raw⟩

def pushU63 (p : PreimageBuilder) (value : UInt64) : PreimageBuilder :=
  ⟨(p.pushLen 8).bytes ++ u64ToBe value⟩

def finish (p : PreimageBuilder) : List UInt8 := p.bytes

end PreimageBuilder

/-! ## What the builders see -/

/-- The bytes of a labelled frame. -/
def preimage (label : String) (fs : List Field) : List UInt8 :=
  frame lengthBytes LABEL_DELIMITER (utf8 label) (fs.map Field.content)

theorem preimage_append (label : String) (fs : List Field) (f : Field) :
    preimage label (fs ++ [f])
      = preimage label fs ++ (lengthBytes f.content.length ++ f.content) := by
  simp [preimage, frame, fields, List.flatMap_append]

theorem FrameBuilder.push_hasher (f : FrameBuilder) (x : Field) :
    (f.push x).hasher = update f.hasher (lengthBytes x.content.length ++ x.content) := by
  cases x with
  | text | u63 | bytes => exact update_update ..
  | digest32 d =>
    show update (update _ (lengthBytes 32)) d.raw = update _ (lengthBytes d.raw.length ++ d.raw)
    rw [update_update, d.length_raw]

/-- The hashing builder absorbs the bytes of what is pushed. -/
theorem FrameBuilder.foldl_hasher : ∀ (fs : List Field) (f : FrameBuilder),
    (fs.foldl push f).hasher = update f.hasher (fields lengthBytes (fs.map Field.content))
  | [], f => (update_nil f.hasher).symm
  | x :: fs, f => by
    rw [List.foldl_cons, foldl_hasher fs, push_hasher, update_update]
    rfl

/-- The digest of a byte string. -/
def digestOf (bytes : List UInt8) : Digest := ⟨digest bytes, digest_length bytes⟩

/-- Building a frame hashes its preimage. -/
theorem FrameBuilder.finish_eq (label : String) (fs : List Field) :
    (fs.foldl push (new label)).finish = digestOf (preimage label fs) := by
  have hnew : (new label).hasher = update Sha256.new (utf8 label ++ [LABEL_DELIMITER]) :=
    update_update ..
  apply Digest.ext
  show finalize _ = finalize _
  rw [foldl_hasher, hnew, update_update]
  simp [preimage, frame]

/-- A buffer that holds the preimage of what was pushed so far. -/
def PreimageBuilder.Holds (p : PreimageBuilder) (label : String) (fs : List Field) : Prop :=
  p.bytes = preimage label fs

section
variable {p : PreimageBuilder} {label : String} {fs : List Field}

theorem PreimageBuilder.holds_new (label : String) : (new label).Holds label [] := rfl

theorem PreimageBuilder.Holds.pushText (h : p.Holds label fs) (s : Str) :
    (p.pushText s).Holds label (fs ++ [.text s]) := by
  rw [Holds, preimage_append, ← h]
  exact List.append_assoc ..

theorem PreimageBuilder.Holds.pushDigest32 (h : p.Holds label fs) (d : Digest) :
    (p.pushDigest32 d).Holds label (fs ++ [.digest32 d]) := by
  rw [Holds, preimage_append, ← h]
  show p.bytes ++ lengthBytes 32 ++ d.raw = p.bytes ++ (lengthBytes d.raw.length ++ d.raw)
  rw [d.length_raw, List.append_assoc]

theorem PreimageBuilder.Holds.pushU63 (h : p.Holds label fs) (value : UInt64) :
    (p.pushU63 value).Holds label (fs ++ [.u63 value]) := by
  rw [Holds, preimage_append, ← h]
  exact List.append_assoc ..

end

/-! ## Text inputs -/

/-- A grammar that limits the length of its texts, far below that of a slice. -/
class Bounded (validate : String → Bool) where
  limit : Nat
  limit_lt : limit < 2 ^ 63
  fits : ∀ {s : String}, validate s = true → (utf8 s).length ≤ limit

instance (version : UInt8) : Bounded (uuidGrammar version) where
  limit := 36
  limit_lt := by decide
  fits h := by
    simp only [uuidGrammar, Bool.and_eq_true, beq_iff_eq] at h
    exact Nat.le_of_eq h.1

instance : Bounded shortTokenGrammar where
  limit := 64
  limit_lt := by decide
  fits {s} h := by
    unfold shortTokenGrammar at h
    cases hs : utf8 s with
    | nil => simp
    | cons c rest =>
      simp only [hs, Bool.and_eq_true, decide_eq_true_eq] at h
      exact h.1.1

instance : Bounded versionTokenGrammar where
  limit := 32
  limit_lt := by decide
  fits h := by
    simp only [versionTokenGrammar, Bool.and_eq_true, decide_eq_true_eq] at h
    exact h.1.2

instance : Bounded opaqueIdGrammar where
  limit := 1024
  limit_lt := by decide
  fits h := by
    simp only [opaqueIdGrammar, Bool.and_eq_true, decide_eq_true_eq] at h
    exact h.2

instance : Bounded timestampGrammar where
  limit := 35
  limit_lt := by decide
  fits h := by
    simp only [timestampGrammar, Bool.and_eq_true, decide_eq_true_eq] at h
    omega

/-- `as_str()` of a text newtype. -/
def strOf {validate : String → Bool} [Bounded validate] (t : Text validate) : Str :=
  ⟨t.asStr, Nat.lt_of_le_of_lt (Bounded.fits t.valid) Bounded.limit_lt⟩

theorem strOf_injective {validate : String → Bool} [Bounded validate] {a b : Text validate}
    (h : strOf a = strOf b) : a = b := Text.ext (congrArg Str.text h)

/-- `token()` of an artifact kind. -/
def artifactToken (kind : ArtifactKind) : Str :=
  ⟨ClosedEnum.token kind, by cases kind <;> decide⟩

/-- `token()` of a range kind. -/
def rangeToken (kind : RangeKind) : Str := ⟨ClosedEnum.token kind, by cases kind <;> decide⟩

/-! ## Derivations -/

/-- The logical-session namespace hash. -/
def sessionHash (tenantId : TenantId) (originClientId : ClientId) (harness : HarnessId)
    (upstreamSessionId : Str) : SessionHash :=
  (FrameBuilder.new "session-v1" |>.pushText (strOf tenantId) |>.pushText (strOf originClientId)
    |>.pushText (strOf harness) |>.pushText upstreamSessionId).finish

/-- The artifact identity inside a session namespace. -/
def artifactHash (session : SessionHash) (artifactKind : ArtifactKind) (adapterId : AdapterId)
    (adapterProjectionVersion : VersionToken) (adapterArtifactId : Str) : ArtifactHash :=
  (FrameBuilder.new "artifact-v1" |>.pushDigest32 session |>.pushText (artifactToken artifactKind)
    |>.pushText (strOf adapterId) |>.pushText (strOf adapterProjectionVersion)
    |>.pushText adapterArtifactId).finish

/-- The one digest that names a blob: plain SHA-256, with no label. -/
def blobDigest (canonicalUncompressedBytes : List UInt8) : BlobDigest :=
  digestOf canonicalUncompressedBytes

/-- The deterministic occurrence identity. -/
def occurrenceId (session : SessionHash) (artifact : ArtifactHash) (generation : GenerationId)
    (rangeKind : RangeKind) (rangeStart rangeEnd : UInt64) (blob : BlobDigest) : OccurrenceId :=
  (FrameBuilder.new "occurrence-v1" |>.pushDigest32 session |>.pushDigest32 artifact
    |>.pushText (strOf generation) |>.pushText (rangeToken rangeKind) |>.pushU63 rangeStart
    |>.pushU63 rangeEnd |>.pushDigest32 blob).finish

/-- The deterministic upload-attestation identity. -/
def attestationId (occurrence : OccurrenceId) (uploaderClientId : ClientId)
    (requestId : RequestId) : AttestationId :=
  (FrameBuilder.new "attestation-v1" |>.pushDigest32 occurrence
    |>.pushText (strOf uploaderClientId) |>.pushText (strOf requestId)).finish

/-- `sort_unstable` on string slices: by their bytes. -/
def sortKeys (keys : List Str) : List Str :=
  keys.mergeSort fun a b => compare (utf8 a.text) (utf8 b.text) != .gt

/-- The digest over one export approval's selection. -/
def exportSelectionDigest (tenantId : TenantId) (inventoryDigest : BlobDigest)
    (occurrenceKeys : List Str) : BlobDigest :=
  let ordered := sortKeys occurrenceKeys
  let frame := FrameBuilder.new "export-selection-v1" |>.pushText (strOf tenantId)
    |>.pushDigest32 inventoryDigest |>.pushU63 (UInt64.ofNat ordered.length)
  (ordered.foldl FrameBuilder.pushText frame).finish

/-- The bytes an ingest attempt's signature covers. -/
def ingestAttemptSigningInput (httpMethod route contentType : Str)
    (requestContentDigest : RequestContentDigest) (envelopeDigest : EnvelopeDigest)
    (payloadCanonicalDigest : BlobDigest) (payloadTransportDigest : IncomingChecksum)
    (uploaderKeyId : KeyId) (authorizationEpoch : UInt64) (authorizationTimestamp : Timestamp) :
    List UInt8 :=
  (PreimageBuilder.new "ingest-attempt-v1" |>.pushText httpMethod |>.pushText route
    |>.pushText contentType |>.pushDigest32 requestContentDigest |>.pushDigest32 envelopeDigest
    |>.pushDigest32 payloadCanonicalDigest |>.pushDigest32 payloadTransportDigest
    |>.pushDigest32 uploaderKeyId |>.pushU63 authorizationEpoch
    |>.pushText (strOf authorizationTimestamp)).finish

end AgentArchivist.Protocol.Derivation
