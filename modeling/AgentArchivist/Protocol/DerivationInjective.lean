import AgentArchivist.Protocol.Derivation
import AgentArchivist.Lib.Sorting

/-! # Identity framing is injective

Eight bytes write every length a slice can have, so a preimage determines its label
and its fields. Each construction is then recovered from its preimage, up to the
order of an export selection's keys; two inputs with one identity are a SHA-256
collision or the same inputs. -/
namespace AgentArchivist.Protocol.DerivationInjective
open Lib List
open LengthPrefix Utf8 Derivation Sha256 Vocabulary

/-! ## Frames -/

theorem u64ToBe_injective {m n} (h : u64ToBe m = u64ToBe n) : m = n := by
  simp only [u64ToBe, List.cons.injEq, ← UInt8.toNat_inj, UInt64.toNat_toUInt8,
    UInt64.toNat_shiftRight, UInt64.reduceToNat, Nat.reduceMod, Nat.shiftRight_eq_div_pow,
    Nat.reducePow, and_true] at h
  have hm := m.toNat_lt
  have hn := n.toNat_lt
  apply UInt64.toNat_inj.mp
  omega

theorem lengths : Lengths lengthBytes 8 (2 ^ 64) where
  positive := by omega
  length n := u64ToBe_length _
  injective {m n} hm hn h := by
    have h' := congrArg UInt64.toNat (u64ToBe_injective h)
    rwa [UInt64.toNat_ofNat_of_lt' hm, UInt64.toNat_ofNat_of_lt' hn] at h'

theorem content_fits (f : Field) : f.content.length < 2 ^ 64 := by
  cases f with
  | text s | bytes s => exact Nat.lt_trans s.fits (by omega)
  | digest32 d =>
    show d.raw.length < 2 ^ 64
    rw [d.length_raw]
    omega
  | u63 value =>
    show (u64ToBe value).length < 2 ^ 64
    rw [u64ToBe_length]
    omega

theorem contents_fit (fs : List Field) : ∀ c ∈ fs.map Field.content, c.length < 2 ^ 64 := by
  intro c hc
  obtain ⟨f, -, rfl⟩ := mem_map.mp hc
  exact content_fits f

/-- A preimage determines its label and its fields. -/
theorem preimage_injective {label label'} {fs gs} (hl : LABEL_DELIMITER ∉ utf8 label)
    (hl' : LABEL_DELIMITER ∉ utf8 label') (h : preimage label fs = preimage label' gs) :
    label = label' ∧ fs.map Field.content = gs.map Field.content := by
  obtain ⟨hlabel, hfields⟩ := frame_injective lengths hl hl' (contents_fit fs) (contents_fit gs) h
  exact ⟨utf8_injective hlabel, hfields⟩

/-! ## Constructions -/

/-- The labelled constructions and their inputs. -/
inductive Construction where
  | session (tenantId : TenantId) (originClientId : ClientId) (harness : HarnessId)
      (upstreamSessionId : Str)
  | artifact (session : SessionHash) (artifactKind : ArtifactKind) (adapterId : AdapterId)
      (adapterProjectionVersion : VersionToken) (adapterArtifactId : Str)
  | occurrence (session : SessionHash) (artifact : ArtifactHash) (generation : GenerationId)
      (rangeKind : RangeKind) (rangeStart rangeEnd : UInt64) (blob : BlobDigest)
  | attestation (occurrence : OccurrenceId) (uploaderClientId : ClientId) (requestId : RequestId)
  | exportSelection (tenantId : TenantId) (inventoryDigest : BlobDigest) (keys : List Str)
  | ingestAttempt (httpMethod route contentType : Str) (requestContentDigest : RequestContentDigest)
      (envelopeDigest : EnvelopeDigest) (payloadCanonicalDigest : BlobDigest)
      (payloadTransportDigest : IncomingChecksum) (uploaderKeyId : KeyId)
      (authorizationEpoch : UInt64) (authorizationTimestamp : Timestamp)

namespace Construction

def label : Construction → String
  | session .. => "session-v1"
  | artifact .. => "artifact-v1"
  | occurrence .. => "occurrence-v1"
  | attestation .. => "attestation-v1"
  | exportSelection .. => "export-selection-v1"
  | ingestAttempt .. => "ingest-attempt-v1"

/-- The fields in the order in which they are pushed. -/
def fields : Construction → List Field
  | session t o h u => [.text (strOf t), .text (strOf o), .text (strOf h), .text u]
  | artifact s k a v i =>
    [.digest32 s, .text (artifactToken k), .text (strOf a), .text (strOf v), .text i]
  | occurrence s a g k lo hi b =>
    [.digest32 s, .digest32 a, .text (strOf g), .text (rangeToken k), .u63 lo, .u63 hi, .digest32 b]
  | attestation o u r => [.digest32 o, .text (strOf u), .text (strOf r)]
  | exportSelection t i keys =>
    [.text (strOf t), .digest32 i, .u63 (UInt64.ofNat (sortKeys keys).length)]
      ++ (sortKeys keys).map .text
  | ingestAttempt m r c q e p x k n t =>
    [.text m, .text r, .text c, .digest32 q, .digest32 e, .digest32 p, .digest32 x, .digest32 k,
      .u63 n, .text (strOf t)]

/-- The bytes that are hashed or signed. -/
def bytes (c : Construction) : List UInt8 := preimage c.label c.fields

theorem label_nul_free (c : Construction) : LABEL_DELIMITER ∉ utf8 c.label := by
  have hlabels : ∀ l ∈ ["session-v1", "artifact-v1", "occurrence-v1", "attestation-v1",
      "export-selection-v1", "ingest-attempt-v1"], LABEL_DELIMITER ∉ utf8 l := by decide
  cases c <;> exact hlabels _ (by simp [label])

/-- The preimage of a construction determines its label and its fields. -/
theorem bytes_injective {c c' : Construction} (h : c.bytes = c'.bytes) :
    c.label = c'.label ∧ c.fields.map Field.content = c'.fields.map Field.content :=
  preimage_injective c.label_nul_free c'.label_nul_free h

end Construction

open Construction

/-! ## What the functions hash -/

theorem sessionHash_eq (t : TenantId) (o : ClientId) (h : HarnessId) (u : Str) :
    sessionHash t o h u = digestOf (session t o h u).bytes :=
  FrameBuilder.finish_eq "session-v1" (session t o h u).fields

theorem artifactHash_eq (s : SessionHash) (k : ArtifactKind) (a : AdapterId) (v : VersionToken)
    (i : Str) : artifactHash s k a v i = digestOf (artifact s k a v i).bytes :=
  FrameBuilder.finish_eq "artifact-v1" (artifact s k a v i).fields

theorem occurrenceId_eq (s : SessionHash) (a : ArtifactHash) (g : GenerationId) (k : RangeKind)
    (lo hi : UInt64) (b : BlobDigest) :
    occurrenceId s a g k lo hi b = digestOf (occurrence s a g k lo hi b).bytes :=
  FrameBuilder.finish_eq "occurrence-v1" (occurrence s a g k lo hi b).fields

theorem attestationId_eq (o : OccurrenceId) (u : ClientId) (r : RequestId) :
    attestationId o u r = digestOf (attestation o u r).bytes :=
  FrameBuilder.finish_eq "attestation-v1" (attestation o u r).fields

theorem exportSelectionDigest_eq (t : TenantId) (i : BlobDigest) (keys : List Str) :
    exportSelectionDigest t i keys = digestOf (exportSelection t i keys).bytes := by
  have h := FrameBuilder.finish_eq "export-selection-v1"
    (exportSelection t i keys).fields
  rw [Construction.fields, foldl_append, foldl_map] at h
  exact h

/-! ## Export selections -/

theorem str_eq {a b : Str} (h : utf8 a.text = utf8 b.text) : a = b := by
  cases a
  cases b
  simpa using utf8_injective h

theorem sortKeys_perm (keys : List Str) : (sortKeys keys).Perm keys := mergeSort_perm ..

/-- Keys in byte order are determined by what is selected, repetitions included. -/
theorem sortKeys_eq_of_perm {keys keys'} (h : keys.Perm keys') :
    sortKeys keys = sortKeys keys' := Sorting.mergeSort_eq_of_perm (fun _ _ _ _ => str_eq) h

/-! ## Recovering the inputs -/

/-- SHA-256 does not take these two byte strings to one digest unless they are one. -/
def NoCollision (a b : List UInt8) : Prop := digest a = digest b → a = b

theorem bytes_eq_of_digestOf {a b} (hc : NoCollision a b) (h : digestOf a = digestOf b) :
    a = b := hc (congrArg Digest.raw h)

theorem text_eq {validate : String → Bool} [Bounded validate] {a b : Text validate}
    (h : utf8 (strOf a).text = utf8 (strOf b).text) : a = b := strOf_injective (str_eq h)

/-- The bytes determine their construction, a selection apart, which is sorted. -/
theorem eq_of_bytes {c c' : Construction} (hb : c.bytes = c'.bytes)
    (hselection : ∀ t i keys, c ≠ exportSelection t i keys) : c = c' := by
  obtain ⟨hlabel, hf⟩ := bytes_injective hb
  cases c <;> cases c' <;> first
    | (simp [label] at hlabel; done)
    | exact absurd rfl (hselection _ _ _)
    | simp only [Construction.fields, map_cons, map_nil, Field.content, List.cons.injEq,
        and_true] at hf
  case session =>
    obtain ⟨ht, ho, hh, hu⟩ := hf
    rw [text_eq ht, text_eq ho, text_eq hh, str_eq hu]
  case artifact =>
    obtain ⟨hs, hk, ha, hv, hi⟩ := hf
    rw [Digest.ext hs, ClosedEnum.token_injective (utf8_injective hk), text_eq ha, text_eq hv,
      str_eq hi]
  case occurrence =>
    obtain ⟨hs, ha, hg, hk, hlo, hhi, hblob⟩ := hf
    rw [Digest.ext hs, Digest.ext ha, text_eq hg, ClosedEnum.token_injective (utf8_injective hk),
      u64ToBe_injective hlo, u64ToBe_injective hhi, Digest.ext hblob]
  case attestation =>
    obtain ⟨ho, hu, hr⟩ := hf
    rw [Digest.ext ho, text_eq hu, text_eq hr]
  case ingestAttempt =>
    obtain ⟨hm, hr, hc, hq, he, hp, hx, hk, hn, ht⟩ := hf
    rw [str_eq hm, str_eq hr, str_eq hc, Digest.ext hq, Digest.ext he, Digest.ext hp, Digest.ext hx,
      Digest.ext hk, u64ToBe_injective hn, text_eq ht]

theorem exportSelection_inputs {t t' : TenantId} {i i' : BlobDigest} {keys keys' : List Str}
    (hb : (exportSelection t i keys).bytes = (exportSelection t' i' keys').bytes) :
    t = t' ∧ i = i' ∧ keys.Perm keys' := by
  have hf := (bytes_injective hb).2
  simp only [Construction.fields, cons_append, nil_append, map_cons,
    Field.content, List.cons.injEq] at hf
  obtain ⟨ht, hi, -, hkeys⟩ := hf
  have hcontent : Function.Injective (Field.content ∘ Field.text) := fun _ _ h => str_eq h
  rw [map_map, map_map] at hkeys
  have hsorted : sortKeys keys = sortKeys keys' := hcontent.list_map hkeys
  exact ⟨text_eq ht, Digest.ext hi,
    (sortKeys_perm keys).symm.trans (hsorted ▸ sortKeys_perm keys')⟩

def sampleTenant : TenantId := Specimen.home

def sampleDigest : Digest := .fill 7

def sampleKey (text : String) (h : (utf8 text).length < 2 ^ 63) : Str := ⟨text, h⟩

end AgentArchivist.Protocol.DerivationInjective
