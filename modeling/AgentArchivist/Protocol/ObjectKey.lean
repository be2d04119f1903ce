import AgentArchivist.Lib.Fallible
import AgentArchivist.Protocol.Vocabulary

/-! # Server-derived object keys

Keys are texts assembled from validated components, and read back by their segments. The
components at the end of a key have a fixed length, so a key gives back the digests it was made
from. -/
namespace AgentArchivist.Protocol.ObjectKey
open List
open Lib.Fallible Lib.Utf8 Sha256 Vocabulary

structure BlobObjectKey where
  text : String
deriving DecidableEq

structure OccurrenceObjectKey where
  text : String
deriving DecidableEq

structure AttestationObjectKey where
  text : String
deriving DecidableEq

/-- `&digest.to_hex()[..2]`. -/
def shard (d : Digest) : String := String.ofList (d.toHex.toList.take 2)

def BlobObjectKey.new (tenant : TenantId) (profile : StorageProfile) (blob : BlobDigest) :
    BlobObjectKey :=
  ⟨"tenants/" ++ tenant.asStr ++ "/v1/raw/blobs/" ++ ClosedEnum.token profile ++ "/sha256/" ++
    shard blob ++ "/" ++ blob.toHex ++ ".zst"⟩

def OccurrenceObjectKey.new (tenant : TenantId) (origin : ClientId) (harness : HarnessId)
    (session : SessionHash) (occurrence : OccurrenceId) : OccurrenceObjectKey :=
  ⟨"tenants/" ++ tenant.asStr ++ "/v1/raw/occurrences/" ++ origin.asStr ++ "/" ++ harness.asStr ++
    "/" ++ shard session ++ "/" ++ session.toHex ++ "/" ++ occurrence.toHex ++ ".json"⟩

def AttestationObjectKey.new (tenant : TenantId) (occurrence : OccurrenceId)
    (attestation : AttestationId) : AttestationObjectKey :=
  ⟨"tenants/" ++ tenant.asStr ++ "/v1/raw/attestations/" ++ shard occurrence ++ "/" ++
    occurrence.toHex ++ "/" ++ attestation.toHex ++ ".json"⟩

/-! ## What a key says -/

theorem toHex_injective {a b : Digest} (h : a.toHex = b.toHex) : a = b := by
  have hparse := Digest.parse_toHex a
  rw [h, Digest.parse_toHex] at hparse
  cases hparse
  rfl

theorem utf8_toHex_length (d : Digest) : (utf8 d.toHex).length = 64 := by
  rw [Digest.toHex, utf8_encodeHex, flatMap_hexPair_length, d.length_raw]

/-- A digest at the end of a text, before a suffix, is that of any such text. -/
theorem digest_at_end {before before' after} {a b : Digest}
    (h : before ++ a.toHex ++ after = before' ++ b.toHex ++ after) : a = b := by
  have hbytes := congrArg utf8 h
  simp only [utf8_append] at hbytes
  have hfront := append_cancel_right hbytes
  have hhex := (append_inj' hfront (by rw [utf8_toHex_length, utf8_toHex_length])).2
  exact toHex_injective (utf8_injective hhex)

/-! ## Reading a key back -/

/-- `text.split('/')`. -/
def keySegments (text : String) : List String := (text.toList.splitOn '/').map String.ofList

/-- The slice of `hex_member` ends where the suffix begins: between two characters. -/
theorem slice_hexMember {member suffix : String} {hexLen}
    (h : (utf8 member).length = hexLen + (utf8 suffix).length ∧ suffix.toList <:+ member.toList) :
    ∃ hex, member = hex ++ suffix ∧ fromUtf8 ((utf8 member).take hexLen) = some hex := by
  obtain ⟨hlen, chars, hchars⟩ := h
  have hmember : member = String.ofList chars ++ suffix :=
    String.toList_inj.mp (by rw [← hchars, String.toList_append, String.toList_ofList])
  refine ⟨_, hmember, fromUtf8_eq_some.mpr ?_⟩
  rw [hmember, utf8_append, length_append] at hlen
  rw [hmember, utf8_append, take_left' (by omega)]

/-- `hex_member`, refused where there is none. -/
def hexMember (member : String) (hexLen : Nat) (suffix : String) : Except GrammarError String :=
  if h : (utf8 member).length = hexLen + (utf8 suffix).length ∧ suffix.toList <:+ member.toList then
    .ok ((fromUtf8 ((utf8 member).take hexLen)).get (by
      obtain ⟨hex, -, hslice⟩ := slice_hexMember h
      rw [hslice]
      rfl))
  else .error .notCanonical

/-- `hex_member` of a digest. -/
def digestMember (member suffix : String) : Except GrammarError Digest := do
  WireText.fromStr (← hexMember member 64 suffix)

/-- A text of `n` segments under a tenant, whose segments behind the family are read on. -/
def parseKey {D K : Type} (n : Nat) (family : String) (read : List String → Except GrammarError D)
    (key : String → K) (text : String) : Except GrammarError K :=
  match keySegments text with
  | root :: tenant :: version :: layer :: family' :: rest =>
    if rest.length + 5 ≠ n then .error .notCanonical
    else if root ≠ "tenants" ∨ version ≠ "v1" ∨ layer ≠ "raw" ∨ family' ≠ family then
      .error .notCanonical
    else do
      let _ : TenantId ← WireText.fromStr tenant
      let _ ← read rest
      .ok (key text)
  | _ => .error .notCanonical

def BlobObjectKey.parse : String → Except GrammarError BlobObjectKey :=
  parseKey 9 "blobs" (fun
    | [profile, algorithm, dd, member] => do
      let profile : StorageProfile ← WireText.fromStr profile
      if algorithm ≠ "sha256" then .error .notCanonical
      else
        let blob ← digestMember member ".zst"
        if dd ≠ shard blob then .error .notCanonical else .ok (profile, blob)
    | _ => .error .notCanonical) .mk

def OccurrenceObjectKey.parse : String → Except GrammarError OccurrenceObjectKey :=
  parseKey 10 "occurrences" (fun
    | [origin, harness, ss, session, member] => do
      let origin : ClientId ← WireText.fromStr origin
      let harness : HarnessId ← WireText.fromStr harness
      let session : SessionHash ← WireText.fromStr session
      let occurrence ← digestMember member ".json"
      if ss ≠ shard session then .error .notCanonical
      else .ok (origin, harness, session, occurrence)
    | _ => .error .notCanonical) .mk

def AttestationObjectKey.parse : String → Except GrammarError AttestationObjectKey :=
  parseKey 8 "attestations" (fun
    | [oo, occurrence, member] => do
      let occurrence : OccurrenceId ← WireText.fromStr occurrence
      let attestation ← digestMember member ".json"
      if oo ≠ shard occurrence then .error .notCanonical else .ok (occurrence, attestation)
    | _ => .error .notCanonical) .mk

theorem hexMember_ok {member hexLen suffix hex} :
    hexMember member hexLen suffix = .ok hex ↔ member = hex ++ suffix ∧ (utf8 hex).length = hexLen := by
  unfold hexMember
  rw [require_dep_eq_ok]
  constructor
  · rintro ⟨h, hget⟩
    obtain ⟨hex', rfl, hslice⟩ := slice_hexMember h
    simp only [hslice, Option.get_some, Except.ok.injEq] at hget
    subst hget
    rw [utf8_append, length_append] at h
    exact ⟨rfl, by omega⟩
  · rintro ⟨rfl, rfl⟩
    simp [take_left']

theorem digestMember_ok {member suffix d} :
    digestMember member suffix = .ok d ↔ member = d.toHex ++ suffix := by
  simp only [digestMember, bind_eq_ok, hexMember_ok, fromStr_ok]
  constructor
  · rintro ⟨_, ⟨rfl, -⟩, rfl⟩
    rfl
  · rintro rfl
    exact ⟨_, ⟨rfl, utf8_toHex_length d⟩, rfl⟩

/-! ## Segments -/

theorem join_segments (text : String) : "/".intercalate (keySegments text) = text := by
  rw [← String.toList_inj, String.toList_intercalate, keySegments, map_map]
  simp [Function.comp_def, intercalate_splitOn]

theorem segments_join {p parts} (h : ∀ q ∈ p :: parts, '/' ∉ q.toList) :
    keySegments ("/".intercalate (p :: parts)) = p :: parts := by
  rw [keySegments, String.toList_intercalate, show "/".toList = ['/'] from rfl,
    splitOn_intercalate, map_map]
  · simp [Function.comp_def]
  · simpa using h
  · exact cons_ne_nil _ _

theorem bare_of_utf8 {s} (h : 0x2f ∉ utf8 s) : '/' ∉ s.toList := by
  rw [utf8_eq_flatMap] at h
  exact fun hmem => h (mem_flatMap.mpr ⟨'/', hmem, by decide⟩)

theorem bare_uuid (t : Text (uuidGrammar 4)) : '/' ∉ t.asStr.toList := by
  refine bare_of_utf8 fun hmem => ?_
  obtain ⟨i, hi, hslash⟩ := getElem_of_mem hmem
  have hvalid := (Bool.and_eq_true_iff.mp t.valid).2
  have hc := all_eq_true.mp hvalid (0x2f, i) (mem_zipIdx_iff_getElem?.mpr
    (List.getElem?_eq_some_iff.mpr ⟨hi, hslash⟩))
  dsimp only at hc
  split at hc
  · cases hc
  split at hc
  · cases hc
  split at hc <;> cases hc

theorem bare_shortToken (t : Text shortTokenGrammar) : '/' ∉ t.asStr.toList := by
  refine bare_of_utf8 ?_
  have hvalid := t.valid
  unfold shortTokenGrammar at hvalid
  split at hvalid
  · cases hvalid
  · rename_i c rest hbytes
    rw [Bool.and_eq_true_iff, Bool.and_eq_true_iff] at hvalid
    show 0x2f ∉ utf8 t.text
    rw [hbytes]
    rintro (_ | ⟨_, hmem⟩)
    · exact absurd hvalid.1.2 (by decide)
    · exact absurd (all_eq_true.mp hvalid.2 _ hmem) (by decide)

theorem bare_hex (d : Digest) : '/' ∉ d.toHex.toList := by
  refine bare_of_utf8 fun hmem => ?_
  rw [Digest.toHex, utf8_encodeHex] at hmem
  obtain ⟨byte, -, hbyte⟩ := mem_flatMap.mp hmem
  exact absurd (all_eq_true.mp (isLowerHex_hexPair byte) _ hbyte) (by decide)

theorem bare_shard (d : Digest) : '/' ∉ (shard d).toList := by
  rw [shard, String.toList_ofList]
  exact fun hmem => bare_hex d (mem_of_mem_take hmem)

/-! ## The families -/

/-- A text is accepted exactly where it is the key of some components, and those are the only ones. -/
structure Encodes {C K : Type} (parse : String → Except GrammarError K) (text : K → String)
    (new : C → K) : Prop where
  accepts : ∀ s key, parse s = .ok key ↔ text key = s ∧ ∃ c, new c = key
  unique : Function.Injective new

section
variable {D K : Type} {n : Nat} {family : String} {read : List String → Except GrammarError D}
  {key : String → K}

theorem length_of_parseKey {s} (h : (parseKey n family read key s).isOk = true) :
    (keySegments s).length = n := by
  unfold parseKey at h
  split at h
  · rename_i hs
    split at h
    · cases h
    · rename_i hn
      rw [hs]
      exact not_not.mp hn
  · cases h

/-- A key is known by its tenant and by the segments behind its family. -/
theorem parseKey_encodes {text : K → String} {new : TenantId × D → K} (rest : D → List String)
    (hread : ∀ r d, read r = .ok d ↔ r = rest d) (hlen : ∀ d, (rest d).length + 5 = n)
    (hbare : ∀ d, ∀ p ∈ family :: rest d, '/' ∉ p.toList) (htext : ∀ s, text (key s) = s)
    (hkey : ∀ k, key (text k) = k)
    (hnew : ∀ c, text (new c) =
      "/".intercalate ("tenants" :: c.1.asStr :: "v1" :: "raw" :: family :: rest c.2)) :
    Encodes (parseKey n family read key) text new := by
  have hsegments (c) : keySegments (text (new c)) =
      "tenants" :: c.1.asStr :: "v1" :: "raw" :: family :: rest c.2 := by
    rw [hnew, segments_join]
    simp only [forall_mem_cons]
    exact ⟨by decide, bare_uuid _, by decide, by decide, forall_mem_cons.mp (hbare _)⟩
  refine ⟨fun s k => ⟨fun h => ?_, ?_⟩, fun c c' h => ?_⟩
  · unfold parseKey at h
    split at h
    · rename_i hs
      simp only [refuse_eq_ok, bind_eq_ok, not_or, not_not, ne_eq, fromStr_ok, hread] at h
      obtain ⟨-, ⟨rfl, rfl, rfl, rfl⟩, tenant, rfl, d, rfl, ⟨⟩⟩ := h
      have hjoin : text (new (tenant, d)) = s :=
        (hnew _).trans ((congrArg _ hs.symm).trans (join_segments s))
      exact ⟨htext s, (tenant, d), by rw [← hkey (new _), hjoin]⟩
    · cases h
  · rintro ⟨rfl, c, rfl⟩
    simp only [parseKey, hsegments, refuse_eq_ok, bind_eq_ok, not_or, not_not, ne_eq, fromStr_ok,
      hread]
    exact ⟨hlen _, ⟨trivial, trivial, trivial, trivial⟩, c.1, rfl, c.2, rfl, congrArg _ (hkey _)⟩
  · have hparts := (hsegments c).symm.trans ((congrArg (keySegments <| text ·) h).trans (hsegments c'))
    simp only [List.cons.injEq, true_and] at hparts
    exact Prod.ext (Text.ext hparts.1)
      (Except.ok.inj (((hread _ _).mpr rfl).symm.trans ((hread _ _).mpr hparts.2)))

end

def BlobObjectKey.of (c : TenantId × StorageProfile × BlobDigest) : BlobObjectKey :=
  .new c.1 c.2.1 c.2.2

def OccurrenceObjectKey.of (c : TenantId × ClientId × HarnessId × SessionHash × OccurrenceId) :
    OccurrenceObjectKey :=
  .new c.1 c.2.1 c.2.2.1 c.2.2.2.1 c.2.2.2.2

def AttestationObjectKey.of (c : TenantId × OccurrenceId × AttestationId) : AttestationObjectKey :=
  .new c.1 c.2.1 c.2.2

theorem blob_encodes : Encodes BlobObjectKey.parse BlobObjectKey.text BlobObjectKey.of := by
  refine parseKey_encodes (fun d => [ClosedEnum.token d.1, "sha256", shard d.2, d.2.toHex ++ ".zst"])
    (fun r d => ⟨fun h => ?_, ?_⟩) (fun _ => rfl) (fun d => ?_) (fun _ => rfl) (fun _ => rfl)
    fun c => ?_
  · split at h
    · simp only [refuse_eq_ok, bind_eq_ok, not_not, ne_eq, fromStr_ok, digestMember_ok] at h
      obtain ⟨profile, rfl, rfl, blob, rfl, rfl, ⟨⟩⟩ := h
      rfl
    · cases h
  · rintro rfl
    simp only [refuse_eq_ok, bind_eq_ok, not_not, ne_eq, fromStr_ok, digestMember_ok]
    exact ⟨d.1, rfl, trivial, d.2, rfl, rfl, rfl⟩
  · have hprofile : '/' ∉ (ClosedEnum.token d.1).toList := (by decide : '/' ∉ "zstd-v1".toList)
    simp [hprofile, bare_shard, bare_hex]
  · rw [← String.toList_inj]
    simp [BlobObjectKey.of, BlobObjectKey.new, String.intercalate_cons_cons]

theorem occurrence_encodes :
    Encodes OccurrenceObjectKey.parse OccurrenceObjectKey.text OccurrenceObjectKey.of := by
  refine parseKey_encodes (fun d => [d.1.asStr, d.2.1.asStr, shard d.2.2.1, d.2.2.1.toHex,
      d.2.2.2.toHex ++ ".json"]) (fun r d => ⟨fun h => ?_, ?_⟩) (fun _ => rfl) (fun d => ?_)
    (fun _ => rfl) (fun _ => rfl) fun c => ?_
  · split at h
    · simp only [refuse_eq_ok, bind_eq_ok, not_not, ne_eq, fromStr_ok, digestMember_ok] at h
      obtain ⟨origin, rfl, harness, rfl, session, rfl, occurrence, rfl, rfl, ⟨⟩⟩ := h
      rfl
    · cases h
  · rintro rfl
    simp only [refuse_eq_ok, bind_eq_ok, not_not, ne_eq, fromStr_ok, digestMember_ok]
    exact ⟨d.1, rfl, d.2.1, rfl, d.2.2.1, rfl, d.2.2.2, rfl, rfl, rfl⟩
  · simp [bare_uuid, bare_shortToken, bare_shard, bare_hex]
  · unfold OccurrenceObjectKey.of OccurrenceObjectKey.new
    generalize c.1.asStr = tenant, c.2.1.asStr = origin, c.2.2.1.asStr = harness,
      shard c.2.2.2.1 = ss, c.2.2.2.1.toHex = session, c.2.2.2.2.toHex = occurrence
    rw [← String.toList_inj]
    simp [String.intercalate_cons_cons]

theorem attestation_encodes :
    Encodes AttestationObjectKey.parse AttestationObjectKey.text AttestationObjectKey.of := by
  refine parseKey_encodes (fun d => [shard d.1, d.1.toHex, d.2.toHex ++ ".json"])
    (fun r d => ⟨fun h => ?_, ?_⟩) (fun _ => rfl) (fun d => ?_) (fun _ => rfl) (fun _ => rfl)
    fun c => ?_
  · split at h
    · simp only [refuse_eq_ok, bind_eq_ok, not_not, ne_eq, fromStr_ok, digestMember_ok] at h
      obtain ⟨occurrence, rfl, attestation, rfl, rfl, ⟨⟩⟩ := h
      rfl
    · cases h
  · rintro rfl
    simp only [refuse_eq_ok, bind_eq_ok, not_not, ne_eq, fromStr_ok, digestMember_ok]
    exact ⟨d.1, rfl, d.2, rfl, rfl, rfl⟩
  · simp [bare_shard, bare_hex]
  · rw [← String.toList_inj]
    simp [AttestationObjectKey.of, AttestationObjectKey.new, String.intercalate_cons_cons]

/-- **Keys are a faithful encoding**: in each family exactly the keys of valid components are
accepted, each of one choice of them, and no text is accepted by two families. -/
theorem object_keys_faithful :
    Encodes BlobObjectKey.parse BlobObjectKey.text BlobObjectKey.of ∧
    Encodes OccurrenceObjectKey.parse OccurrenceObjectKey.text OccurrenceObjectKey.of ∧
    Encodes AttestationObjectKey.parse AttestationObjectKey.text AttestationObjectKey.of ∧
    ∀ s, [(BlobObjectKey.parse s).isOk, (OccurrenceObjectKey.parse s).isOk,
      (AttestationObjectKey.parse s).isOk].count true ≤ 1 := by
  refine ⟨blob_encodes, occurrence_encodes, attestation_encodes, fun s => ?_⟩
  have hblob : (BlobObjectKey.parse s).isOk = true → _ := length_of_parseKey
  have hoccurrence : (OccurrenceObjectKey.parse s).isOk = true → _ := length_of_parseKey
  have hattestation : (AttestationObjectKey.parse s).isOk = true → _ := length_of_parseKey
  revert hblob hoccurrence hattestation
  cases (BlobObjectKey.parse s).isOk <;> cases (OccurrenceObjectKey.parse s).isOk <;>
    cases (AttestationObjectKey.parse s).isOk <;> simp <;> omega

end AgentArchivist.Protocol.ObjectKey
