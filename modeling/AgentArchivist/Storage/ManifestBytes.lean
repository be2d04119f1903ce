import AgentArchivist.Protocol.DerivationInjective
import AgentArchivist.Protocol.EnvelopeLossless
import AgentArchivist.Storage.ManifestCalls

/-! # What two envelopes write at one key

An object key fixes the identity that it is named by, and with it every input of that
identity. The other members of the two documents are not fixed by the key: they are
what decides whether two accepted envelopes write the same bytes. -/
namespace AgentArchivist.Storage.ManifestBytes
open Lib Protocol
open OptionalEntries SortedMap Utf16 Derivation DerivationInjective EnvelopeLossless
open EnvelopeSize IngestEnvelope Json JsonCanonical ObjectKey Vocabulary Commit ManifestCalls
open Manifests RawWrite

/-! ## Documents -/

/-- Members with distinct names, whose values are text or integers. -/
structure Plain (members : List (String × Option Value)) : Prop where
  names : (members.map Prod.fst).Nodup
  scalar : ∀ m ∈ members, m.2.all isScalar = true

def presentOf (members : List (String × Option Value)) : List (String × Value) :=
  members.filterMap fun m => m.2.map fun v => (m.1, v)

variable {members members' : List (String × Option Value)}

theorem document_perm (h : Plain members) : ∃ object, document members = .object object ∧
    Sorted cmpUtf16 object ∧ object.Perm (presentOf members) :=
  ⟨_, rfl, foldl_upsert_nil _ (List.pairwise_map.mpr (present_pairwise h.names))⟩

theorem document_wellFormed (h : Plain members) : WellFormed (document members) := by
  obtain ⟨object, hdocument, hs, hperm⟩ := document_perm h
  rw [hdocument]
  refine .object hs fun m hm => ?_
  have hmem := mem_present.mp (hperm.mem_iff.mp hm)
  exact (scalar_fits (h.scalar _ hmem)).1

/-- Documents with the same bytes have the same members. -/
theorem member_eq (h : Plain members) (h' : Plain members')
    (heq : canonicalBytes (document members) = canonicalBytes (document members')) {name v v'}
    (hv : (name, v) ∈ members) (hv' : (name, v') ∈ members') : v = v' := by
  obtain ⟨object, hdocument, -, hperm⟩ := document_perm h
  obtain ⟨object', hdocument', -, hperm'⟩ := document_perm h'
  have hvalue := canonicalBytes_injective (document_wellFormed h) (document_wellFormed h') heq
  rw [hdocument, hdocument'] at hvalue
  cases hvalue
  have hsame : ∀ x, (name, some x) ∈ members ↔ (name, some x) ∈ members' := fun x => by
    rw [← mem_present, ← mem_present]
    exact hperm.mem_iff.symm.trans hperm'.mem_iff
  refine Option.ext fun x => ⟨fun hx => ?_, fun hx => ?_⟩
  · subst hx
    exact known_unique h'.names hv' ((hsame x).mp hv)
  · subst hx
    exact known_unique h.names hv ((hsame x).mpr hv')

theorem length_document (h : Plain members) {names values}
    (hnames : ((members.map Prod.fst).map fun name => (writeString name).length + 2).sum ≤ names)
    (hvalues : (members.map fun m => valueCost m.2).sum ≤ values) :
    (canonicalBytes (document members)).length ≤ 2 + names + values := by
  obtain ⟨object, hdocument, -, hperm⟩ := document_perm h
  have hlen := length_object object
  have hsum : (object.map memberCost).sum = ((presentOf members).map memberCost).sum :=
    (hperm.map memberCost).sum_eq
  have hmembers : ((presentOf members).map memberCost).sum ≤ _ := sum_members members
  have hwritten : (members.map fun m => (writeString m.1).length + 2).sum ≤ names := by
    rw [List.map_map] at hnames
    exact hnames
  rw [hdocument]
  omega

theorem document_bounded (hlen : (canonicalBytes (document members)).length ≤ CANONICAL_MAX_BYTES) :
    boundedManifestBytes (canonicalBytes (document members)) = .ok () := by
  have hne : canonicalBytes (document members) ≠ [] := by
    unfold document
    exact List.cons_ne_nil _ _
  unfold boundedManifestBytes
  rw [if_neg hne, if_neg (Nat.not_lt.mpr hlen)]

/-! ## The two documents -/

def OCCURRENCE_NAMES : List String :=
  ["adapter_artifact_id", "adapter_id", "adapter_projection_version", "artifact_hash",
   "artifact_kind", "blob_digest", "generation", "harness", "id_source", "occurrence_id",
   "occurrence_version", "origin_client_id", "range_end", "range_kind", "range_start",
   "session_hash", "source_time", "storage_profile", "tenant_id", "upstream_session_id"]

def ATTESTATION_NAMES : List String :=
  ["attestation_id", "attestation_version", "capture_time", "delegation", "envelope_creation_time",
   "occurrence_id", "origin_client_id", "request_id", "tenant_id", "uploader_client_id"]

section
variable (e : Envelope) (d : Delegation) (occurrence : OccurrenceId) (session : SessionHash)
  (attestation : AttestationId)

theorem occurrence_names :
    (occurrenceMembers e occurrence session).map Prod.fst = OCCURRENCE_NAMES := rfl

theorem attestation_names :
    (attestationMembers e d occurrence attestation).map Prod.fst = ATTESTATION_NAMES := rfl

theorem occurrence_plain :
    Plain (occurrenceMembers e occurrence session) where
  names := by
    rw [occurrence_names]
    decide
  scalar := by simp [occurrenceMembers, textValue, u63Value, isScalar, Option.all_map]

theorem attestation_plain : Plain (attestationMembers e d occurrence attestation) where
  names := by
    rw [attestation_names]
    decide
  scalar := by simp [attestationMembers, textValue, isScalar]

/-- The longest value of each member of an occurrence manifest. -/
def OCCURRENCE_LIMITS : List Nat :=
  [6146, 386, 194, 386, 116, 386, 218, 386, 116, 386, 20, 218, 20, 116, 20, 386, 212, 116, 218, 6146]

theorem occurrence_limits :
    List.Forall₂ (fun m limit => valueCost m.2 ≤ limit) (occurrenceMembers e occurrence session)
      OCCURRENCE_LIMITS :=
  .cons (cost_valid _) <| .cons (cost_valid _) <| .cons (cost_valid _) <| .cons (cost_digest _) <|
  .cons (cost_token _ (by decide)) <| .cons (cost_digest _) <| .cons (cost_valid _) <|
  .cons (cost_valid _) <| .cons (cost_token _ (by decide)) <| .cons (cost_digest _) <|
  .cons (length_renderI64 _) <| .cons (cost_valid _) <| .cons (cost_integer _) <|
  .cons (cost_token _ (by decide)) <| .cons (cost_integer _) <| .cons (cost_digest _) <|
  .cons (cost_optional _) <| .cons (cost_token _ (by decide)) <| .cons (cost_valid _) <|
  .cons (cost_valid _) .nil

/-- The longest value of each member of an upload attestation. -/
def ATTESTATION_LIMITS : List Nat := [386, 20, 212, 38, 212, 386, 218, 218, 218, 218]

theorem cost_delegation : valueCost (some (.text d.token)) ≤ 38 := by
  cases d <;> decide

theorem attestation_limits :
    List.Forall₂ (fun m limit => valueCost m.2 ≤ limit) (attestationMembers e d occurrence attestation)
      ATTESTATION_LIMITS :=
  .cons (cost_digest _) <| .cons (length_renderI64 _) <| .cons (cost_valid _) <|
  .cons (cost_delegation _) <| .cons (cost_valid _) <| .cons (cost_digest _) <|
  .cons (cost_valid _) <| .cons (cost_valid _) <| .cons (cost_valid _) <| .cons (cost_valid _) .nil

theorem sum_limits {limits : List Nat}
    (h : List.Forall₂ (fun (m : String × Option Value) limit => valueCost m.2 ≤ limit) members limits) :
    (members.map fun m => valueCost m.2).sum ≤ limits.sum :=
  List.Forall₂.sum_le_sum (List.forall₂_map_left_iff.mpr h)

theorem occurrence_bounded :
    boundedManifestBytes (canonicalBytes (occurrenceManifestValue e occurrence session)) = .ok () := by
  have hplain := occurrence_plain e occurrence session
  have hnames : (((occurrenceMembers e occurrence session).map Prod.fst).map fun name =>
      (writeString name).length + 2).sum ≤ 400 := by
    rw [occurrence_names]
    decide +kernel
  have hlen := length_document hplain hnames (sum_limits (occurrence_limits e occurrence session))
  exact document_bounded (Nat.le_trans hlen (by decide))

theorem attestation_bounded :
    boundedManifestBytes (canonicalBytes (attestationManifestValue e d occurrence attestation)) =
      .ok () := by
  have hplain := attestation_plain e d occurrence attestation
  have hnames : (((attestationMembers e d occurrence attestation).map Prod.fst).map fun name =>
      (writeString name).length + 2).sum ≤ 200 := by
    rw [attestation_names]
    decide +kernel
  have hlen := length_document hplain hnames (sum_limits (attestation_limits e d occurrence attestation))
  exact document_bounded (Nat.le_trans hlen (by decide))

end

/-! ## What an accepted envelope writes -/

def occurrenceKey (e : Envelope) : OccurrenceObjectKey :=
  .new e.tenantId e.originClientId e.harness e.rederiveSessionHash e.occurrenceId

def occurrenceBytes (e : Envelope) : List UInt8 :=
  canonicalBytes (occurrenceManifestValue e e.occurrenceId e.rederiveSessionHash)

def attestationKey (e : Envelope) : AttestationObjectKey :=
  .new e.tenantId e.occurrenceId e.attestationId

def attestationBytes (e : Envelope) (d : Delegation) : List UInt8 :=
  canonicalBytes (attestationManifestValue e d e.occurrenceId e.attestationId)

variable {e : Envelope}

section
variable (h : e.verifyIdentities = .ok ())
include h

theorem verifyIdentities_ok :
    e.rederiveOccurrenceId = e.occurrenceId ∧ e.rederiveAttestationId = e.attestationId := by
  simpa [Envelope.verifyIdentities, Fallible.require_eq_ok] using h

theorem occurrenceObject_eq : occurrenceObject e = .ok (occurrenceKey e, occurrenceBytes e) := by
  obtain ⟨hocc, -⟩ := verifyIdentities_ok h
  have hverified : verifiedOccurrenceId e = .ok e.occurrenceId := by
    unfold verifiedOccurrenceId
    rw [hocc]
    exact if_neg (not_not_intro rfl)
  unfold occurrenceObject
  rw [hverified]
  rfl

theorem attestationObject_eq {d} :
    attestationObject e d = if d.consistent e then .ok (attestationKey e, attestationBytes e d)
      else .error delegationInconsistent := by
  obtain ⟨hocc, hatt⟩ := verifyIdentities_ok h
  have hverified : verifiedAttestationIdentity e = .ok (e.occurrenceId, e.attestationId) := by
    unfold verifiedAttestationIdentity verifiedOccurrenceId
    rw [hocc, hatt]
    simp
    rfl
  unfold attestationObject
  rw [hverified]
  cases d.consistent e <;> rfl

theorem occurrence_writes {key bytes} :
    Writes (commitOccurrenceManifest e) key bytes ↔
      key = .occurrence (occurrenceKey e) ∧ bytes = occurrenceBytes e := by
  unfold commitOccurrenceManifest
  rw [occurrenceObject_eq h]
  exact commitAtKey_writes (occurrence_bounded e _ _)

theorem attestation_writes {d} {key bytes} :
    Writes (commitAttestationManifest e d) key bytes ↔
      d.consistent e = true ∧ key = .attestation (attestationKey e) ∧ bytes = attestationBytes e d := by
  unfold commitAttestationManifest
  rw [attestationObject_eq h]
  cases hd : d.consistent e with
  | false =>
    refine iff_of_false ?_ (fun hfalse => nomatch hfalse.1)
    rintro ⟨p', t, hsteps, hmem⟩
    cases hsteps
    rcases hmem with ⟨_, hmem⟩ | ⟨_, hmem⟩ <;> exact absurd hmem List.not_mem_nil
  | true =>
    refine (commitAtKey_writes (attestation_bounded e d _ _)).trans ?_
    exact ⟨fun hwrites => ⟨rfl, hwrites⟩, fun hwrites => hwrites.2⟩

end

/-! ## What a key fixes -/

def sessionInput (e : Envelope) : List UInt8 :=
  (Construction.session e.tenantId e.originClientId e.harness (strOf e.upstreamSessionId)).bytes

def artifactInput (e : Envelope) : List UInt8 :=
  (Construction.artifact e.rederiveSessionHash e.artifactKind e.adapterId e.adapterProjectionVersion
    (strOf e.adapterArtifactId)).bytes

def occurrenceInput (e : Envelope) : List UInt8 :=
  (Construction.occurrence e.rederiveSessionHash e.rederiveArtifactHash e.generation e.rangeKind
    e.rangeStart.value e.rangeEnd.value e.blobDigest).bytes

def attestationInput (e : Envelope) : List UInt8 :=
  (Construction.attestation e.occurrenceId e.uploaderClientId e.requestId).bytes

/-- The identities of two envelopes are no collisions of the hash. -/
structure Uncolliding (e e' : Envelope) : Prop where
  session : NoCollision (sessionInput e) (sessionInput e')
  artifact : NoCollision (artifactInput e) (artifactInput e')
  occurrence : NoCollision (occurrenceInput e) (occurrenceInput e')
  attestation : NoCollision (attestationInput e) (attestationInput e')

theorem uncolliding_of_eq {e e'} (hsession : sessionInput e = sessionInput e')
    (hartifact : artifactInput e = artifactInput e')
    (hoccurrence : occurrenceInput e = occurrenceInput e')
    (hattestation : attestationInput e = attestationInput e') : Uncolliding e e' :=
  ⟨fun _ => hsession, fun _ => hartifact, fun _ => hoccurrence, fun _ => hattestation⟩

/-- Envelopes of one source event. -/
structure SameSource (e e' : Envelope) : Prop where
  tenantId : e.tenantId = e'.tenantId
  originClientId : e.originClientId = e'.originClientId
  harness : e.harness = e'.harness
  upstreamSessionId : e.upstreamSessionId = e'.upstreamSessionId
  artifactKind : e.artifactKind = e'.artifactKind
  adapterId : e.adapterId = e'.adapterId
  adapterProjectionVersion : e.adapterProjectionVersion = e'.adapterProjectionVersion
  adapterArtifactId : e.adapterArtifactId = e'.adapterArtifactId
  generation : e.generation = e'.generation
  rangeKind : e.rangeKind = e'.rangeKind
  rangeStart : e.rangeStart = e'.rangeStart
  rangeEnd : e.rangeEnd = e'.rangeEnd
  blobDigest : e.blobDigest = e'.blobDigest

theorem u63_ext {a b : U63} (h : a.value = b.value) : a = b := by
  cases a
  cases b
  simpa using h

theorem sameSource {e e' : Envelope} (hcol : Uncolliding e e')
    (h : e.rederiveOccurrenceId = e'.rederiveOccurrenceId) : SameSource e e' := by
  have hocc : occurrenceInput e = occurrenceInput e' := by
    refine bytes_eq_of_digestOf hcol.occurrence ?_
    rw [occurrenceInput, occurrenceInput, ← occurrenceId_eq, ← occurrenceId_eq]
    exact h
  obtain ⟨hs, ha, hgeneration, hkind, hstart, hend, hblob⟩ := Construction.occurrence.inj (eq_of_bytes hocc nofun)
  have hart : artifactInput e = artifactInput e' := by
    refine bytes_eq_of_digestOf hcol.artifact ?_
    rw [artifactInput, artifactInput, ← artifactHash_eq, ← artifactHash_eq]
    exact ha
  obtain ⟨-, hartifactKind, hadapter, hversion, hartifact⟩ := Construction.artifact.inj (eq_of_bytes hart nofun)
  have hsession : sessionInput e = sessionInput e' := by
    refine bytes_eq_of_digestOf hcol.session ?_
    rw [sessionInput, sessionInput, ← sessionHash_eq, ← sessionHash_eq]
    exact hs
  obtain ⟨htenant, horigin, hharness, hupstream⟩ := Construction.session.inj (eq_of_bytes hsession nofun)
  exact
    { tenantId := htenant
      originClientId := horigin
      harness := hharness
      upstreamSessionId := strOf_injective hupstream
      artifactKind := hartifactKind
      adapterId := hadapter
      adapterProjectionVersion := hversion
      adapterArtifactId := strOf_injective hartifact
      generation := hgeneration
      rangeKind := hkind
      rangeStart := u63_ext hstart
      rangeEnd := u63_ext hend
      blobDigest := hblob }

variable {e e' : Envelope} {d d' : Delegation}

theorem SameSource.session (h : SameSource e e') : e.rederiveSessionHash = e'.rederiveSessionHash := by
  unfold Envelope.rederiveSessionHash
  rw [h.tenantId, h.originClientId, h.harness, h.upstreamSessionId]

theorem SameSource.artifact (h : SameSource e e') : e.rederiveArtifactHash = e'.rederiveArtifactHash := by
  unfold Envelope.rederiveArtifactHash
  rw [h.session, h.artifactKind, h.adapterId, h.adapterProjectionVersion, h.adapterArtifactId]

theorem textValue_injective {validate : String → Bool} {a b : Text validate}
    (h : textValue a = textValue b) : a = b := Text.ext (Value.text.inj h)

/-- The members of an occurrence manifest that its key does not fix. -/
theorem occurrenceBytes_eq_iff (h : SameSource e e') (hocc : e.occurrenceId = e'.occurrenceId) :
    occurrenceBytes e = occurrenceBytes e' ↔ e.idSource = e'.idSource ∧ e.sourceTime = e'.sourceTime := by
  constructor
  · intro hbytes
    have hmember := fun name v v' => @member_eq _ _ (occurrence_plain e _ _) (occurrence_plain e' _ _)
      hbytes name v v'
    have hid := hmember "id_source" (some (textValue e.idSource)) (some (textValue e'.idSource))
      (by simp [occurrenceMembers]) (by simp [occurrenceMembers])
    have htime := hmember "source_time" (e.sourceTime.map textValue) (e'.sourceTime.map textValue)
      (by simp [occurrenceMembers]) (by simp [occurrenceMembers])
    refine ⟨ClosedEnum.token_injective (Value.text.inj (Option.some.inj hid)), ?_⟩
    exact Option.map_injective (fun _ _ => textValue_injective) htime
  · rintro ⟨hid, htime⟩
    have hprofile : e.storageProfile = e'.storageProfile := by
      cases e.storageProfile
      cases e'.storageProfile
      rfl
    unfold occurrenceBytes occurrenceManifestValue occurrenceMembers
    rw [h.adapterArtifactId, h.adapterId, h.adapterProjectionVersion, h.artifact, h.artifactKind,
      h.blobDigest, h.generation, h.harness, hid, hocc, h.originClientId, h.rangeEnd, h.rangeKind,
      h.rangeStart, h.session, htime, hprofile, h.tenantId, h.upstreamSessionId]

theorem occurrenceKey_eq (h : SameSource e e') (hocc : e.occurrenceId = e'.occurrenceId) :
    occurrenceKey e = occurrenceKey e' := by
  unfold occurrenceKey
  rw [h.tenantId, h.originClientId, h.harness, h.session, hocc]

/-- The members of an upload attestation that its key does not fix. -/
theorem attestationBytes_eq_iff (h : SameSource e e') (hocc : e.occurrenceId = e'.occurrenceId)
    (hatt : e.attestationId = e'.attestationId) (huploader : e.uploaderClientId = e'.uploaderClientId)
    (hrequest : e.requestId = e'.requestId) (hd : d = d') :
    attestationBytes e d = attestationBytes e' d' ↔
      e.captureTime = e'.captureTime ∧ e.envelopeCreationTime = e'.envelopeCreationTime := by
  constructor
  · intro hbytes
    have hmember := fun name v v' => @member_eq _ _ (attestation_plain e d _ _)
      (attestation_plain e' d' _ _) hbytes name v v'
    have hcapture := hmember "capture_time" (some (textValue e.captureTime))
      (some (textValue e'.captureTime)) (by simp [attestationMembers]) (by simp [attestationMembers])
    have hcreation := hmember "envelope_creation_time" (some (textValue e.envelopeCreationTime))
      (some (textValue e'.envelopeCreationTime)) (by simp [attestationMembers])
      (by simp [attestationMembers])
    exact ⟨textValue_injective (Option.some.inj hcapture),
      textValue_injective (Option.some.inj hcreation)⟩
  · rintro ⟨hcapture, hcreation⟩
    unfold attestationBytes attestationManifestValue attestationMembers
    rw [hatt, hcapture, hd, hcreation, hocc, h.originClientId, hrequest, h.tenantId, huploader]

/-! ## The result -/

/-- Where both envelopes would write at one key, they write the same bytes. -/
structure Converge (e : Envelope) (d : Delegation) (e' : Envelope) (d' : Delegation) : Prop where
  occurrences : ∀ key bytes bytes', Writes (commitOccurrenceManifest e) key bytes →
    Writes (commitOccurrenceManifest e') key bytes' → bytes = bytes'
  attestations : ∀ key bytes bytes', Writes (commitAttestationManifest e d) key bytes →
    Writes (commitAttestationManifest e' d') key bytes' → bytes = bytes'

section
variable (hcol : Uncolliding e e') (hid : e.verifyIdentities = .ok ())
  (hid' : e'.verifyIdentities = .ok ())
include hcol hid hid'

theorem sameSource_of_occurrenceId (h : e.occurrenceId = e'.occurrenceId) : SameSource e e' := by
  refine sameSource hcol ?_
  rw [(verifyIdentities_ok hid).1, (verifyIdentities_ok hid').1, h]

theorem attestation_fixes (h : e.attestationId = e'.attestationId) :
    e.occurrenceId = e'.occurrenceId ∧ e.uploaderClientId = e'.uploaderClientId ∧
      e.requestId = e'.requestId := by
  refine Construction.attestation.inj (eq_of_bytes (bytes_eq_of_digestOf hcol.attestation ?_) nofun)
  rw [← attestationId_eq, ← attestationId_eq]
  exact (verifyIdentities_ok hid).2.trans (h.trans (verifyIdentities_ok hid').2.symm)

theorem occurrences_converge_iff :
    (∀ key bytes bytes', Writes (commitOccurrenceManifest e) key bytes →
      Writes (commitOccurrenceManifest e') key bytes' → bytes = bytes') ↔
    (e.occurrenceId = e'.occurrenceId → e.idSource = e'.idSource ∧ e.sourceTime = e'.sourceTime) := by
  simp only [occurrence_writes hid, occurrence_writes hid']
  constructor
  · intro hsame hocc
    have hsource := sameSource_of_occurrenceId hcol hid hid' hocc
    refine (occurrenceBytes_eq_iff hsource hocc).mp (hsame _ _ _ ⟨rfl, rfl⟩ ⟨?_, rfl⟩)
    rw [occurrenceKey_eq hsource hocc]
  · rintro hfields _ _ _ ⟨rfl, rfl⟩ ⟨hkey, rfl⟩
    have hocc : e.occurrenceId = e'.occurrenceId :=
      digest_at_end (OccurrenceObjectKey.mk.inj (ManifestKey.occurrence.inj hkey))
    exact (occurrenceBytes_eq_iff (sameSource_of_occurrenceId hcol hid hid' hocc) hocc).mpr (hfields hocc)

theorem attestations_converge_iff :
    (∀ key bytes bytes', Writes (commitAttestationManifest e d) key bytes →
      Writes (commitAttestationManifest e' d') key bytes' → bytes = bytes') ↔
    (d.consistent e = true → d'.consistent e' = true → e.attestationId = e'.attestationId →
      e.captureTime = e'.captureTime ∧ e.envelopeCreationTime = e'.envelopeCreationTime) := by
  have hbytes : d.consistent e = true → d'.consistent e' = true → e.attestationId = e'.attestationId →
      attestationKey e = attestationKey e' ∧ (attestationBytes e d = attestationBytes e' d' ↔
        e.captureTime = e'.captureTime ∧ e.envelopeCreationTime = e'.envelopeCreationTime) := by
    intro hd hd' hatt
    obtain ⟨hocc, huploader, hrequest⟩ := attestation_fixes hcol hid hid' hatt
    have hsource := sameSource_of_occurrenceId hcol hid hid' hocc
    have horigin := hsource.originClientId
    -- the relation is read off the two clients
    have hdelegation : d = d' := by cases d <;> cases d' <;> simp_all [Delegation.consistent]
    refine ⟨?_, attestationBytes_eq_iff hsource hocc hatt huploader hrequest hdelegation⟩
    unfold attestationKey
    rw [hsource.tenantId, hocc, hatt]
  simp only [attestation_writes hid, attestation_writes hid']
  constructor
  · intro hsame hd hd' hatt
    obtain ⟨hkey, hiff⟩ := hbytes hd hd' hatt
    refine hiff.mp (hsame _ _ _ ⟨hd, rfl, rfl⟩ ⟨hd', ?_, rfl⟩)
    rw [hkey]
  · rintro hfields _ _ _ ⟨hd, rfl, rfl⟩ ⟨hd', hkey, rfl⟩
    have hatt : e.attestationId = e'.attestationId :=
      digest_at_end (AttestationObjectKey.mk.inj (ManifestKey.attestation.inj hkey))
    exact (hbytes hd hd' hatt).2.mpr (hfields hd hd' hatt)

end

theorem manifests_converge_iff {b b' : List UInt8} (h : Protocol.IngestEnvelope.parse b = .ok e)
    (h' : Protocol.IngestEnvelope.parse b' = .ok e') (hcol : Uncolliding e e') :
    Converge e d e' d' ↔
      (e.occurrenceId = e'.occurrenceId → e.idSource = e'.idSource ∧ e.sourceTime = e'.sourceTime) ∧
      (d.consistent e = true → d'.consistent e' = true → e.attestationId = e'.attestationId →
        e.captureTime = e'.captureTime ∧ e.envelopeCreationTime = e'.envelopeCreationTime) := by
  have hid := (valid_of_parse h).identities
  have hid' := (valid_of_parse h').identities
  rw [← occurrences_converge_iff hcol hid hid', ← attestations_converge_iff hcol hid hid']
  exact ⟨fun hconverge => ⟨hconverge.occurrences, hconverge.attestations⟩,
    fun hboth => ⟨hboth.1, hboth.2⟩⟩

theorem baseline_parses : Protocol.IngestEnvelope.parse baseline.canonicalBytes = .ok baseline :=
  parse_canonicalBytes_of_valid baseline_valid

theorem baseline_converges : Converge baseline .direct baseline .direct :=
  (manifests_converge_iff baseline_parses baseline_parses (uncolliding_of_eq rfl rfl rfl rfl)).mpr
    ⟨fun _ => ⟨rfl, rfl⟩, fun _ _ _ => ⟨rfl, rfl⟩⟩

/-- The baseline envelope of an uploader that did not read the source's time. -/
def untimed : Envelope := { baseline with sourceTime := none }

theorem untimed_valid : Valid untimed := by
  have hsize : untimed.sizeCheck = .ok () :=
    sizeCheck_of_unknown (names_distinct baseline_valid.sorted baseline_valid.unknown) (by decide)
  exact
    { semantic := by decide +kernel
      identities := baseline_valid.identities
      size := hsize
      sorted := baseline_valid.sorted
      unknown := baseline_valid.unknown
      values := baseline_valid.values }

/-- Two accepted envelopes of one source event write different bytes at one key. -/
theorem untimed_diverges :
    Protocol.IngestEnvelope.parse baseline.canonicalBytes = .ok baseline ∧
    Protocol.IngestEnvelope.parse untimed.canonicalBytes = .ok untimed ∧
    Uncolliding baseline untimed ∧ occurrenceKey baseline = occurrenceKey untimed ∧
    occurrenceBytes baseline ≠ occurrenceBytes untimed ∧
    ¬ Converge baseline .direct untimed .direct := by
  have hcol : Uncolliding baseline untimed := uncolliding_of_eq rfl rfl rfl rfl
  have hsource : SameSource baseline untimed := sameSource hcol rfl
  have hbytes : occurrenceBytes baseline ≠ occurrenceBytes untimed := by
    rw [Ne, occurrenceBytes_eq_iff hsource rfl]
    exact fun hsame => absurd hsame.2 (by decide)
  refine ⟨baseline_parses, parse_canonicalBytes_of_valid untimed_valid, hcol,
    occurrenceKey_eq hsource rfl, hbytes, fun hconverge => hbytes ?_⟩
  refine hconverge.occurrences (.occurrence (occurrenceKey baseline)) _ _ ?_ ?_
  · exact (occurrence_writes baseline_valid.identities).mpr ⟨rfl, rfl⟩
  · refine (occurrence_writes untimed_valid.identities).mpr ⟨?_, rfl⟩
    rw [occurrenceKey_eq hsource rfl]

end AgentArchivist.Storage.ManifestBytes
