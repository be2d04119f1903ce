import AgentArchivist.Storage.Commit

/-! # Occurrence manifests and upload attestations

The two documents of an accepted envelope, each committed at a key derived from
identities that were derived again first. -/
namespace AgentArchivist.Storage.Manifests
open Protocol
open IngestEnvelope Json ObjectKey Vocabulary Commit RawWrite

def OCCURRENCE_VERSION : Int64 := 1
def ATTESTATION_VERSION : Int64 := 1

def occurrenceIdMismatch : StorageError :=
  ⟨.integrityConflict, "declared occurrence_id does not match the server-side re-derivation"⟩
def attestationIdMismatch : StorageError :=
  ⟨.integrityConflict, "declared attestation_id does not match the server-side re-derivation"⟩
def delegationInconsistent : StorageError :=
  ⟨.malformedInput, "delegation relation contradicts the envelope's uploader and origin clients"⟩

inductive Delegation where
  | direct
  | relay
deriving DecidableEq, Repr

def Delegation.token : Delegation → String
  | .direct => "direct"
  | .relay => "relay"

structure ManifestCommit where
  key : ManifestKey
  outcome : StorageOutcome
deriving DecidableEq

def verifiedOccurrenceId (envelope : Envelope) : Except StorageError OccurrenceId :=
  let occurrence := envelope.rederiveOccurrenceId
  if envelope.occurrenceId.raw ≠ occurrence.raw then .error occurrenceIdMismatch
  else .ok occurrence

def verifiedAttestationIdentity (envelope : Envelope) :
    Except StorageError (OccurrenceId × AttestationId) := do
  let occurrence ← verifiedOccurrenceId envelope
  let attestation := envelope.rederiveAttestationId
  if envelope.attestationId.raw ≠ attestation.raw then .error attestationIdMismatch
  else .ok (occurrence, attestation)

/-! ## The documents -/

/-- A document of the members that are there, put one by one. -/
def document (members : List (String × Option Value)) : Value :=
  .object ((members.filterMap fun m => m.2.map fun v => (m.1, v)).foldl
    (fun object m => Object.set m.1 m.2 object) [])

def occurrenceMembers (envelope : Envelope) (occurrence : OccurrenceId) (session : SessionHash) :
    List (String × Option Value) :=
  [("adapter_artifact_id", some (textValue envelope.adapterArtifactId)),
   ("adapter_id", some (textValue envelope.adapterId)),
   ("adapter_projection_version", some (textValue envelope.adapterProjectionVersion)),
   ("artifact_hash", some (textValue envelope.rederiveArtifactHash)),
   ("artifact_kind", some (textValue envelope.artifactKind)),
   ("blob_digest", some (textValue envelope.blobDigest)),
   ("generation", some (textValue envelope.generation)),
   ("harness", some (textValue envelope.harness)),
   ("id_source", some (textValue envelope.idSource)),
   ("occurrence_id", some (textValue occurrence)),
   ("occurrence_version", some (.int OCCURRENCE_VERSION)),
   ("origin_client_id", some (textValue envelope.originClientId)),
   ("range_end", some (u63Value envelope.rangeEnd)),
   ("range_kind", some (textValue envelope.rangeKind)),
   ("range_start", some (u63Value envelope.rangeStart)),
   ("session_hash", some (textValue session)),
   ("source_time", envelope.sourceTime.map textValue),
   ("storage_profile", some (textValue envelope.storageProfile)),
   ("tenant_id", some (textValue envelope.tenantId)),
   ("upstream_session_id", some (textValue envelope.upstreamSessionId))]

def occurrenceManifestValue (envelope : Envelope) (occurrence : OccurrenceId)
    (session : SessionHash) : Value := document (occurrenceMembers envelope occurrence session)

def attestationMembers (envelope : Envelope) (delegation : Delegation) (occurrence : OccurrenceId)
    (attestation : AttestationId) : List (String × Option Value) :=
  [("attestation_id", some (textValue attestation)),
   ("attestation_version", some (.int ATTESTATION_VERSION)),
   ("capture_time", some (textValue envelope.captureTime)),
   ("delegation", some (.text delegation.token)),
   ("envelope_creation_time", some (textValue envelope.envelopeCreationTime)),
   ("occurrence_id", some (textValue occurrence)),
   ("origin_client_id", some (textValue envelope.originClientId)),
   ("request_id", some (textValue envelope.requestId)),
   ("tenant_id", some (textValue envelope.tenantId)),
   ("uploader_client_id", some (textValue envelope.uploaderClientId))]

def attestationManifestValue (envelope : Envelope) (delegation : Delegation)
    (occurrence : OccurrenceId) (attestation : AttestationId) : Value :=
  document (attestationMembers envelope delegation occurrence attestation)

/-! ## The commits -/

def commitAtKey (key : ManifestKey) (bytes : List UInt8) :
    StoreM (Except StorageError ManifestCommit) := do
  match ← commitManifest key bytes with
  | .error error => pure (.error error)
  | .ok outcome => pure (.ok ⟨key, outcome⟩)

/-- What `commit_occurrence_manifest` commits, and where. -/
def occurrenceObject (envelope : Envelope) : Except StorageError (OccurrenceObjectKey × List UInt8) :=
  do
    let occurrence ← verifiedOccurrenceId envelope
    let session := envelope.rederiveSessionHash
    let key := OccurrenceObjectKey.new envelope.tenantId envelope.originClientId envelope.harness
      session occurrence
    .ok (key, canonicalBytes (occurrenceManifestValue envelope occurrence session))

def commitOccurrenceManifest (envelope : Envelope) : StoreM (Except StorageError ManifestCommit) :=
  match occurrenceObject envelope with
  | .error error => pure (.error error)
  | .ok (key, bytes) => commitAtKey (.occurrence key) bytes

def Delegation.consistent (delegation : Delegation) (envelope : Envelope) : Bool :=
  match delegation with
  | .direct => envelope.uploaderClientId = envelope.originClientId
  | .relay => envelope.uploaderClientId ≠ envelope.originClientId

/-- What `commit_attestation_manifest` commits, and where. -/
def attestationObject (envelope : Envelope) (delegation : Delegation) :
    Except StorageError (AttestationObjectKey × List UInt8) := do
  let (occurrence, attestation) ← verifiedAttestationIdentity envelope
  if !delegation.consistent envelope then .error delegationInconsistent
  else
    let key := AttestationObjectKey.new envelope.tenantId occurrence attestation
    .ok (key, canonicalBytes (attestationManifestValue envelope delegation occurrence attestation))

def commitAttestationManifest (envelope : Envelope) (delegation : Delegation) :
    StoreM (Except StorageError ManifestCommit) :=
  match attestationObject envelope delegation with
  | .error error => pure (.error error)
  | .ok (key, bytes) => commitAtKey (.attestation key) bytes

end AgentArchivist.Storage.Manifests
