import AgentArchivist.Storage.Blob
import AgentArchivist.Storage.Manifests

/-! # The three-object commit sequence

Blob, occurrence manifest, upload attestation: each only after the one before it is
durable. A failure says how far the attempt got. -/
namespace AgentArchivist.Storage.Sequence
open Protocol
open Derivation IngestEnvelope Blob Manifests RawWrite

inductive DurableState where
  | nothing
  | blobOnly
  | blobAndOccurrence
deriving DecidableEq, Repr

structure SequenceError where
  durable : DurableState
  failure : StorageError
  cleanup : Option StorageError
deriving DecidableEq

structure ProvenanceCommit where
  occurrence : ManifestCommit
  attestation : ManifestCommit
deriving DecidableEq

structure SequenceCommit where
  blob : BlobCommit
  provenance : ProvenanceCommit
deriving DecidableEq

def commitProvenance (envelope : Envelope) (delegation : Delegation) :
    StoreM (Except SequenceError ProvenanceCommit) := do
  match ← commitOccurrenceManifest envelope with
  | .error failure => pure (.error ⟨.blobOnly, failure, none⟩)
  | .ok occurrence =>
    match ← commitAttestationManifest envelope delegation with
    | .error failure => pure (.error ⟨.blobAndOccurrence, failure, none⟩)
    | .ok attestation => pure (.ok ⟨occurrence, attestation⟩)

def commitSequence {ε : Type} (envelope : Envelope) (delegation : Delegation)
    (encoder : BlobEncoder ε) (state : ε) (canonical : List Slice) :
    StoreM (Except SequenceError SequenceCommit) := do
  let expectation : BlobExpectation := ⟨envelope.blobDigest, envelope.uncompressedSize.value⟩
  match ← commitBlob envelope.tenantId expectation encoder state canonical with
  | .error error => pure (.error ⟨.nothing, error.failure, error.cleanup⟩)
  | .ok blob =>
    match ← commitProvenance envelope delegation with
    | .error error => pure (.error error)
    | .ok provenance => pure (.ok ⟨blob, provenance⟩)

end AgentArchivist.Storage.Sequence
