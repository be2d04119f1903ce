import AgentArchivist.Protocol.IngestEnvelope
import AgentArchivist.Storage.RawWrite

/-! # The manifest commit decision

One manifest object reaches its key by the strongest primitive that the store
reports: conditional create, or deterministic overwrite. -/
namespace AgentArchivist.Storage.Commit
open Protocol
open Derivation IngestEnvelope Vocabulary Storage.RawWrite

def emptyManifest : StorageError := ⟨.malformedInput, "manifest bytes are empty"⟩
def oversizedManifest : StorageError :=
  ⟨.malformedInput, "manifest exceeds the canonical document bound"⟩
def conditionalNotReported : StorageError :=
  ⟨.capabilityUnavailable, "conditional create is not a reported capability of this store"⟩
def incompatibleExisting : StorageError :=
  ⟨.integrityConflict, "existing object at the derived key is incompatible with the committed bytes"⟩

def boundedManifestBytes (bytes : List UInt8) : Except StorageError Unit :=
  if bytes = [] then .error emptyManifest
  else if bytes.length > CANONICAL_MAX_BYTES then .error oversizedManifest
  else .ok ()

def putManifest (key : ManifestKey) (bytes : List UInt8) :
    StoreM (Except StorageError StorageOutcome) :=
  match boundedManifestBytes bytes with
  | .error error => pure (.error error)
  | .ok () => writeManifest key bytes

inductive ExistingCompatibility where
  | equivalent
  | contradicts
  | unproven
deriving DecidableEq

/-- How the evidence about an existing object relates to `bytes`. -/
def classifyExisting (existing : ExistingObject) (bytes : List UInt8) : ExistingCompatibility :=
  match existing.storedSha256 with
  | some digest => if digest = digestOf bytes then .equivalent else .contradicts
  | none =>
    match existing.size with
    | some size => if size = UInt64.ofNat bytes.length then .unproven else .contradicts
    | none => .unproven

def commitByConditionalCreate (key : ManifestKey) (bytes : List UInt8) :
    StoreM (Except StorageError StorageOutcome) :=
  match boundedManifestBytes bytes with
  | .error error => pure (.error error)
  | .ok () => do
    if (← capabilities) ≠ .supported then pure (.error conditionalNotReported)
    else
      match ← createManifestIfAbsent key bytes with
      | .error error => pure (.error error)
      | .ok .created => pure (.ok .created)
      | .ok (.alreadyExists existing) =>
        match classifyExisting existing bytes with
        | .equivalent => pure (.ok .alreadyPresent)
        | .contradicts => pure (.error incompatibleExisting)
        | .unproven => pure (.ok .logicallyCommittedUnknownPhysicalResult)

def commitByDeterministicOverwrite (key : ManifestKey) (bytes : List UInt8) :
    StoreM (Except StorageError StorageOutcome) := do
  match ← putManifest key bytes with
  | .error error => pure (.error error)
  | .ok _ => pure (.ok .logicallyCommittedUnknownPhysicalResult)

def commitManifest (key : ManifestKey) (bytes : List UInt8) :
    StoreM (Except StorageError StorageOutcome) := do
  match ← capabilities with
  | .supported => commitByConditionalCreate key bytes
  | .unavailable => commitByDeterministicOverwrite key bytes

end AgentArchivist.Storage.Commit
