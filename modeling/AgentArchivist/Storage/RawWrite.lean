import AgentArchivist.Lib.Proc
import AgentArchivist.Protocol.ObjectKey

/-! # The raw writer's store

The calls of the raw-write store and of its conditional-create extension, with what
they may answer, and the calls on the process-local registry of open uploads. The
programs of the storage layer are `Proc`s over this interface: what a call does is
said by the surroundings they are run in. -/
namespace AgentArchivist.Storage.RawWrite
open Lib Protocol
open Proc Utf8 ObjectKey Vocabulary

inductive StorageErrorKind where
  | unavailable
  | capabilityUnavailable
  | scopeViolation
  | integrityConflict
  | malformedInput
  | staleEpoch
  | inventoryFault
deriving DecidableEq, Repr

structure StorageError where
  kind : StorageErrorKind
  detail : String
deriving DecidableEq, Repr

/-- Up to `limit` printable, non-space ASCII characters, and at least one. -/
def handleGrammar (limit : Nat) (text : String) : Bool :=
  let raw := utf8 text
  !raw.isEmpty && raw.length ≤ limit && raw.all fun b => 0x21 ≤ b && b ≤ 0x7e

abbrev MultipartUploadId := Text (handleGrammar 1024)
abbrev ObjectTag := Text (handleGrammar 128)

/-- A one-based part ordinal. -/
structure PartNumber where
  get : Nat
  valid : get ≠ 0 ∧ get ≤ 10000
deriving DecidableEq

def PartNumber.MAX : Nat := 10000

def PartNumber.new (n : Nat) : Except GrammarError PartNumber :=
  if h : n = 0 ∨ n > PartNumber.MAX then .error .notCanonical
  else .ok ⟨n, fun h₀ => h (.inl h₀), Nat.le_of_not_gt fun hm => h (.inr hm)⟩

structure PartCommitment where
  number : PartNumber
  tag : ObjectTag
deriving DecidableEq

inductive ManifestKey where
  | occurrence (key : OccurrenceObjectKey)
  | attestation (key : AttestationObjectKey)
deriving DecidableEq

inductive ConditionalCreate where
  | supported
  | unavailable
deriving DecidableEq, Repr

/-- What a backend says of an object that is already there. -/
structure ExistingObject where
  size : Option UInt64
  storedSha256 : Option Digest
deriving DecidableEq

inductive CreateIfAbsent where
  | created
  | alreadyExists (existing : ExistingObject)
deriving DecidableEq

/-! ## The interface -/

inductive Call where
  | capabilities
  | writeManifest (key : ManifestKey) (bytes : List UInt8)
  | createManifestIfAbsent (key : ManifestKey) (bytes : List UInt8)
  | beginMultipart (blob : BlobObjectKey)
  | writePart (upload : MultipartUploadId) (part : PartNumber) (bytes : List UInt8)
  | commitMultipart (upload : MultipartUploadId) (parts : List PartCommitment)
  | abortMultipart (upload : MultipartUploadId)
  | register (upload : MultipartUploadId)
  | release (upload : MultipartUploadId)
  | abandon (upload : MultipartUploadId)
  | abandoned

/-- Of the capability report only `conditional_create` is read. -/
def Reply : Call → Type
  | .capabilities => ConditionalCreate
  | .writeManifest _ _ => Except StorageError StorageOutcome
  | .createManifestIfAbsent _ _ => Except StorageError CreateIfAbsent
  | .beginMultipart _ => Except StorageError MultipartUploadId
  | .writePart _ _ _ => Except StorageError PartCommitment
  | .commitMultipart _ _ => Except StorageError StorageOutcome
  | .abortMultipart _ => Except StorageError Unit
  | .register _ => Unit
  | .release _ => Unit
  | .abandon _ => Unit
  | .abandoned => List MultipartUploadId

abbrev Store : Interface := ⟨Call, Reply⟩

abbrev StoreM := Proc Store

def capabilities : StoreM ConditionalCreate := perform (I := Store) .capabilities

def writeManifest (key : ManifestKey) (bytes : List UInt8) :
    StoreM (Except StorageError StorageOutcome) := perform (I := Store) (.writeManifest key bytes)

def createManifestIfAbsent (key : ManifestKey) (bytes : List UInt8) :
    StoreM (Except StorageError CreateIfAbsent) :=
  perform (I := Store) (.createManifestIfAbsent key bytes)

def beginMultipart (blob : BlobObjectKey) : StoreM (Except StorageError MultipartUploadId) :=
  perform (I := Store) (.beginMultipart blob)

def writePart (upload : MultipartUploadId) (part : PartNumber) (bytes : List UInt8) :
    StoreM (Except StorageError PartCommitment) := perform (I := Store) (.writePart upload part bytes)

def commitMultipart (upload : MultipartUploadId) (parts : List PartCommitment) :
    StoreM (Except StorageError StorageOutcome) := perform (I := Store) (.commitMultipart upload parts)

def abortMultipart (upload : MultipartUploadId) : StoreM (Except StorageError Unit) :=
  perform (I := Store) (.abortMultipart upload)

def register (upload : MultipartUploadId) : StoreM Unit := perform (I := Store) (.register upload)

def release (upload : MultipartUploadId) : StoreM Unit := perform (I := Store) (.release upload)

def abandon (upload : MultipartUploadId) : StoreM Unit := perform (I := Store) (.abandon upload)

/-- The uploads that are abandoned at the time of the call. -/
def abandoned : StoreM (List MultipartUploadId) := perform (I := Store) .abandoned

end AgentArchivist.Storage.RawWrite
