import AgentArchivist.Auth.LinkedClientRecord
import AgentArchivist.Lib.Asked

/-! # The evidence of an uploader

What a replica reads before it decides on an attempt: the linked-client record of the
presenting client under the declared tenant, its revocations up to the pointer's epoch, the
rotation to that epoch where another key is presented, and for a relay the grant of its pair.
A control store answers every address with bytes, with nothing or with a failure. -/
namespace AgentArchivist.Server.Evidence
open Lib Protocol Auth
open Authority Delegation RequestVerification TrustView Asked Asked.Asked Json
open Vocabulary

/-! ## Refusals -/

inductive AuthRejection where
  | proofRejected
  | unlinked
  | revoked
  | forbidden
deriving DecidableEq, Repr

inductive EvidenceRejection where
  | unlinked
  | forbidden
  | registryUnavailable
deriving DecidableEq, Repr

def classify : RequestRejection → AuthRejection
  | .unlinkedUploader => .unlinked
  | .trust .revoked => .revoked
  | .malformedAuthorization | .alteredRequest | .expiredAuthorization | .prematureAuthorization
  | .invalidSignature | .trust _ => .proofRejected
  | .crossTenant | .scopeNotGranted | .delegationMissing | .delegationRefused _ => .forbidden

/-! ## Configuration and store -/

structure TenantTrustRoot where
  tenant : TenantId
  /-- The hexadecimal text of the authority's public key. -/
  authority : String

/-- Each tenant exactly once. -/
structure TrustConfig where
  roots : List TenantTrustRoot
  distinct : (roots.map TenantTrustRoot.tenant).Nodup

def TrustConfig.rootFor (trust : TrustConfig) (tenant : TenantId) : Option TenantTrustRoot :=
  trust.roots.find? fun root => root.tenant = tenant

def pinnedRoot (root : TenantTrustRoot) : Option PinnedAuthorityRoot :=
  match (WireText.fromStr root.authority : Except GrammarError Ed25519PublicKey) with
  | .ok publicKey => some ⟨root.tenant, publicKey⟩
  | .error _ => none

inductive ControlAddress where
  | linkedClient (tenant : TenantId) (client : ClientId)
  | delegation (tenant : TenantId) (relay origin : ClientId)
  | revocation (tenant : TenantId) (client : ClientId) (epoch : Nat)
  | rotation (tenant : TenantId) (client : ClientId) (epoch : Nat)
deriving DecidableEq

inductive Served where
  | held (envelope : List UInt8)
  | absent
  | failed
deriving DecidableEq

abbrev ControlStore := ControlAddress → Served

abbrev Loading := Asked ControlAddress EvidenceRejection

structure UploaderEvidence where
  uploader : LinkedUploader
  delegation : Option DelegationRecord
  controlRecord : List UInt8

/-! ## Loading -/

/-- What is no answer, or does not pass, is a condition of the registry. -/
def orUnavailable {ε α : Type} (x : Except ε α) : Loading α :=
  ofExcept (x.mapError fun _ => .registryUnavailable)

def available {α : Type} : Option α → Loading α
  | some a => pure a
  | none => refuse .registryUnavailable

def read (control : ControlStore) (address : ControlAddress) : Loading (Option (List UInt8)) := do
  match ← ask control address with
  | .held envelope => pure (some envelope)
  | .absent => pure none
  | .failed => refuse .registryUnavailable

def memberPublicKey (object : List (String × Value)) : Except EvidenceRejection Ed25519PublicKey :=
  match Object.get "public_key" object with
  | some (.text text) => (WireText.fromStr text).mapError fun _ => .registryUnavailable
  | _ => .error .registryUnavailable

def allowlist (scopes : List (String × Value)) (name : String) :
    Except EvidenceRejection (List String) :=
  match Object.get name scopes with
  | some (.array entries) => entries.mapM fun entry =>
      match entry with
      | .text text => .ok text
      | _ => .error .registryUnavailable
  | _ => .error .registryUnavailable

def memberScopes (object : List (String × Value)) : Except EvidenceRejection LinkedClientScopes :=
  match Object.get "scopes" object with
  | some (.object scopes) => do
    let harnesses ← allowlist scopes "harnesses"
    let harnessIds ← harnesses.mapM fun text =>
      (WireText.fromStr text : Except GrammarError HarnessId).mapError fun _ =>
        EvidenceRejection.registryUnavailable
    let operations ← allowlist scopes "operations"
    let operationIds ← operations.mapM fun text =>
      if text = "ingest" then .ok ScopeOperation.ingest else .error .registryUnavailable
    match LinkedClientScopes.new harnessIds operationIds with
    | some scopes => .ok scopes
    | none => .error .registryUnavailable
  | _ => .error .registryUnavailable

/-- The half and the allowlists of a linked-client record. -/
def linkedMembers (envelope : List UInt8) :
    Except EvidenceRejection (Ed25519PublicKey × LinkedClientScopes) :=
  match Json.parse envelope with
  | .ok (.object object) => do
    let publicKey ← memberPublicKey object
    let scopes ← memberScopes object
    .ok (publicKey, scopes)
  | _ => .error .registryUnavailable

section
variable (ed25519 : Verifier) (control : ControlStore) (links : Finmap fun _ : KeyId => List UInt8)

/-- The revocation that the store holds at an epoch, if any, folded into the view. -/
def foldRevocation (pinned : PinnedAuthorityRoot) (client : ClientId) (view : ClientTrustView)
    (epoch : Nat) : Loading ClientTrustView := do
  match ← read control (.revocation pinned.tenantId client epoch) with
  | none => pure view
  | some envelope =>
    let verified ← orUnavailable (RevocationRecord.verify ed25519 pinned links envelope client epoch)
    orUnavailable (view.recordRevocation verified)

/-- Every revocation up to the pointer's epoch. -/
def foldHistory (pinned : PinnedAuthorityRoot) (client : ClientId) (pointer : LinkedClientPointer)
    (view : ClientTrustView) : Loading ClientTrustView :=
  (List.range' 1 pointer.epoch).foldlM (foldRevocation ed25519 control links pinned client) view

/-- The rotation that the store holds at the pointer's epoch, if any. -/
def foldRotation (pinned : PinnedAuthorityRoot) (client : ClientId) (view : ClientTrustView)
    (epoch : Nat) : Loading ClientTrustView := do
  match ← read control (.rotation pinned.tenantId client epoch) with
  | none => pure view
  | some envelope =>
    let verified ← orUnavailable (RotationRecord.verify ed25519 pinned links envelope client epoch)
    orUnavailable (view.recordRotation verified)

def clientEvidence (root : TenantTrustRoot) (record : AttemptAuthorization) (client : ClientId) :
    Loading (Option (LinkedUploader × List UInt8)) := do
  match ← read control (.linkedClient root.tenant client) with
  | none => pure none
  | some served =>
    let pinned ← available (pinnedRoot root)
    let pointer ← orUnavailable (LinkedClientPointer.verify ed25519 pinned links served client)
    let view ← foldHistory ed25519 control links pinned client pointer (.new pointer)
    let view ←
      (if record.uploaderKeyId ≠ pointer.keyId then
        foldRotation ed25519 control links pinned client view pointer.epoch
      else pure view)
    let (publicKey, scopes) ← ofExcept (linkedMembers served)
    let uploader ← available (LinkedUploader.new pinned view publicKey scopes)
    pure (some (uploader, served))

/-- Whether a verified pointer is held under another tenant. -/
def probePointer (root : TenantTrustRoot) (client : ClientId) : Loading Bool := do
  match ← read control (.linkedClient root.tenant client) with
  | none => pure false
  | some served =>
    let pinned ← available (pinnedRoot root)
    let _ ← orUnavailable (LinkedClientPointer.verify ed25519 pinned links served client)
    pure true

/-- The other tenants in order: the client is linked elsewhere, or nowhere. -/
def probeOthers (declared : TenantId) (client : ClientId) : List TenantTrustRoot → Loading UploaderEvidence
  | [] => refuse .unlinked
  | other :: rest =>
    if other.tenant = declared then probeOthers declared client rest
    else do
      if ← probePointer ed25519 control links other client then refuse .forbidden
      else probeOthers declared client rest

def relayGrant (root : TenantTrustRoot) (origin relay : ClientId) :
    Loading (Option DelegationRecord) :=
  if origin = relay then pure none
  else do
    match ← read control (.delegation root.tenant relay origin) with
    | none => refuse .forbidden
    | some served =>
      let pinned ← available (pinnedRoot root)
      let grant ← orUnavailable (DelegationRecord.verify ed25519 pinned links served relay origin)
      pure (some grant)

def loadUploaderEvidence (trust : TrustConfig) (record : AttemptAuthorization)
    (declaredTenant : TenantId) (uploader origin : ClientId) : Loading UploaderEvidence :=
  match trust.rootFor declaredTenant with
  | none => refuse .forbidden
  | some root => do
    match ← clientEvidence ed25519 control links root record uploader with
    | none => probeOthers ed25519 control links declaredTenant uploader trust.roots
    | some (linked, controlRecord) =>
      let delegation ← relayGrant ed25519 control links root origin linked.view.pointer.clientId
      pure { uploader := linked, delegation, controlRecord }

end

/-! ## The decision -/

def authorizeAttempt (ed25519 : Verifier) (record : AttemptAuthorization)
    (presented : PresentedRequest) (evidence : UploaderEvidence) (now : Timestamp) :
    Except AuthRejection AuthorizedAttempt :=
  (verifyRequest ed25519 record presented (some evidence.uploader) evidence.delegation now).mapError
    classify

end AgentArchivist.Server.Evidence
