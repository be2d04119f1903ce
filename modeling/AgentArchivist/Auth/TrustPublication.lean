import AgentArchivist.Auth.RequestVerification

/-! # Publishing trust records

The offline authority publishes revocations, rotations and delegations, and a replica
verifies what it finds at their addresses. What is published under the pinned half is
verified to exactly the published fields; a revocation then folds into the view at the
pointer it was published against where that is the pointer of its own client, which
`publishRevocation` does not ask (`publishRotation` does). -/
namespace AgentArchivist.Auth.TrustView
open Auth.Authority Auth.ControlRecord Protocol.Vocabulary

/-! ## Verifying -/

def failures : Failures RevocationError := ⟨.malformedRecord, .recordDisagreement, .untrustedAuthority⟩

def revocationFamily : Family RevocationError where
  members := ["schema", "record_type", "record_kind", "tenant_id", "client_id", "revoked_key_id",
    "authorization_epoch", "signed_at", "authority_key_id", "authority_signature"]
  recordType := "revocation"
  recordKind := "immutable"
  failures := failures
  distinct := by decide
  few := by decide
  short_names := by decide
  short_identity := by decide

def rotationFamily : Family RevocationError where
  members := ["schema", "record_type", "record_kind", "tenant_id", "client_id", "previous_epoch",
    "previous_public_key", "previous_key_id", "key_algorithm", "public_key", "key_id",
    "authorization_epoch", "signed_at", "authority_key_id", "authority_signature"]
  recordType := "rotation"
  recordKind := "immutable"
  failures := failures
  distinct := by decide
  few := by decide
  short_names := by decide
  short_identity := by decide

section
variable (ed25519 : Verifier) (root : PinnedAuthorityRoot)
  (store : Finmap fun _ : KeyId => List UInt8) (envelope : List UInt8)

def RevocationRecord.verify (addressedClient : ClientId) (addressedEpoch : Nat) :
    Except RevocationError RevocationRecord := do
  let object ← revocationFamily.begin root envelope
  let client ← readMember .malformedRecord object "client_id"
  if client ≠ addressedClient then .error .recordDisagreement
  else do
    let revokedKeyId ← readMember .malformedRecord object "revoked_key_id"
    let epoch ← epochMemberNamed .malformedRecord object "authorization_epoch"
    if epoch.1 ≠ addressedEpoch then .error .recordDisagreement
    else do
      let signedAt ← revocationFamily.conclude ed25519 root store envelope object
      .ok
        { tenantId := root.tenantId
          clientId := client
          revokedKeyId := revokedKeyId
          epoch := epoch.1
          signedAt := signedAt.1
          positive := epoch.2
          calendar := signedAt.2 }

def RotationRecord.verify (addressedClient : ClientId) (addressedEpoch : Nat) :
    Except RevocationError RotationRecord := do
  let object ← rotationFamily.begin root envelope
  let client ← readMember .malformedRecord object "client_id"
  if client ≠ addressedClient then .error .recordDisagreement
  else if textMember object "key_algorithm" ≠ some "ed25519" then .error .recordDisagreement
  else do
    let publicKey ← readMember .malformedRecord object "public_key"
    let keyId ← readMember .malformedRecord object "key_id"
    if derived : keyId = KeyId.fromPublicKey publicKey then do
      let previousPublicKey ← readMember .malformedRecord object "previous_public_key"
      let previousKeyId ← readMember .malformedRecord object "previous_key_id"
      if previous_derived : previousKeyId = KeyId.fromPublicKey previousPublicKey then
        if advances : previousKeyId ≠ keyId then do
          let epoch ← epochMemberNamed .malformedRecord object "authorization_epoch"
          if epoch.1 ≠ addressedEpoch then .error .recordDisagreement
          else do
            let previousEpoch ← epochMemberNamed .malformedRecord object "previous_epoch"
            if adjacent : previousEpoch.1 + 1 = epoch.1 then do
              let signedAt ← rotationFamily.conclude ed25519 root store envelope object
              .ok
                { tenantId := root.tenantId
                  clientId := client
                  previousEpoch := previousEpoch.1
                  previousPublicKey, previousKeyId
                  epoch := epoch.1
                  publicKey, keyId
                  signedAt := signedAt.1
                  positive := previousEpoch.2
                  adjacent, previous_derived, derived, advances
                  calendar := signedAt.2 }
            else .error .recordDisagreement
        else .error .recordDisagreement
      else .error .recordDisagreement
    else .error .recordDisagreement

end

end AgentArchivist.Auth.TrustView

namespace AgentArchivist.Auth.Delegation
open Auth.Authority Auth.ControlRecord Protocol Protocol.Vocabulary

def delegationFamily : Family DelegationError where
  members := ["schema", "record_type", "record_kind", "tenant_id", "relay_client_id",
    "origin_client_id", "delegation_state", "scopes", "authorization_epoch", "signed_at",
    "authority_key_id", "authority_signature"]
  recordType := "delegation"
  recordKind := "current-pointer"
  failures := ⟨.malformedRecord, .recordDisagreement, .untrustedAuthority⟩
  distinct := by decide
  few := by decide
  short_names := by decide
  short_identity := by decide

/-- The two segments of the address are order-sensitive. -/
def DelegationRecord.verify (ed25519 : Verifier) (root : PinnedAuthorityRoot)
    (store : Finmap fun _ : KeyId => List UInt8) (envelope : List UInt8)
    (addressedRelay addressedOrigin : ClientId) : Except DelegationError DelegationRecord := do
  let object ← delegationFamily.begin root envelope
  let relay ← readMember .malformedRecord object "relay_client_id"
  let origin ← readMember .malformedRecord object "origin_client_id"
  if relay ≠ addressedRelay ∨ origin ≠ addressedOrigin then .error .recordDisagreement
  else if distinct : relay ≠ origin then
    match (textMember object "delegation_state").bind DelegationState.fromToken with
    | none => .error .malformedRecord
    | some state => do
      let scopes ← DelegationScopes.parse (Json.Object.get "scopes" object)
      let epoch ← epochMemberNamed .malformedRecord object "authorization_epoch"
      let signedAt ← delegationFamily.conclude ed25519 root store envelope object
      .ok
        { tenantId := root.tenantId
          relayClientId := relay
          originClientId := origin
          state := state
          scopes := scopes
          epoch := epoch.1
          signedAt := signedAt.1
          positive := epoch.2
          distinct := distinct
          calendar := signedAt.2 }
  else .error .recordDisagreement

end AgentArchivist.Auth.Delegation

namespace AgentArchivist.Auth.TrustPublication
open Auth.ControlRecord Auth.Delegation Auth.TrustView Auth.TrustView.ClientTrustView
open Lib.Fallible Lib.Utf8 Protocol Protocol.Document Protocol.DerivationInjective
open Protocol.EnvelopeSize Protocol.Json Protocol.JsonCanonical Protocol.Vocabulary

/-! ## Publishing -/

/-- The bytes, and the key to which they are written. -/
structure Publication where
  envelope : List UInt8
  objectKey : String
deriving DecidableEq

inductive PublicationError where
  | malformedInput
  | epochUnreached
  | keyIdMismatch
deriving DecidableEq, Repr

inductive DelegationPublicationError where
  | malformedInput
  | selfDelegation
  | staleEpoch
deriving DecidableEq, Repr

def revocationObjectKey (tenant : TenantId) (client : ClientId) (epoch : Nat) : String :=
  "tenants/" ++ tenant.asStr ++ "/v1/control/revocations/" ++ client.asStr ++ "/" ++ toString epoch ++
    ".json"

def rotationObjectKey (tenant : TenantId) (client : ClientId) (epoch : Nat) : String :=
  "tenants/" ++ tenant.asStr ++ "/v1/control/rotations/" ++ client.asStr ++ "/" ++ toString epoch ++
    ".json"

def delegationObjectKey (tenant : TenantId) (relay origin : ClientId) : String :=
  "tenants/" ++ tenant.asStr ++ "/v1/control/delegations/" ++ relay.asStr ++ "/" ++ origin.asStr ++
    ".json"

def revocationPayload (client : ClientId) (revokedKeyId : KeyId) (epoch : Nat) :
    List (String × Value) :=
  [("client_id", .text (WireText.text client)), ("revoked_key_id", .text (WireText.text revokedKeyId)),
   ("authorization_epoch", .int (Int64.ofNat epoch))]

def rotationPayload (client : ClientId) (previousPublicKey publicKey : Ed25519PublicKey)
    (epoch : Nat) : List (String × Value) :=
  [("client_id", .text (WireText.text client)), ("previous_epoch", .int (Int64.ofNat (epoch - 1))),
   ("previous_public_key", .text (WireText.text previousPublicKey)),
   ("previous_key_id", .text (WireText.text (KeyId.fromPublicKey previousPublicKey))),
   ("key_algorithm", .text "ed25519"), ("public_key", .text (WireText.text publicKey)),
   ("key_id", .text (WireText.text (KeyId.fromPublicKey publicKey))),
   ("authorization_epoch", .int (Int64.ofNat epoch))]

def delegationPayload (relay origin : ClientId) (state : DelegationState) (scopes : DelegationScopes)
    (epoch : Nat) : List (String × Value) :=
  [("relay_client_id", .text (WireText.text relay)), ("origin_client_id", .text (WireText.text origin)),
   ("delegation_state", .text state.token), ("scopes", scopes.toJson),
   ("authorization_epoch", .int (Int64.ofNat epoch))]

section
variable (scheme : SignatureScheme) (seed : scheme.Seed) (tenant : TenantId)

/-- The envelope of a record of a family. -/
def envelope {ε : Type} (family : Family ε) (payload : List (String × Value)) (signedAt : Timestamp) :
    List UInt8 :=
  sealedBytes scheme seed (family.wrap tenant payload signedAt (scheme.authorityKeyId seed))

def publishRevocation (client : ClientId) (revokeEpoch : Nat) (revokedKeyId : KeyId)
    (pointer : LinkedClientPointer) (signedAt : Timestamp) : Except PublicationError Publication :=
  if revokeEpoch = 0 ∨ !calendarValid signedAt then .error .malformedInput
  else if revokeEpoch > pointer.epoch then .error .epochUnreached
  else if revokeEpoch = pointer.epoch ∧ revokedKeyId ≠ pointer.keyId then .error .keyIdMismatch
  -- `i64::try_from(revoke_epoch)`
  else if revokeEpoch ≥ 2 ^ 63 then .error .malformedInput
  else .ok
    { envelope := envelope scheme seed tenant revocationFamily
        (revocationPayload client revokedKeyId revokeEpoch) signedAt
      objectKey := revocationObjectKey tenant client revokeEpoch }

def publishRotation (client : ClientId) (previousPublicKey publicKey : Ed25519PublicKey)
    (pointer : LinkedClientPointer) (signedAt : Timestamp) : Except PublicationError Publication :=
  if pointer.epoch < 2 ∨ !calendarValid signedAt then .error .malformedInput
  else if pointer.clientId ≠ client ∨ previousPublicKey = publicKey ∨
      pointer.keyId ≠ KeyId.fromPublicKey publicKey then .error .keyIdMismatch
  else if pointer.epoch ≥ 2 ^ 63 then .error .malformedInput
  else .ok
    { envelope := envelope scheme seed tenant rotationFamily
        (rotationPayload client previousPublicKey publicKey pointer.epoch) signedAt
      objectKey := rotationObjectKey tenant client pointer.epoch }

def publishDelegation (relay origin : ClientId) (state : DelegationState) (scopes : DelegationScopes)
    (epoch : Nat) (standingEpoch : Option Nat) (signedAt : Timestamp) :
    Except DelegationPublicationError Publication :=
  if epoch = 0 ∨ !calendarValid signedAt then .error .malformedInput
  else if relay = origin then .error .selfDelegation
  else if standingEpoch.any fun standing => epoch ≤ standing then .error .staleEpoch
  else if epoch ≥ 2 ^ 63 then .error .malformedInput
  else .ok
    { envelope := envelope scheme seed tenant delegationFamily
        (delegationPayload relay origin state scopes epoch) signedAt
      objectKey := delegationObjectKey tenant relay origin }

end

/-! ## What is published is verified -/

section
variable {scheme : SignatureScheme} {seed : scheme.Seed} {tenant : TenantId} {client : ClientId}
  {signedAt : Timestamp}

/-- The record that a revocation's envelope holds. -/
theorem revocation_verified {revokedKeyId epoch} (hpos : 1 ≤ epoch) (hlt : epoch < 2 ^ 63)
    (hcalendar : calendarValid signedAt = true) :
    RevocationRecord.verify scheme.verify (scheme.pinned seed tenant) ∅
      (envelope scheme seed tenant revocationFamily (revocationPayload client revokedKeyId epoch)
        signedAt) client epoch =
        .ok ⟨tenant, client, revokedKeyId, epoch, signedAt, hpos, hcalendar⟩ := by
  have h : Payload revocationFamily (revocationPayload client revokedKeyId epoch) :=
    ⟨rfl, by simp +decide [revocationPayload, -utf8_length]⟩
  refine bind_eq_ok.mpr ⟨_, h.begin_eq rfl, ?_⟩
  refine bind_eq_ok.mpr ⟨client, h.read_own (by simp [revocationPayload]), ?_⟩
  rw [if_neg (not_not.mpr rfl)]
  refine bind_eq_ok.mpr ⟨revokedKeyId, h.read_own (by simp [revocationPayload]), ?_⟩
  refine bind_eq_ok.mpr ⟨_, h.epoch_own hpos hlt (by simp [revocationPayload]), ?_⟩
  rw [if_neg (not_not.mpr rfl)]
  exact bind_eq_ok.mpr ⟨_, h.conclude_eq hcalendar, rfl⟩

/-- The record that a rotation's envelope holds; two halves with one identifier are not a
rotation. -/
theorem rotation_verified {previousPublicKey publicKey epoch} (hpos : 2 ≤ epoch)
    (hlt : epoch < 2 ^ 63) (hcalendar : calendarValid signedAt = true) :
    RotationRecord.verify scheme.verify (scheme.pinned seed tenant) ∅
      (envelope scheme seed tenant rotationFamily
        (rotationPayload client previousPublicKey publicKey epoch) signedAt) client epoch =
      if hadvances : KeyId.fromPublicKey previousPublicKey ≠ KeyId.fromPublicKey publicKey then
        .ok ⟨tenant, client, epoch - 1, previousPublicKey, KeyId.fromPublicKey previousPublicKey,
          epoch, publicKey, KeyId.fromPublicKey publicKey, signedAt, Nat.le_sub_of_add_le hpos,
          Nat.sub_add_cancel (Nat.le_of_succ_le hpos), rfl, rfl, hadvances, hcalendar⟩
      else .error .recordDisagreement := by
  have h : Payload rotationFamily (rotationPayload client previousPublicKey publicKey epoch) :=
    ⟨rfl, by simp +decide [rotationPayload, -utf8_length]⟩
  have hone : 1 ≤ epoch := Nat.le_of_succ_le hpos
  have hprevious : 1 ≤ epoch - 1 := Nat.le_sub_of_add_le hpos
  have hprevious_lt : epoch - 1 < 2 ^ 63 := Nat.lt_of_le_of_lt (Nat.sub_le _ _) hlt
  have hlisted : ∀ m ∈ rotationPayload client previousPublicKey publicKey epoch,
      m ∈ rotationPayload client previousPublicKey publicKey epoch := fun m hm => hm
  nth_rewrite 1 [rotationPayload] at hlisted
  simp only [List.forall_mem_cons] at hlisted
  obtain ⟨hclient, hepoch1, hhalf1, hid1, halgorithm, hhalf, hid, hepoch, -⟩ := hlisted
  refine (bind_of_ok (h.begin_eq rfl)).trans ?_
  refine (bind_of_ok (h.read_own hclient)).trans ?_
  rw [if_neg (not_not.mpr rfl), if_neg (not_not.mpr (h.textMember_own halgorithm))]
  refine (bind_of_ok (h.read_own hhalf)).trans ?_
  refine (bind_of_ok (h.read_own hid)).trans ?_
  rw [dif_pos rfl]
  refine (bind_of_ok (h.read_own hhalf1)).trans ?_
  refine (bind_of_ok (h.read_own hid1)).trans ?_
  rw [dif_pos rfl]
  split
  · refine (bind_of_ok (h.epoch_own hone hlt hepoch)).trans ?_
    rw [if_neg (not_not.mpr rfl)]
    refine (bind_of_ok (h.epoch_own hprevious hprevious_lt hepoch1)).trans ?_
    rw [dif_pos (Nat.sub_add_cancel hone)]
    exact bind_of_ok (h.conclude_eq hcalendar)
  · rfl

/-- A list of a grant, whose texts are short. -/
theorem items_moderate {T : Type} [DecidableEq T] {text : T → String} (list : Allowlist T text)
    (hshort : ∀ t, (utf8 (text t)).length ≤ 64) :
    WellFormed (DelegationScopes.items list) ∧ valueDepth (DelegationScopes.items list) < 3 ∧
      (Json.canonicalBytes (DelegationScopes.items list)).length ≤ 30000 := by
  refine ⟨.array fun v hv => ?_, itemsDepth_lt.mpr fun v hv => ?_, ?_⟩
  · obtain ⟨t, -, rfl⟩ := List.mem_map.mp hv
    exact .text _
  · obtain ⟨t, -, rfl⟩ := List.mem_map.mp hv
    simp [valueDepth]
  have hitem : ∀ v ∈ list.tokens.map fun t => Value.text (text t),
      (Json.canonicalBytes v).length ≤ 386 := by
    intro v hv
    obtain ⟨t, -, rfl⟩ := List.mem_map.mp hv
    have hwritten := length_writeString (text t)
    have := hshort t
    simp only [Json.canonicalBytes]
    omega
  have hlen := length_array_le hitem
  have hbound := Nat.mul_le_mul_right 387 list.bound.2
  rw [List.length_map] at hlen
  simp only [DelegationScopes.items, BOUND] at hlen hbound ⊢
  omega

theorem scopes_moderate (scopes : DelegationScopes) : Moderate scopes.toJson := by
  have hharnesses := items_moderate scopes.harnesses fun t => Derivation.Bounded.fits t.valid
  have hoperations := items_moderate scopes.operations fun t => by cases t; decide
  have hnames := scopes.listed_nodup
  refine ⟨assembled_wellFormed hnames ?_, assembled_depth hnames ?_, ?_⟩
  · simpa [DelegationScopes.listed] using ⟨hharnesses.1, hoperations.1⟩
  · simpa [DelegationScopes.listed] using ⟨hharnesses.2.1, hoperations.2.1⟩
  have hcost : ∀ m ∈ scopes.listed, memberCost m ≤ 30100 := by
    have hname := length_writeString "harnesses"
    have hname' := length_writeString "operations"
    have hutf8 : (utf8 "harnesses").length = 9 ∧ (utf8 "operations").length = 10 := by decide
    simp only [DelegationScopes.listed, List.forall_mem_cons, memberCost]
    exact ⟨by omega, by omega, List.forall_mem_nil _⟩
  have hlen := length_assembled hnames hcost
  have htwo : scopes.listed.length = 2 := rfl
  rw [DelegationScopes.toJson]
  omega

/-- The record that a delegation's envelope holds. -/
theorem delegation_verified {relay origin : ClientId} {state : DelegationState}
    {scopes : DelegationScopes} {epoch : Nat} (hpos : 1 ≤ epoch) (hlt : epoch < 2 ^ 63)
    (hcalendar : calendarValid signedAt = true) (hdistinct : relay ≠ origin) :
    DelegationRecord.verify scheme.verify (scheme.pinned seed tenant) ∅
      (envelope scheme seed tenant delegationFamily
        (delegationPayload relay origin state scopes epoch) signedAt) relay origin =
        .ok ⟨tenant, relay, origin, state, scopes, epoch, signedAt, hpos, hdistinct, hcalendar⟩ := by
  have h : Payload delegationFamily (delegationPayload relay origin state scopes epoch) :=
    ⟨rfl, by cases state <;> simp +decide [delegationPayload, scopes_moderate, -utf8_length]⟩
  refine bind_eq_ok.mpr ⟨_, h.begin_eq rfl, ?_⟩
  refine bind_eq_ok.mpr ⟨relay, h.read_own (by simp [delegationPayload]), ?_⟩
  refine bind_eq_ok.mpr ⟨origin, h.read_own (by simp [delegationPayload]), ?_⟩
  rw [if_neg (by simp), dif_pos hdistinct]
  have hstate : DelegationState.fromToken state.token = some state := by cases state <;> rfl
  have htext : ("delegation_state", Value.text state.token) ∈
      delegationPayload relay origin state scopes epoch := by simp [delegationPayload]
  have hscopes : ("scopes", scopes.toJson) ∈ delegationPayload relay origin state scopes epoch := by
    simp [delegationPayload]
  rw [h.textMember_own htext, Option.bind_some, hstate]
  refine bind_eq_ok.mpr ⟨scopes, ?_, ?_⟩
  · rw [h.get_own hscopes]
    exact scopes.parse_toJson
  refine bind_eq_ok.mpr ⟨_, h.epoch_own hpos hlt (by simp [delegationPayload]), ?_⟩
  exact bind_eq_ok.mpr ⟨_, h.conclude_eq hcalendar, rfl⟩

/-- A verified rotation to the pointer's epoch and half folds there. -/
theorem rotation_folds {record pointer} (hclient : record.clientId = pointer.clientId)
    (hepoch : record.epoch = pointer.epoch) (hkey : record.keyId = pointer.keyId) :
    ∃ view, (new pointer).recordRotation record = .ok view := by
  have hfits : TrustRecord.Fits (new pointer).pointer (.rotation record) :=
    ⟨hclient, hepoch.le, fun _ => hkey⟩
  have hfold : ∃ view, (new pointer).record (.rotation record) = .ok view :=
    record_laws.folds_iff.mpr ⟨hfits, nofun⟩
  exact hfold

end

/-- What the replica makes of a published revocation. -/
structure RevocationAccepted (scheme : SignatureScheme) (seed : scheme.Seed) (tenant : TenantId)
    (client : ClientId) (epoch : Nat) (revokedKeyId : KeyId) (pointer : LinkedClientPointer)
    (signedAt : Timestamp) (publication : Publication) (record : RevocationRecord) : Prop where
  address : publication.objectKey = revocationObjectKey tenant client epoch
  verified : RevocationRecord.verify scheme.verify (scheme.pinned seed tenant) ∅ publication.envelope
    client epoch = .ok record
  fields : record.tenantId = tenant ∧ record.clientId = client ∧ record.revokedKeyId = revokedKeyId ∧
    record.epoch = epoch ∧ record.signedAt = signedAt
  folds : (∃ view, (new pointer).recordRevocation record = .ok view) ↔ pointer.clientId = client

/-- What the replica makes of a published rotation. -/
structure RotationAccepted (scheme : SignatureScheme) (seed : scheme.Seed) (tenant : TenantId)
    (client : ClientId) (previousPublicKey publicKey : Ed25519PublicKey)
    (pointer : LinkedClientPointer) (signedAt : Timestamp) (publication : Publication)
    (record : RotationRecord) : Prop where
  address : publication.objectKey = rotationObjectKey tenant client pointer.epoch
  verified : RotationRecord.verify scheme.verify (scheme.pinned seed tenant) ∅ publication.envelope
    client pointer.epoch = .ok record
  client : record.tenantId = tenant ∧ record.clientId = client ∧ record.signedAt = signedAt
  halves : record.previousPublicKey = previousPublicKey ∧ record.publicKey = publicKey ∧
    record.previousKeyId = KeyId.fromPublicKey previousPublicKey ∧
    record.keyId = KeyId.fromPublicKey publicKey
  epochs : record.previousEpoch = pointer.epoch - 1 ∧ record.epoch = pointer.epoch
  folds : ∃ view, (new pointer).recordRotation record = .ok view

/-- What the replica makes of a published delegation. -/
structure DelegationAccepted (scheme : SignatureScheme) (seed : scheme.Seed) (tenant : TenantId)
    (relay origin : ClientId) (state : DelegationState) (scopes : DelegationScopes) (epoch : Nat)
    (signedAt : Timestamp) (publication : Publication) (record : DelegationRecord) : Prop where
  address : publication.objectKey = delegationObjectKey tenant relay origin
  verified : DelegationRecord.verify scheme.verify (scheme.pinned seed tenant) ∅ publication.envelope
    relay origin = .ok record
  fields : record.tenantId = tenant ∧ record.relayClientId = relay ∧ record.originClientId = origin ∧
    record.state = state ∧ record.scopes = scopes ∧ record.epoch = epoch ∧ record.signedAt = signedAt

namespace Sample
open Auth.AuthorityPublication.Sample Auth.TrustView.Sample Auth.RequestVerification.Sample

/-- One seed, whose half accepts everything. -/
def scheme : SignatureScheme where
  Seed := Unit
  publicKeyFromSeed _ := first
  sign _ _ := .fill 0
  verify _ _ _ := true
  agrees _ _ := rfl

/-- The first half of a client is revoked. -/
def revocation (client : ClientId) : Publication where
  envelope := envelope scheme () tenant revocationFamily
    (revocationPayload client (KeyId.fromPublicKey first) 1) newYear
  objectKey := revocationObjectKey tenant client 1

theorem revocation_published (client : ClientId) :
    publishRevocation scheme () tenant client 1 (KeyId.fromPublicKey first) pointer newYear =
      .ok (revocation client) := by
  simp [publishRevocation, newYear_calendar, TrustView.Sample.pointer, revocation]

/-- The rotation to the pointer's half. -/
def rotated : Publication where
  envelope := envelope scheme () tenant rotationFamily (rotationPayload tenant first second 2) newYear
  objectKey := rotationObjectKey tenant tenant 2

theorem rotated_published :
    publishRotation scheme () tenant tenant first second pointer newYear = .ok rotated := by
  have hdiffer : first ≠ second := fun h => first_ne_second (congrArg KeyId.fromPublicKey h)
  simp [publishRotation, newYear_calendar, TrustView.Sample.pointer, hdiffer, rotated]

def delegated : Publication where
  envelope := envelope scheme () tenant delegationFamily
    (delegationPayload tenant origin .active grant.scopes 1) newYear
  objectKey := delegationObjectKey tenant tenant origin

theorem delegated_published :
    publishDelegation scheme () tenant tenant origin .active grant.scopes 1 none newYear =
      .ok delegated := by
  have hdistinct : (tenant : ClientId) ≠ origin := grant.distinct
  simp [publishDelegation, newYear_calendar, hdistinct, delegated]

end Sample

end AgentArchivist.Auth.TrustPublication
