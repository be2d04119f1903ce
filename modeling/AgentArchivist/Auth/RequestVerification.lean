import AgentArchivist.Auth.ControlRecord
import AgentArchivist.Auth.Delegation
import AgentArchivist.Auth.TrustView
import AgentArchivist.Protocol.DerivationInjective

/-! # Request verification

The decision on one ingest attempt, made before anything is written: the covered digests, the
freshness, the linkage, the signature, the scope and the delegation, in this order. The
decision is the conjunction of what it asks (`verifyRequest_ok`); the half under which the
signature is verified is determined by the trust decision before it (`admittedHalf_eq`). -/
namespace AgentArchivist.Auth.RequestVerification
open Lib Protocol List
open Authority ControlRecord Delegation TrustView Fallible Utf8 Derivation
open DerivationInjective Json Vocabulary

def AUTHORIZATION_WINDOW_SECONDS : Int := 300
def CLOCK_SKEW_ALLOWANCE_SECONDS : Int := 300
def HTTP_METHOD : String := "POST"
def ROUTE : String := "/v1/ingest"

def ATTEMPT_MEMBERS : List String :=
  ["http_method", "route", "content_type", "request_content_digest", "envelope_digest",
   "payload_canonical_digest", "payload_transport_digest", "uploader_key_id",
   "authorization_epoch", "authorization_timestamp", "signature_algorithm", "signature"]

inductive RequestRejection where
  | malformedAuthorization
  | alteredRequest
  | expiredAuthorization
  | prematureAuthorization
  | unlinkedUploader
  | crossTenant
  | trust (rejection : AttemptRejection)
  | invalidSignature
  | scopeNotGranted
  | delegationMissing
  | delegationRefused (rejection : DelegationRejection)
deriving DecidableEq, Repr

/-! ## The signature parameters -/

/-- The record that an attempt presents. -/
structure AttemptAuthorization where
  contentType : ContentType
  requestContentDigest : RequestContentDigest
  envelopeDigest : EnvelopeDigest
  payloadCanonicalDigest : PayloadCanonicalDigest
  payloadTransportDigest : PayloadTransportDigest
  uploaderKeyId : KeyId
  authorizationEpoch : UInt64
  authorizationTimestamp : Timestamp
  signature : Ed25519Signature
  positive : 1 ≤ authorizationEpoch.toNat
  calendar : calendarValid authorizationTimestamp = true

instance : Bounded contentTypeGrammar where
  limit := 100
  limit_lt := by decide
  fits h := by
    simp only [contentTypeGrammar, Bool.and_eq_true, decide_eq_true_eq] at h
    exact h.1.1.1.1

namespace AttemptAuthorization

/-- The checks in the source's order; every failure is the same. -/
def parse : Value → Except RequestRejection AttemptAuthorization
  | .object object => do
    verifyMemberSet .malformedAuthorization object ATTEMPT_MEMBERS
    if textMember object "http_method" ≠ some HTTP_METHOD ∨ textMember object "route" ≠ some ROUTE then
      .error .malformedAuthorization
    else do
      let _algorithm : SignatureAlgorithm ←
        readMember .malformedAuthorization object "signature_algorithm"
      let contentType ← readMember .malformedAuthorization object "content_type"
      let requestContentDigest ← readMember .malformedAuthorization object "request_content_digest"
      let envelopeDigest ← readMember .malformedAuthorization object "envelope_digest"
      let payloadCanonicalDigest ← readMember .malformedAuthorization object "payload_canonical_digest"
      let payloadTransportDigest ← readMember .malformedAuthorization object "payload_transport_digest"
      let uploaderKeyId ← readMember .malformedAuthorization object "uploader_key_id"
      let epoch ← epochMemberNamed .malformedAuthorization object "authorization_epoch"
      let authorizationTimestamp ← readMember .malformedAuthorization object "authorization_timestamp"
      if calendar : calendarValid authorizationTimestamp = true then do
        let signature ← readMember .malformedAuthorization object "signature"
        if h : epoch.1 < 2 ^ 64 then
          .ok
            { contentType, requestContentDigest, envelopeDigest, payloadCanonicalDigest,
              payloadTransportDigest, uploaderKeyId,
              authorizationEpoch := UInt64.ofNat epoch.1
              authorizationTimestamp, signature,
              positive := by rw [UInt64.toNat_ofNat_of_lt' h]; exact epoch.2
              calendar }
        -- not reached: the epoch was an `i64`
        else .error .malformedAuthorization
      else .error .malformedAuthorization
  | _ => .error .malformedAuthorization

/-- The bytes that the signature covers. -/
def signingInput (authorization : AttemptAuthorization) : List UInt8 :=
  ingestAttemptSigningInput ⟨HTTP_METHOD, by decide⟩ ⟨ROUTE, by decide⟩
    (strOf authorization.contentType) authorization.requestContentDigest
    authorization.envelopeDigest authorization.payloadCanonicalDigest
    authorization.payloadTransportDigest authorization.uploaderKeyId
    authorization.authorizationEpoch authorization.authorizationTimestamp

/-- The ten covered fields. -/
def covered (authorization : AttemptAuthorization) : Construction :=
  .ingestAttempt ⟨HTTP_METHOD, by decide⟩ ⟨ROUTE, by decide⟩ (strOf authorization.contentType)
    authorization.requestContentDigest authorization.envelopeDigest
    authorization.payloadCanonicalDigest authorization.payloadTransportDigest
    authorization.uploaderKeyId authorization.authorizationEpoch authorization.authorizationTimestamp

theorem signingInput_eq (authorization : AttemptAuthorization) :
    authorization.signingInput = authorization.covered.bytes := by
  have hnew := PreimageBuilder.holds_new "ingest-attempt-v1"
  exact (((((((((hnew.pushText _).pushText _).pushText _).pushDigest32 _).pushDigest32
    _).pushDigest32 _).pushDigest32 _).pushDigest32 _).pushU63 _).pushText _

end AttemptAuthorization

/-! ## The evidence -/

/-- What the pipeline computed from the received request. -/
structure PresentedRequest where
  tenantId : TenantId
  uploaderClientId : ClientId
  originClientId : ClientId
  harness : HarnessId
  requestContentDigest : RequestContentDigest
  envelopeDigest : EnvelopeDigest
  payloadCanonicalDigest : PayloadCanonicalDigest
  payloadTransportDigest : PayloadTransportDigest
deriving DecidableEq

/-- The verified control evidence of one uploader. -/
structure LinkedUploader where
  tenantId : TenantId
  view : ClientTrustView
  publicKey : Ed25519PublicKey
  scopes : LinkedClientScopes
  derived : KeyId.fromPublicKey publicKey = view.pointer.keyId

def LinkedUploader.new (root : PinnedAuthorityRoot) (view : ClientTrustView)
    (publicKey : Ed25519PublicKey) (scopes : LinkedClientScopes) : Option LinkedUploader :=
  if derived : KeyId.fromPublicKey publicKey = view.pointer.keyId then
    some ⟨root.tenantId, view, publicKey, scopes, derived⟩
  else none

structure AuthorizedAttempt where
  uploaderClientId : ClientId
  anchorClientId : ClientId
  keyId : KeyId
  authorizationEpoch : UInt64
deriving DecidableEq

/-! ## The decision -/

/-- The whole seconds of a timestamp. -/
def epochSeconds (stamp : Timestamp) : Int :=
  let bytes := utf8 stamp.asStr
  let number (lo hi : Nat) : Int := decimal (slice bytes lo hi)
  daysFromCivil (number 0 4) (number 5 7) (number 8 10) * 86400 + number 11 13 * 3600 +
    number 14 16 * 60 + number 17 19

/-- The half that the view's decision admitted. -/
def admittedHalf (linked : LinkedUploader) (authorization : AttemptAuthorization) :
    Option Ed25519PublicKey :=
  let view := linked.view
  if authorization.uploaderKeyId = view.pointer.keyId then some linked.publicKey
  else
    (view.rotations.entries.find? fun entry =>
      entry.1 = view.pointer.epoch && entry.2.windowCovers authorization.authorizationTimestamp &&
        entry.2.previousKeyId = authorization.uploaderKeyId).map fun entry => entry.2.previousPublicKey

/-- The client at which the attempt is anchored. -/
def anchor (presented : PresentedRequest) (linked : LinkedUploader)
    (delegation : Option DelegationRecord) : Except RequestRejection ClientId :=
  if presented.originClientId = presented.uploaderClientId then .ok presented.uploaderClientId
  else match delegation with
    | none => .error .delegationMissing
    | some grant =>
      let relayAttempt : RelayAttempt :=
        { tenantId := presented.tenantId
          relayClientId := presented.uploaderClientId
          originClientId := presented.originClientId
          harness := presented.harness
          operation := .ingest }
      (grant.authorize relayAttempt linked.scopes).mapError .delegationRefused

def verifyRequest (verify : Verifier) (authorization : AttemptAuthorization)
    (presented : PresentedRequest) (linked : Option LinkedUploader)
    (delegation : Option DelegationRecord) (now : Timestamp) :
    Except RequestRejection AuthorizedAttempt :=
  if authorization.requestContentDigest ≠ presented.requestContentDigest ∨
      authorization.envelopeDigest ≠ presented.envelopeDigest ∨
      authorization.payloadCanonicalDigest ≠ presented.payloadCanonicalDigest ∨
      authorization.payloadTransportDigest ≠ presented.payloadTransportDigest then
    .error .alteredRequest
  else
    let age := epochSeconds now - epochSeconds authorization.authorizationTimestamp
    if age > AUTHORIZATION_WINDOW_SECONDS + CLOCK_SKEW_ALLOWANCE_SECONDS then
      .error .expiredAuthorization
    else if age < -CLOCK_SKEW_ALLOWANCE_SECONDS then .error .prematureAuthorization
    else match linked with
      | none => .error .unlinkedUploader
      | some linked =>
        if linked.tenantId ≠ presented.tenantId then .error .crossTenant
        else match AuthorizationAttempt.new presented.uploaderClientId
            authorization.authorizationEpoch.toNat authorization.uploaderKeyId with
          | none => .error .malformedAuthorization
          | some attempt => do
            (linked.view.evaluateAt attempt authorization.authorizationTimestamp).mapError .trust
            match admittedHalf linked authorization with
            | none => .error (.trust .keyEpochMismatch)
            | some half =>
              if !verify half authorization.signingInput authorization.signature then
                .error .invalidSignature
              else if !linked.scopes.containsHarness presented.harness ||
                  !linked.scopes.containsOperation .ingest then .error .scopeNotGranted
              else do
                let anchorClientId ← anchor presented linked delegation
                .ok
                  { uploaderClientId := presented.uploaderClientId
                    anchorClientId
                    keyId := authorization.uploaderKeyId
                    authorizationEpoch := authorization.authorizationEpoch }

/-! ## What is asked -/

/-- The attempt that the trust view decides on. -/
def attemptOf (authorization : AttemptAuthorization) (presented : PresentedRequest) :
    AuthorizationAttempt :=
  ⟨presented.uploaderClientId, authorization.authorizationEpoch.toNat, authorization.uploaderKeyId⟩

/-- The relay attempt that a delegation decides on. -/
def relayOf (presented : PresentedRequest) : RelayAttempt :=
  ⟨presented.tenantId, presented.uploaderClientId, presented.originClientId, presented.harness, .ingest⟩

/-- The public halves that the evidence of an uploader holds for its current epoch. -/
def Holds (linked : LinkedUploader) (half : Ed25519PublicKey) : Prop :=
  half = linked.publicKey ∨ ∃ rotation,
    linked.view.rotations.get linked.view.pointer.epoch = some rotation ∧
      half = rotation.previousPublicKey

/-- The conjunction; `Half` says which public halves count. -/
structure Authorizes (verify : Verifier) (Half : LinkedUploader → Ed25519PublicKey → Prop)
    (authorization : AttemptAuthorization) (presented : PresentedRequest) (linked : LinkedUploader)
    (delegation : Option DelegationRecord) (now : Timestamp) : Prop where
  request : authorization.requestContentDigest = presented.requestContentDigest
  envelope : authorization.envelopeDigest = presented.envelopeDigest
  canonical : authorization.payloadCanonicalDigest = presented.payloadCanonicalDigest
  transport : authorization.payloadTransportDigest = presented.payloadTransportDigest
  unexpired : epochSeconds now - epochSeconds authorization.authorizationTimestamp ≤ 600
  mature : epochSeconds authorization.authorizationTimestamp - epochSeconds now ≤ 300
  tenant : linked.tenantId = presented.tenantId
  trusted : linked.view.evaluateAt (attemptOf authorization presented)
    authorization.authorizationTimestamp = .ok ()
  signed : ∃ half, Half linked half ∧ KeyId.fromPublicKey half = authorization.uploaderKeyId ∧
    verify half authorization.covered.bytes authorization.signature = true
  harness : presented.harness ∈ linked.scopes.harnesses
  operation : .ingest ∈ linked.scopes.operations
  delegated : presented.originClientId ≠ presented.uploaderClientId →
    ∃ grant, delegation = some grant ∧ Grants grant (relayOf presented)

/-! ## The half -/

section
variable {linked : LinkedUploader} {authorization : AttemptAuthorization}

/-- The two halves of the evidence have different identifiers, so that the identifier tells which
one is meant. -/
theorem Holds.unique {half half'} (h : Holds linked half) (h' : Holds linked half')
    (heq : KeyId.fromPublicKey half = KeyId.fromPublicKey half') : half = half' := by
  have hdiffer : ∀ rotation, linked.view.rotations.get linked.view.pointer.epoch = some rotation →
      KeyId.fromPublicKey linked.publicKey ≠ KeyId.fromPublicKey rotation.previousPublicKey := by
    intro rotation hget
    have hbelongs := (linked.view.belongs _ _ hget).2.2 rfl
    rw [linked.derived, ← rotation.previous_derived, ← hbelongs]
    exact rotation.advances.symm
  rcases h with rfl | ⟨r, hget, rfl⟩ <;> rcases h' with rfl | ⟨r', hget', rfl⟩
  · rfl
  · exact absurd heq (hdiffer r' hget')
  · exact absurd heq.symm (hdiffer r hget)
  · rw [hget] at hget'
    cases hget'
    rfl

/-- After the trust decision, the half is the one with the presented identifier. -/
theorem admittedHalf_eq {presented}
    (htrusted : linked.view.evaluateAt (attemptOf authorization presented)
      authorization.authorizationTimestamp = .ok ()) :
    ∃ half, admittedHalf linked authorization = some half ∧ Holds linked half ∧
      KeyId.fromPublicKey half = authorization.uploaderKeyId := by
  have hkey : authorization.uploaderKeyId = linked.view.pointer.keyId ∨
      Overlaps linked.view authorization.uploaderKeyId authorization.authorizationTimestamp :=
    (evaluateAt_ok.mp htrusted).2
  unfold admittedHalf
  dsimp only
  split
  · rename_i hpointer
    exact ⟨linked.publicKey, rfl, .inl rfl, linked.derived.trans hpointer.symm⟩
  rename_i hother
  obtain ⟨rotation, hget, hwindow, hprevious⟩ := hkey.resolve_left hother
  -- the entry at the pointer's epoch is the one that is found
  cases hfound : linked.view.rotations.entries.find? _ with
  | none =>
    have hnone := List.find?_eq_none.mp hfound _ (OrderedMap.get_eq_some.mp hget)
    simp [hwindow, hprevious] at hnone
  | some entry =>
    have hentry := find?_some hfound
    simp only [Bool.and_eq_true, decide_eq_true_eq] at hentry
    have hmem : linked.view.rotations.get entry.1 = some entry.2 :=
      OrderedMap.get_eq_some.mpr (mem_of_find?_eq_some hfound)
    rw [hentry.1.1] at hmem
    exact ⟨_, rfl, .inr ⟨entry.2, hmem, rfl⟩, entry.2.previous_derived.symm.trans hentry.2⟩

end

/-! ## The decision is the conjunction -/

section
variable {verify : Verifier} {authorization : AttemptAuthorization} {presented : PresentedRequest}
  {linked : LinkedUploader} {delegation : Option DelegationRecord} {now : Timestamp}

theorem anchor_ok (hharness : presented.harness ∈ linked.scopes.harnesses)
    (hoperation : .ingest ∈ linked.scopes.operations) {client} :
    anchor presented linked delegation = .ok client ↔ client = presented.originClientId ∧
      (presented.originClientId ≠ presented.uploaderClientId →
        ∃ grant, delegation = some grant ∧ Grants grant (relayOf presented)) := by
  unfold anchor
  split
  · rename_i hdirect
    rw [and_iff_left fun hne => absurd hdirect hne, hdirect]
    exact ⟨fun h => (Except.ok.inj h).symm, fun h => congrArg _ h.symm⟩
  rename_i hrelay
  cases delegation with
  | none => exact ⟨nofun, fun h => nomatch (h.2 hrelay).choose_spec.1⟩
  | some grant =>
    rw [mapError_eq_ok, authorize_ok]
    constructor
    · intro ⟨hgrants, _, _, hclient⟩
      exact ⟨hclient, fun _ => ⟨grant, rfl, hgrants⟩⟩
    · intro ⟨hclient, hgrants⟩
      obtain ⟨_, heq, hgrants⟩ := hgrants hrelay
      cases heq
      exact ⟨hgrants, hharness, hoperation, hclient⟩

/-- What an authorized attempt names. -/
def authorized (authorization : AttemptAuthorization) (presented : PresentedRequest) :
    AuthorizedAttempt :=
  ⟨presented.uploaderClientId, presented.originClientId, authorization.uploaderKeyId,
    authorization.authorizationEpoch⟩

theorem attempt_new : AuthorizationAttempt.new presented.uploaderClientId
    authorization.authorizationEpoch.toNat authorization.uploaderKeyId =
      some (attemptOf authorization presented) := if_pos authorization.positive

theorem verifyRequest_ok {linked a} :
    verifyRequest verify authorization presented linked delegation now = .ok a ↔
      (∃ uploader, linked = some uploader ∧
        Authorizes verify Holds authorization presented uploader delegation now) ∧
      a = authorized authorization presented := by
  cases linked with
  | none => simp [verifyRequest, refuse_eq_ok]
  | some uploader =>
    simp only [verifyRequest, attempt_new, refuse_eq_ok, bind_eq_ok, mapError_eq_ok, not_or, not_not,
      AUTHORIZATION_WINDOW_SECONDS, CLOCK_SKEW_ALLOWANCE_SECONDS]
    constructor
    · rintro ⟨hdigests, hexpired, hpremature, htenant, ⟨⟩, htrusted, h⟩
      obtain ⟨half, hhalf, hholds, hid⟩ := admittedHalf_eq htrusted
      simp only [hhalf, refuse_eq_ok, bind_eq_ok, LinkedClientScopes.containsHarness,
        LinkedClientScopes.containsOperation, Bool.or_eq_true, Bool.not_eq_true',
        decide_eq_false_iff_not, not_or, not_not, Bool.not_eq_false, authorization.signingInput_eq] at h
      obtain ⟨hverified, ⟨hharness, hoperation⟩, client, hanchor, h⟩ := h
      obtain ⟨rfl, hdelegated⟩ := (anchor_ok hharness hoperation).mp hanchor
      exact ⟨⟨uploader, rfl, hdigests.1, hdigests.2.1, hdigests.2.2.1, hdigests.2.2.2, by omega,
        by omega, htenant, htrusted, ⟨half, hholds, hid, hverified⟩, hharness, hoperation,
        hdelegated⟩, (Except.ok.inj h).symm⟩
    · rintro ⟨⟨_, heq, h⟩, rfl⟩
      cases heq
      obtain ⟨half, hhalf, hholds, hid⟩ := admittedHalf_eq h.trusted
      obtain ⟨half', hholds', hid', hverified⟩ := h.signed
      obtain rfl := hholds.unique hholds' (hid.trans hid'.symm)
      rw [← authorization.signingInput_eq] at hverified
      have hunexpired := h.unexpired
      have hmature := h.mature
      refine ⟨⟨h.request, h.envelope, h.canonical, h.transport⟩, by omega, by omega, h.tenant, (),
        h.trusted, ?_⟩
      simp only [hhalf, refuse_eq_ok, bind_eq_ok]
      refine ⟨by simp [hverified], ?_, _, (anchor_ok h.harness h.operation).mpr ⟨rfl, h.delegated⟩, rfl⟩
      simp [LinkedClientScopes.containsHarness, LinkedClientScopes.containsOperation, h.harness,
        h.operation]

/-- Whichever half has the presented identifier, unless SHA-256 confuses it with one of the
evidence's. -/
theorem authorizes_half {half} (hid : KeyId.fromPublicKey half = authorization.uploaderKeyId)
    (hcollision : ∀ held, Holds linked held → NoCollision half.raw held.raw) :
    Authorizes verify Holds authorization presented linked delegation now ↔
      Authorizes verify (fun _ h => h = half) authorization presented linked delegation now := by
  have hsame : ∀ held, Holds linked held → KeyId.fromPublicKey held = authorization.uploaderKeyId →
      held = half := by
    intro held hheld hkey
    have hdigest := congrArg Digest.raw (hid.trans hkey.symm)
    exact Digest.ext (hcollision held hheld hdigest).symm
  constructor
  · intro h
    obtain ⟨held, hheld, hkey, hverified⟩ := h.signed
    exact { h with signed := ⟨held, hsame held hheld hkey, hkey, hverified⟩ }
  · intro h
    obtain ⟨held, -, hheld, hkey⟩ := admittedHalf_eq h.trusted
    obtain ⟨_, rfl, -, hverified⟩ := h.signed
    obtain rfl := hsame held hheld hkey
    exact { h with signed := ⟨held, hheld, hkey, hverified⟩ }

end

/-- The decision on every attempt: the conjunction, with the half that the evidence holds or any
half of the presented identifier; the anchor; and the fallback that is not reached. -/
theorem request_decision (verify : Verifier) (authorization : AttemptAuthorization)
    (presented : PresentedRequest) (linked : Option LinkedUploader)
    (delegation : Option DelegationRecord) (now : Timestamp) :
    (∀ a, verifyRequest verify authorization presented linked delegation now = .ok a ↔
      (∃ uploader, linked = some uploader ∧
        Authorizes verify Holds authorization presented uploader delegation now) ∧
      a = authorized authorization presented) ∧
    (∀ half, KeyId.fromPublicKey half = authorization.uploaderKeyId →
      (∀ uploader held, linked = some uploader → Holds uploader held →
        NoCollision half.raw held.raw) →
      ((∃ a, verifyRequest verify authorization presented linked delegation now = .ok a) ↔
        ∃ uploader, linked = some uploader ∧
          Authorizes verify (fun _ h => h = half) authorization presented uploader delegation now)) ∧
    ∀ uploader, linked = some uploader →
      uploader.view.evaluateAt (attemptOf authorization presented)
        authorization.authorizationTimestamp = .ok () →
      ∃ half, admittedHalf uploader authorization = some half := by
  refine ⟨fun a => verifyRequest_ok, fun half hid hcollision => ?_, fun uploader _ htrusted => ?_⟩
  · constructor
    · rintro ⟨a, h⟩
      obtain ⟨⟨uploader, hlinked, h⟩, -⟩ := verifyRequest_ok.mp h
      exact ⟨uploader, hlinked, (authorizes_half hid fun held => hcollision uploader held hlinked).mp h⟩
    · rintro ⟨uploader, hlinked, h⟩
      have hholds := (authorizes_half hid fun held => hcollision uploader held hlinked).mpr h
      exact ⟨_, verifyRequest_ok.mpr ⟨⟨uploader, hlinked, hholds⟩, rfl⟩⟩
  · obtain ⟨half, hhalf, -⟩ := admittedHalf_eq htrusted
    exact ⟨half, hhalf⟩

/-! ## A relayed attempt inside an overlap -/

namespace Sample
open Auth.AuthorityPublication.Sample Auth.TrustView.Sample

def harness : HarnessId := Vocabulary.Specimen.harness
def origin : ClientId := ⟨"44444444-4444-4444-8444-444444444444", by decide +kernel⟩
def zeros : Digest := .fill 0

/-- The uploader rotated to its second half at the new year. -/
def view : ClientTrustView where
  pointer := pointer
  revocations := .empty
  rotations := OrderedMap.empty.insert 2 toSecond
  belongs := by
    intro epoch found hget
    rw [OrderedMap.get_insert] at hget
    split at hget
    · rename_i heq
      cases hget
      exact ⟨heq.symm, rfl, fun _ => rfl⟩
    · cases hget

def scopes : LinkedClientScopes :=
  ⟨[harness], [.ingest], cons_ne_nil _ _, cons_ne_nil _ _, pairwise_singleton _ _⟩

theorem view_derived : KeyId.fromPublicKey second = view.pointer.keyId := rfl

def linked : LinkedUploader := ⟨tenant, view, second, scopes, view_derived⟩

/-- The grant for the origin's occurrences. -/
def grant : DelegationRecord where
  tenantId := tenant
  relayClientId := tenant
  originClientId := origin
  state := .active
  scopes :=
    { harnesses := ⟨[harness], by decide, pairwise_singleton _ _, rfl⟩
      operations := ⟨[.ingest], by decide, pairwise_singleton _ _, rfl⟩ }
  epoch := 1
  signedAt := newYear
  positive := first_epoch
  distinct := fun h => absurd (congrArg Text.asStr h) (by decide)
  calendar := newYear_calendar

/-- The attempt is signed with the first half, at the new year. -/
def authorization : AttemptAuthorization where
  contentType := ⟨"multipart/related; boundary=b", by decide +kernel⟩
  requestContentDigest := zeros
  envelopeDigest := zeros
  payloadCanonicalDigest := zeros
  payloadTransportDigest := zeros
  uploaderKeyId := KeyId.fromPublicKey first
  authorizationEpoch := 2
  authorizationTimestamp := newYear
  signature := .fill 0
  positive := by decide
  calendar := newYear_calendar

def presented : PresentedRequest :=
  ⟨tenant, tenant, origin, harness, zeros, zeros, zeros, zeros⟩

/-- The first half signed this attempt and nothing else. -/
def signer : Verifier := fun key message _ => key = first && message = authorization.covered.bytes

theorem rotation_held : view.rotations.get view.pointer.epoch = some toSecond :=
  (OrderedMap.get_insert ..).trans (if_pos rfl)

theorem trusted : view.evaluateAt (attemptOf authorization presented) newYear = .ok () := by
  have hwindow := RotationRecord.windowCovers_iff.mpr
    ⟨newYear_calendar, le_refl (utcInstant toSecond.signedAt), AuthorityWindows.le_overlapEnd _⟩
  exact evaluateAt_ok.mpr
    ⟨standing_ok.mpr ⟨rfl, rfl, nofun⟩, .inr ⟨toSecond, rotation_held, hwindow, rfl⟩⟩

theorem authorizes : Authorizes signer Holds authorization presented linked (some grant) newYear where
  request := rfl
  envelope := rfl
  canonical := rfl
  transport := rfl
  unexpired := by rw [show authorization.authorizationTimestamp = newYear from rfl]; omega
  mature := by rw [show authorization.authorizationTimestamp = newYear from rfl]; omega
  tenant := rfl
  trusted := trusted
  signed := ⟨first, .inr ⟨toSecond, rotation_held, rfl⟩, rfl, by simp [signer]⟩
  harness := mem_singleton_self _
  operation := mem_singleton_self _
  delegated _ := ⟨grant, rfl, rfl, rfl, rfl, nofun, mem_singleton_self _, mem_singleton_self _⟩

/-- The halves of the evidence are not confused. -/
theorem no_collision {held} (h : Holds linked held) : NoCollision first.raw held.raw := by
  intro hdigest
  have hkey : KeyId.fromPublicKey first = KeyId.fromPublicKey held := Digest.ext hdigest
  have hfirst : Holds linked first := .inr ⟨toSecond, rotation_held, rfl⟩
  exact congrArg Digest.raw (hfirst.unique h hkey)

end Sample

/-- A relay that signs with its previous half inside the overlap is authorized, and anchored at the
origin. -/
theorem relayed_attempt_authorized :
    verifyRequest Sample.signer Sample.authorization Sample.presented (some Sample.linked)
      (some Sample.grant) AuthorityPublication.Sample.newYear =
        .ok (authorized Sample.authorization Sample.presented) ∧
    (∃ uploader, some Sample.linked = some uploader ∧
      Authorizes Sample.signer (fun _ h => h = AuthorityPublication.Sample.first) Sample.authorization
        Sample.presented uploader (some Sample.grant) AuthorityPublication.Sample.newYear) ∧
    ∃ half, admittedHalf Sample.linked Sample.authorization = some half := by
  obtain ⟨hok, hhalf, hreached⟩ := request_decision Sample.signer Sample.authorization
    Sample.presented (some Sample.linked) (some Sample.grant) AuthorityPublication.Sample.newYear
  have hverified := (hok _).mpr ⟨⟨Sample.linked, rfl, Sample.authorizes⟩, rfl⟩
  refine ⟨hverified, (hhalf _ rfl fun uploader held heq h => ?_).mp ⟨_, hverified⟩,
    hreached _ rfl Sample.trusted⟩
  cases heq
  exact Sample.no_collision h

end AgentArchivist.Auth.RequestVerification
