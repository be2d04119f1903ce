import Mathlib.Data.Prod.Lex
import AgentArchivist.Lib.Loop
import AgentArchivist.Protocol.Json
import AgentArchivist.Protocol.Vocabulary

/-! # The authority chain

The rotation link of one retired key, the walk from the pinned root along the links that
a store serves, and when a half that the walk reached may have signed. Ed25519
verification is the parameter `verify`; a loop of the walk is a `Loop` body, one fetch a
turn. -/
namespace AgentArchivist.Auth.Authority
open Lib Protocol
open Loop Utf8 Json Vocabulary

def CONTROL_NAMESPACE : String := "archivist.control/v1"
def RECORD_TYPE : String := "authority-rotation"
def RECORD_KIND : String := "immutable"

/-- The closed member set of the record. -/
def MEMBERS : List String :=
  ["authority_key_id", "authority_signature", "key_algorithm", "key_id", "previous_key_id",
   "previous_public_key", "public_key", "record_kind", "record_type", "schema", "signed_at",
   "tenant_id"]

def ROTATION_VERIFICATION_OVERLAP_HOURS : Int := 24
def OVERLAP_SECONDS : Int := ROTATION_VERIFICATION_OVERLAP_HOURS * 60 * 60

inductive AuthorityChainError where
  | malformedRecord
  | recordDisagreement
  | keyDerivation
  | chainRule
  | signature
  | unreachable
  | notEstablished
  | retired
  | alreadyRetired
deriving DecidableEq, Repr

/-- The public half that the clients of a tenant pinned; its identifier is derived. -/
structure PinnedAuthorityRoot where
  tenantId : TenantId
  publicKey : Ed25519PublicKey
deriving DecidableEq

def PinnedAuthorityRoot.keyId (root : PinnedAuthorityRoot) : KeyId :=
  KeyId.fromPublicKey root.publicKey

/-- A rotation link. Only the parser makes one, so it carries what the parser checks. -/
structure AuthorityRotationLink where
  tenantId : TenantId
  previousPublicKey : Ed25519PublicKey
  previousKeyId : KeyId
  keyAlgorithm : SignatureAlgorithm
  publicKey : Ed25519PublicKey
  keyId : KeyId
  signedAt : Timestamp
  authorityKeyId : KeyId
  authoritySignature : Ed25519Signature
  calendar : calendarValid signedAt = true
  previous_derived : previousKeyId = KeyId.fromPublicKey previousPublicKey
  derived : keyId = KeyId.fromPublicKey publicKey
  witnessed : authorityKeyId = previousKeyId
  advances : keyId ≠ previousKeyId
deriving DecidableEq

/-- What a verifier of signatures answers for a key, a message and a signature. -/
abbrev Verifier := Ed25519PublicKey → List UInt8 → Ed25519Signature → Bool

/-! ## Reading a link -/

def textMember (object : List (String × Value)) (name : String) : Option String :=
  match Object.get name object with
  | some (.text text) => some text
  | _ => none

/-- `T::parse(text_member(object, name).ok_or(malformed)?)`. -/
def parsed {T : Type} [WireText T] (object : List (String × Value)) (name : String) :
    Except AuthorityChainError T :=
  match textMember object name with
  | none => .error .malformedRecord
  | some text => (WireText.fromStr text).mapError fun _ => .malformedRecord

namespace AuthorityRotationLink

/-- The checks on a parsed object, in the source's order. -/
def fromObject (object : List (String × Value)) :
    Except AuthorityChainError AuthorityRotationLink :=
  if object.length ≠ MEMBERS.length then .error .malformedRecord
  else if MEMBERS.any fun name => (textMember object name).isNone then .error .malformedRecord
  else if textMember object "schema" ≠ some CONTROL_NAMESPACE then .error .recordDisagreement
  else if textMember object "record_type" ≠ some RECORD_TYPE then .error .recordDisagreement
  else if textMember object "record_kind" ≠ some RECORD_KIND then .error .recordDisagreement
  else do
    let tenantId ← parsed object "tenant_id"
    let previousPublicKey ← parsed object "previous_public_key"
    let publicKey ← parsed object "public_key"
    let keyAlgorithm ← parsed object "key_algorithm"
    let signedAt ← parsed object "signed_at"
    if calendar : calendarValid signedAt = true then do
      let previousKeyId ← parsed object "previous_key_id"
      if previous_derived : previousKeyId = KeyId.fromPublicKey previousPublicKey then do
        let keyId ← parsed object "key_id"
        if derived : keyId = KeyId.fromPublicKey publicKey then do
          let authorityKeyId ← parsed object "authority_key_id"
          if chain : authorityKeyId = previousKeyId ∧ keyId ≠ previousKeyId then do
            let authoritySignature ← parsed object "authority_signature"
            .ok
              { tenantId, previousPublicKey, previousKeyId, keyAlgorithm, publicKey, keyId,
                signedAt, authorityKeyId, authoritySignature, calendar, previous_derived, derived,
                witnessed := chain.1, advances := chain.2 }
          else .error .chainRule
        else .error .keyDerivation
      else .error .keyDerivation
    else .error .malformedRecord

def parse (bytes : List UInt8) : Except AuthorityChainError AuthorityRotationLink :=
  match Json.parse bytes with
  | .ok (.object object) => fromObject object
  | _ => .error .malformedRecord

/-! ## Writing a link -/

/-- The members that the signature covers, in the order in which they are put. -/
def unsigned (link : AuthorityRotationLink) : List (String × Value) :=
  [("schema", .text CONTROL_NAMESPACE),
   ("record_type", .text RECORD_TYPE),
   ("record_kind", .text RECORD_KIND),
   ("tenant_id", .text (WireText.text link.tenantId)),
   ("previous_public_key", .text (WireText.text link.previousPublicKey)),
   ("previous_key_id", .text (WireText.text link.previousKeyId)),
   ("key_algorithm", .text (WireText.text link.keyAlgorithm)),
   ("public_key", .text (WireText.text link.publicKey)),
   ("key_id", .text (WireText.text link.keyId)),
   ("signed_at", .text (WireText.text link.signedAt)),
   ("authority_key_id", .text (WireText.text link.authorityKeyId))]

/-- All members. -/
def signed (link : AuthorityRotationLink) : List (String × Value) :=
  link.unsigned ++ [("authority_signature", .text (WireText.text link.authoritySignature))]

/-- An object of members set one by one. -/
def objectOf (members : List (String × Value)) : Value :=
  .object (members.foldl (fun object m => Object.set m.1 m.2 object) [])

def unsignedCanonicalBytes (link : AuthorityRotationLink) : List UInt8 :=
  Json.canonicalBytes (objectOf link.unsigned)

def canonicalBytes (link : AuthorityRotationLink) : List UInt8 :=
  Json.canonicalBytes (objectOf link.signed)

def verifyPredecessorSignature (verify : Verifier) (link : AuthorityRotationLink) : Bool :=
  verify link.previousPublicKey link.unsignedCanonicalBytes link.authoritySignature

end AuthorityRotationLink

/-! ## Instants -/

/-- Days since 1970-01-01; the source's divisions truncate. -/
def daysFromCivil (year month day : Int) : Int :=
  let year := year - if month ≤ 2 then 1 else 0
  let era := (if year ≥ 0 then year else year - 399).tdiv 400
  let yearOfEra := year - era * 400
  let monthOffset := if month > 2 then -3 else 9
  let dayOfYear := (153 * (month + monthOffset) + 2).tdiv 5 + day - 1
  let dayOfEra := yearOfEra * 365 + yearOfEra.tdiv 4 - yearOfEra.tdiv 100 + dayOfYear
  era * 146097 + dayOfEra - 719468

/-- The number that decimal digits spell. -/
def decimal (digits : List UInt8) : Nat :=
  digits.foldl (fun acc c => acc * 10 + (c - 0x30).toNat) 0

/-- Seconds since the epoch and nanoseconds into the second, compared in that order. -/
abbrev Instant := Int ×ₗ Nat

def utcInstant (stamp : Timestamp) : Instant :=
  let bytes := utf8 stamp.asStr
  let number (lo hi : Nat) : Int := decimal (slice bytes lo hi)
  let seconds := daysFromCivil (number 0 4) (number 5 7) (number 8 10) * 86400 +
    number 11 13 * 3600 + number 14 16 * 60 + number 17 19
  let digits := slice bytes 20 (bytes.length - 1)
  let nanoseconds := if bytes.length > 20 then decimal digits * 10 ^ (9 - digits.length) else 0
  toLex (seconds, nanoseconds)

/-! ## A signer that the walk reached -/

structure ResolvedAuthority where
  keyId : KeyId
  publicKey : Ed25519PublicKey
  establishedAt : Option Timestamp
  retiredAt : Option Timestamp
deriving DecidableEq

inductive Acceptance where
  | accepted
  | invalidInstant
  | beforeEstablishment
  | afterRetirement
deriving DecidableEq

namespace ResolvedAuthority

/-- May the half have signed at this instant? -/
def acceptance (resolved : ResolvedAuthority) (at' : Timestamp) : Acceptance :=
  if !calendarValid at' then .invalidInstant
  else if resolved.establishedAt.any fun established => utcInstant at' < utcInstant established then
    .beforeEstablishment
  else if resolved.retiredAt.any fun retired =>
      toLex ((ofLex (utcInstant retired)).1 + OVERLAP_SECONDS, (ofLex (utcInstant retired)).2) <
        utcInstant at' then .afterRetirement
  else .accepted

def verifySigningAt (resolved : ResolvedAuthority) (at' : Timestamp) :
    Except AuthorityChainError Unit :=
  match resolved.acceptance at' with
  | .accepted => .ok ()
  | .invalidInstant => .error .malformedRecord
  | .beforeEstablishment => .error .notEstablished
  | .afterRetirement => .error .retired

end ResolvedAuthority

/-! ## The walk -/

variable (verify : Verifier) (root : PinnedAuthorityRoot)

def verifiedLinkAt (addressedKey : KeyId) (bytes : List UInt8) :
    Except AuthorityChainError AuthorityRotationLink := do
  let link ← AuthorityRotationLink.parse bytes
  if link.tenantId ≠ root.tenantId then .error .recordDisagreement
  else if link.previousKeyId ≠ addressedKey then .error .recordDisagreement
  else if !link.verifyPredecessorSignature verify then .error .signature
  else .ok link

/-- What the walk holds. -/
structure Walk where
  currentId : KeyId
  currentPublic : Ed25519PublicKey
  establishedAt : Option Timestamp
  visited : List KeyId
deriving DecidableEq

namespace Walk

def start : Walk where
  currentId := root.keyId
  currentPublic := root.publicKey
  establishedAt := none
  visited := [root.keyId]

/-- The link at the current key, held to the strictly advancing rule. -/
def advance (w : Walk) (bytes : List UInt8) : Except AuthorityChainError AuthorityRotationLink := do
  let link ← verifiedLinkAt verify root w.currentId bytes
  if link.keyId ∈ w.visited then .error .chainRule else .ok link

def adopt (w : Walk) (link : AuthorityRotationLink) : Walk where
  currentId := link.keyId
  currentPublic := link.publicKey
  establishedAt := some link.signedAt
  visited := w.visited ++ [link.keyId]

/-- The half that the walk holds. -/
def resolved (w : Walk) (retiredAt : Option Timestamp) : ResolvedAuthority where
  keyId := w.currentId
  publicKey := w.currentPublic
  establishedAt := w.establishedAt
  retiredAt := retiredAt

end Walk

variable (fetch : KeyId → Option (List UInt8))

/-- The retirement probe at the signer. -/
def retirement (w : Walk) : Except AuthorityChainError (Option Timestamp) :=
  match fetch w.currentId with
  | none => .ok none
  | some bytes => do
    let link ← w.advance verify root bytes
    .ok (some link.signedAt)

/-- One turn of the loop of `resolve_authority`. -/
def resolveTurn (signer : KeyId) (w : Walk) :
    Turn Walk (Except AuthorityChainError ResolvedAuthority) :=
  if w.currentId = signer then .leave ((retirement verify root fetch w).map w.resolved)
  else match fetch w.currentId with
    | none => .leave (.error .unreachable)
    | some bytes =>
      match w.advance verify root bytes with
      | .error e => .leave (.error e)
      | .ok link => .again (w.adopt link)

/-- Walk to a signer, on so many fetches: how many were made, and the signer. -/
def resolveAuthority (signer : KeyId) (fetches : Nat) :
    Option (Nat × Except AuthorityChainError ResolvedAuthority) :=
  turns (resolveTurn verify root fetch signer) fetches (Walk.start root)

/-- One turn of the loop of `resolve_active_authority`. -/
def activeTurn (w : Walk) : Turn Walk (Except AuthorityChainError ResolvedAuthority) :=
  match fetch w.currentId with
  | none => .leave (.ok (w.resolved none))
  | some bytes =>
    match w.advance verify root bytes with
    | .error e => .leave (.error e)
    | .ok link => .again (w.adopt link)

/-- Walk to the end of the chain. -/
def resolveActiveAuthority (fetches : Nat) :
    Option (Nat × Except AuthorityChainError ResolvedAuthority) :=
  turns (activeTurn verify root fetch) fetches (Walk.start root)

end AgentArchivist.Auth.Authority
