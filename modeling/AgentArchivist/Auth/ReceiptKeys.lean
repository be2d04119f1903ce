import Mathlib.Data.Finmap
import AgentArchivist.Auth.Authority

/-! # Offline receipt verification

A receipt carries the certificate of the key that signed it, and the tenant authority
signs the certificate. Both are verified from the pinned root and the retained rotation
links alone; the links are a finite store, so that the walk to the certificate's signer
needs one fetch more than there are links. -/
namespace AgentArchivist.Auth.ReceiptKeys
open Protocol
open Auth.Authority Json Vocabulary

def RECEIPT_KEY_ROTATION_DAYS : Int := 30
def RECEIPT_KEY_SIGNING_OVERLAP_DAYS : Int := 7
def RECEIPT_KEY_VALIDITY_DAYS : Int :=
  RECEIPT_KEY_ROTATION_DAYS + RECEIPT_KEY_SIGNING_OVERLAP_DAYS

def CERTIFICATE_VERSION : Int64 := 1
def RECEIPT_VERSION : Int64 := 1
def ALGORITHM : SignatureAlgorithm := .ed25519

def CERTIFICATE_MEMBERS : List String :=
  ["authority_key_id", "authority_signature", "certificate_version", "key_algorithm", "key_id",
   "public_key", "tenant_id", "valid_from", "valid_until"]

inductive ReceiptKeyError where
  | malformedRecord
  | tenantMismatch
  | keyDerivation
  | invalidWindow
  | protectedField
  | outsideSigningWindow
  | signature
  | conflictingRecord
  | rotationCadence
  | authority (error : AuthorityChainError)
deriving DecidableEq, Repr

/-! ## Members -/

def intMember (object : List (String × Value)) (name : String) : Option Int64 :=
  match Object.get name object with
  | some (.int value) => some value
  | _ => none

/-- `T::parse(text_member(object, name).ok_or(MalformedRecord)?)`. -/
def member {T : Type} [WireText T] (object : List (String × Value)) (name : String) :
    Except ReceiptKeyError T :=
  match textMember object name with
  | none => .error .malformedRecord
  | some text => (WireText.fromStr text).mapError fun _ => .malformedRecord

def parseTimestamp (object : List (String × Value)) (name : String) :
    Except ReceiptKeyError Timestamp := do
  let timestamp ← member object name
  if calendarValid timestamp then .ok timestamp else .error .malformedRecord

/-! ## The signing window -/

/-- The instant of a timestamp, as the authority walk computes it. -/
def instant (timestamp : Timestamp) : Instant := utcInstant timestamp

/-- Year, month and day; the source's divisions truncate. -/
def civilFromDays (days : Int) : Int × Int × Int :=
  let z := days + 719468
  let era := (if z ≥ 0 then z else z - 146096).tdiv 146097
  let dayOfEra := z - era * 146097
  let yearOfEra :=
    (dayOfEra - dayOfEra.tdiv 1460 + dayOfEra.tdiv 36524 - dayOfEra.tdiv 146096).tdiv 365
  let year := yearOfEra + era * 400
  let dayOfYear := dayOfEra - (365 * yearOfEra + yearOfEra.tdiv 4 - yearOfEra.tdiv 100)
  let monthPart := (5 * dayOfYear + 2).tdiv 153
  let day := dayOfYear - (153 * monthPart + 2).tdiv 5 + 1
  let month := monthPart + if monthPart < 10 then 3 else -9
  (year + if month ≤ 2 then 1 else 0, month, day)

/-- A number with leading zeros to a width. -/
def padded (width : Nat) (n : Int) : String :=
  String.ofList ((Nat.toDigits 10 n.toNat).leftpad width '0')

/-- A sum or product that leaves `i64` is refused. -/
def checked (n : Int) : Except ReceiptKeyError Int :=
  if -2 ^ 63 ≤ n ∧ n < 2 ^ 63 then .ok n else .error .invalidWindow

def addDays (timestamp : Timestamp) (days : Int) : Except ReceiptKeyError Timestamp := do
  let at' := ofLex (instant timestamp)
  let added ← checked (days * 86400)
  let seconds ← checked (at'.1 + added)
  let daySeconds := seconds.emod 86400
  let (year, month, date) := civilFromDays (seconds.ediv 86400)
  if year < 0 ∨ 9999 < year then .error .invalidWindow
  else
    let day := padded 4 year ++ "-" ++ padded 2 month ++ "-" ++ padded 2 date ++ "T" ++
      padded 2 (daySeconds / 3600) ++ ":" ++ padded 2 (daySeconds % 3600 / 60) ++ ":" ++
      padded 2 (daySeconds % 60)
    let value := if at'.2 = 0 then day ++ "Z" else day ++ "." ++ padded 9 at'.2 ++ "Z"
    (Text.parse value).mapError fun _ => .invalidWindow

def validateWindow (validFrom validUntil : Timestamp) : Except ReceiptKeyError Unit :=
  if instant validUntil < instant validFrom then .error .invalidWindow
  else do
    let last ← addDays validFrom RECEIPT_KEY_VALIDITY_DAYS
    if instant last ≠ instant validUntil then .error .invalidWindow else .ok ()

/-! ## The certificate -/

structure ReceiptKeyCertificate where
  tenantId : TenantId
  keyId : KeyId
  publicKey : Ed25519PublicKey
  validFrom : Timestamp
  validUntil : Timestamp
  authorityKeyId : KeyId
  authoritySignature : Ed25519Signature
deriving DecidableEq

variable (ed25519 : Verifier) (root : PinnedAuthorityRoot)
  (records : Finmap fun _ : KeyId => List UInt8)

/-- The signer, resolved and accepted at the record's own instant. -/
def verifySigningAuthority (signer : KeyId) (signedAt : Timestamp) :
    Except AuthorityChainError ResolvedAuthority :=
  if !calendarValid signedAt then .error .malformedRecord
  else match resolveAuthority ed25519 root records.lookup signer (records.keys.card + 1) with
    | some (_, .ok resolved) => (resolved.verifySigningAt signedAt).map fun _ => resolved
    | some (_, .error e) => .error e
    -- not reached: the walk is left within so many fetches
    | none => .error .unreachable

namespace ReceiptKeyCertificate

def parse (value : Value) : Except ReceiptKeyError ReceiptKeyCertificate :=
  match value with
  | .object object =>
    if object.length ≠ CERTIFICATE_MEMBERS.length ∨
        CERTIFICATE_MEMBERS.any (fun name => !Object.contains name object) then
      .error .malformedRecord
    else if intMember object "certificate_version" ≠ some CERTIFICATE_VERSION ∨
        textMember object "key_algorithm" ≠ some (ClosedEnum.token ALGORITHM) then
      .error .malformedRecord
    else do
      let tenantId ← member object "tenant_id"
      let publicKey ← member object "public_key"
      let keyId ← member object "key_id"
      if keyId ≠ KeyId.fromPublicKey publicKey then .error .keyDerivation
      else
        let validFrom ← parseTimestamp object "valid_from"
        let validUntil ← parseTimestamp object "valid_until"
        validateWindow validFrom validUntil
        let authorityKeyId ← member object "authority_key_id"
        let authoritySignature ← member object "authority_signature"
        .ok { tenantId, keyId, publicKey, validFrom, validUntil, authorityKeyId, authoritySignature }
  | _ => .error .malformedRecord

/-- The members that the authority's signature covers, in the order in which they are put. -/
def unsigned (certificate : ReceiptKeyCertificate) : List (String × Value) :=
  [("certificate_version", .int CERTIFICATE_VERSION),
   ("tenant_id", .text (WireText.text certificate.tenantId)),
   ("key_id", .text (WireText.text certificate.keyId)),
   ("key_algorithm", .text (WireText.text ALGORITHM)),
   ("public_key", .text (WireText.text certificate.publicKey)),
   ("valid_from", .text (WireText.text certificate.validFrom)),
   ("valid_until", .text (WireText.text certificate.validUntil)),
   ("authority_key_id", .text (WireText.text certificate.authorityKeyId))]

def signed (certificate : ReceiptKeyCertificate) : List (String × Value) :=
  certificate.unsigned ++
    [("authority_signature", .text (WireText.text certificate.authoritySignature))]

def unsignedCanonicalBytes (certificate : ReceiptKeyCertificate) : List UInt8 :=
  Json.canonicalBytes (AuthorityRotationLink.objectOf certificate.unsigned)

def verify (certificate : ReceiptKeyCertificate) : Except ReceiptKeyError ResolvedAuthority :=
  if certificate.tenantId ≠ root.tenantId then .error .tenantMismatch
  else do
    let resolved ← (verifySigningAuthority ed25519 root records certificate.authorityKeyId
      certificate.validFrom).mapError .authority
    if ed25519 resolved.publicKey certificate.unsignedCanonicalBytes certificate.authoritySignature
    then .ok resolved
    else .error .signature

end ReceiptKeyCertificate

/-! ## The receipt -/

/-- The members of a receipt: the parser accepts nothing but an object. -/
structure Receipt where
  object : List (String × Value)

/-- What a client may use of a verified receipt. -/
structure VerifiedReceipt where
  tenantId : TenantId
  receiptKeyId : KeyId
  commitTime : Timestamp
  certificate : ReceiptKeyCertificate
deriving DecidableEq

namespace Receipt

def parse (bytes : List UInt8) : Except ReceiptKeyError Receipt :=
  match Json.parse bytes with
  | .ok (.object object) => .ok ⟨object⟩
  | _ => .error .malformedRecord

def canonicalBytes (receipt : Receipt) : List UInt8 := Json.canonicalBytes (.object receipt.object)

/-- Verify the certificate and the receipt's signature from the pinned root. -/
def verify (receipt : Receipt) : Except ReceiptKeyError VerifiedReceipt :=
  let object := receipt.object
  if intMember object "receipt_version" ≠ some RECEIPT_VERSION ∨
      textMember object "signature_algorithm" ≠ some (ClosedEnum.token ALGORITHM) then
    .error .malformedRecord
  else do
    let tenantId ← member object "tenant_id"
    let commitTime ← parseTimestamp object "commit_time"
    let receiptKeyId ← member object "receipt_key_id"
    match Object.get "certificate" object with
    | none => .error .malformedRecord
    | some value =>
      let certificate ← ReceiptKeyCertificate.parse value
      if certificate.tenantId ≠ tenantId ∨ certificate.keyId ≠ receiptKeyId then
        .error .tenantMismatch
      else if instant commitTime < instant certificate.validFrom ∨
          instant certificate.validUntil < instant commitTime then .error .outsideSigningWindow
      else
        let _ ← certificate.verify ed25519 root records
        let signature ← member object "signature"
        if ed25519 certificate.publicKey
            (Json.canonicalBytes (.object (Object.remove "signature" object))) signature
        then .ok { tenantId, receiptKeyId, commitTime, certificate }
        else .error .signature

end Receipt

end AgentArchivist.Auth.ReceiptKeys
