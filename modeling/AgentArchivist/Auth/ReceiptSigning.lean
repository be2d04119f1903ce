import AgentArchivist.Auth.ControlRecord

/-! # Certified receipt keys and the receipts they sign

An authority half certifies a receipt key: it signs the certificate that every receipt of the
key carries, and the public record that is kept. A schedule holds the keys of a tenant, one
every thirty days, and a receipt is signed with the newest one whose window holds its commit
time. -/
namespace AgentArchivist.Auth.ReceiptSigning
open Protocol
open Authority Authority.AuthorityRotationLink ControlRecord ReceiptKeys Lib.SortedMap Json
open Vocabulary Lib.Fallible

def CONTROL_RECORD_TYPE : String := "receipt-key"
def CONTROL_RECORD_KIND : String := "immutable"

def RECEIPT_PROTECTED_MEMBERS : List String :=
  ["certificate", "receipt_key_id", "receipt_version", "signature", "signature_algorithm"]

variable (scheme : SignatureScheme)

/-! ## Private halves -/

structure ReceiptSigningKey where
  tenantId : TenantId
  signingKey : scheme.Seed

structure AuthoritySigner where
  tenantId : TenantId
  signingKey : scheme.Seed

variable {scheme}

namespace ReceiptSigningKey
variable (key : ReceiptSigningKey scheme)

def publicKey : Ed25519PublicKey := scheme.publicKeyFromSeed key.signingKey

def keyId : KeyId := KeyId.fromPublicKey key.publicKey

def sign (message : List UInt8) : Ed25519Signature := scheme.sign key.signingKey message

end ReceiptSigningKey

namespace AuthoritySigner
variable (authority : AuthoritySigner scheme)

def publicKey : Ed25519PublicKey := scheme.publicKeyFromSeed authority.signingKey

def keyId : KeyId := KeyId.fromPublicKey authority.publicKey

def sign (message : List UInt8) : Ed25519Signature := scheme.sign authority.signingKey message

end AuthoritySigner

/-! ## Certification -/

structure ReceiptKeyRecord where
  tenantId : TenantId
  keyId : KeyId
  publicKey : Ed25519PublicKey
  validFrom : Timestamp
  validUntil : Timestamp
  signedAt : Timestamp
  authorityKeyId : KeyId
  authoritySignature : Ed25519Signature

/-- The members that the authority's signature covers, in the order in which they are put. -/
def ReceiptKeyRecord.unsigned (record : ReceiptKeyRecord) : List (String × Value) :=
  [("schema", .text CONTROL_NAMESPACE), ("record_type", .text CONTROL_RECORD_TYPE),
   ("record_kind", .text CONTROL_RECORD_KIND), ("tenant_id", .text (WireText.text record.tenantId)),
   ("key_id", .text (WireText.text record.keyId)), ("key_algorithm", .text (WireText.text ALGORITHM)),
   ("public_key", .text (WireText.text record.publicKey)),
   ("valid_from", .text (WireText.text record.validFrom)),
   ("valid_until", .text (WireText.text record.validUntil)),
   ("signed_at", .text (WireText.text record.signedAt)),
   ("authority_key_id", .text (WireText.text record.authorityKeyId))]

def ReceiptKeyRecord.unsignedCanonicalBytes (record : ReceiptKeyRecord) : List UInt8 :=
  Json.canonicalBytes (objectOf record.unsigned)

variable (scheme) in
structure CertifiedReceiptKey where
  signingKey : ReceiptSigningKey scheme
  certificate : ReceiptKeyCertificate
  record : ReceiptKeyRecord

/-- `Ed25519Signature::from_raw([0; 64])`, in the place of a signature to come. -/
def unset : Ed25519Signature := .fill 0

namespace CertifiedReceiptKey

/-- The certificate without its signature. -/
def draft (signingKey : ReceiptSigningKey scheme) (authority : AuthoritySigner scheme)
    (validFrom validUntil : Timestamp) : ReceiptKeyCertificate where
  tenantId := signingKey.tenantId
  keyId := signingKey.keyId
  publicKey := signingKey.publicKey
  validFrom := validFrom
  validUntil := validUntil
  authorityKeyId := authority.keyId
  authoritySignature := unset

def draftRecord (signingKey : ReceiptSigningKey scheme) (authority : AuthoritySigner scheme)
    (signedAt validFrom validUntil : Timestamp) : ReceiptKeyRecord where
  tenantId := signingKey.tenantId
  keyId := signingKey.keyId
  publicKey := signingKey.publicKey
  validFrom := validFrom
  validUntil := validUntil
  signedAt := signedAt
  authorityKeyId := authority.keyId
  authoritySignature := unset

def certify (signingKey : ReceiptSigningKey scheme) (authority : AuthoritySigner scheme)
    (signedAt validFrom : Timestamp) : Except ReceiptKeyError (CertifiedReceiptKey scheme) :=
  if signingKey.tenantId ≠ authority.tenantId then .error .tenantMismatch
  else do
    let validUntil ← addDays validFrom RECEIPT_KEY_VALIDITY_DAYS
    if !calendarValid signedAt || !calendarValid validFrom || instant validFrom < instant signedAt then
      .error .invalidWindow
    else
      let certificate := draft signingKey authority validFrom validUntil
      let record := draftRecord signingKey authority signedAt validFrom validUntil
      .ok { signingKey
            certificate := { certificate with
              authoritySignature := authority.sign certificate.unsignedCanonicalBytes }
            record := { record with
              authoritySignature := authority.sign record.unsignedCanonicalBytes } }

def tenantId (key : CertifiedReceiptKey scheme) : TenantId := key.signingKey.tenantId

def keyId (key : CertifiedReceiptKey scheme) : KeyId := key.signingKey.keyId

end CertifiedReceiptKey

/-! ## Signing a receipt -/

/-- The object with the members that only the signer sets, its signature apart. -/
def stamped (object : List (String × Value)) (key : CertifiedReceiptKey scheme) :
    List (String × Value) :=
  Object.set "signature_algorithm" (.text (ClosedEnum.token ALGORITHM))
    (Object.set "certificate" (objectOf key.certificate.signed)
      (Object.set "receipt_key_id" (.text (WireText.text key.keyId))
        (Object.set "receipt_version" (.int RECEIPT_VERSION) object)))

def sign (object : List (String × Value)) (key : CertifiedReceiptKey scheme) :
    Except ReceiptKeyError Receipt :=
  if RECEIPT_PROTECTED_MEMBERS.any fun name => Object.contains name object then
    .error .protectedField
  else do
    let tenantId : TenantId ← member object "tenant_id"
    if tenantId ≠ key.tenantId then .error .tenantMismatch
    else
      let commitTime ← parseTimestamp object "commit_time"
      if instant commitTime < instant key.certificate.validFrom ∨
          instant key.certificate.validUntil < instant commitTime then
        .error .outsideSigningWindow
      else
        let signature := key.signingKey.sign (Json.canonicalBytes (.object (stamped object key)))
        .ok ⟨Object.set "signature" (.text (WireText.text signature)) (stamped object key)⟩

/-! ## The schedule -/

/-- Key ids by their bytes. -/
def cmpKeyId : KeyId → KeyId → Ordering := compareOn Digest.raw

instance : Std.TransCmp cmpKeyId := inferInstanceAs (Std.TransCmp (compareOn Digest.raw))

instance : Std.LawfulEqCmp cmpKeyId where
  compare_self {a} := by
    show compare a.raw a.raw = .eq
    exact Std.ReflCmp.compare_self
  eq_of_compare {a b} h := by
    have hraw : a.raw = b.raw := Std.LawfulEqCmp.eq_of_compare h
    exact Digest.ext hraw

/-- `Iterator::max_by`: the last of the greatest. -/
def maxBy {α β : Type} [LinearOrder β] (measure : α → β) (items : List α) : Option α :=
  items.foldl (fun best item =>
    match best with
    | none => some item
    | some b => if measure item < measure b then some b else some item) none

/-- Of some items one is found, and none is greater. -/
theorem maxBy_cases {α β : Type} [LinearOrder β] {measure : α → β} (items : List α) :
    (items = [] ∧ maxBy measure items = none) ∨ ∃ item, maxBy measure items = some item ∧
      item ∈ items ∧ ∀ a ∈ items, measure a ≤ measure item := by
  induction items using List.reverseRecOn with
  | nil => exact .inl ⟨rfl, rfl⟩
  | append_singleton items next ih =>
    right
    rw [maxBy, List.foldl_append]
    rcases ih with ⟨rfl, hnone⟩ | ⟨best, hbest, hmem, hle⟩
    · exact ⟨next, rfl, by simp, by simp⟩
    · rw [maxBy] at hbest
      simp only [hbest, List.foldl_cons, List.foldl_nil, List.mem_append, List.mem_singleton]
      split
      · rename_i hlt
        exact ⟨best, rfl, .inl hmem, fun a ha => ha.elim (hle a) fun h => h ▸ hlt.le⟩
      · rename_i hge
        exact ⟨next, rfl, .inr rfl, fun a ha => ha.elim
          (fun h => (hle a h).trans (not_lt.mp hge)) fun h => h ▸ le_refl _⟩

theorem maxBy_eq_some {α β : Type} [LinearOrder β] {measure : α → β} {items item}
    (h : maxBy measure items = some item) :
    item ∈ items ∧ ∀ a ∈ items, measure a ≤ measure item := by
  obtain ⟨-, hnone⟩ | ⟨_, hmax, hspec⟩ := @maxBy_cases _ _ _ measure items
  · cases h.symm.trans hnone
  · cases h.symm.trans hmax
    exact hspec

variable (scheme) in
structure ReceiptKeySchedule where
  tenantId : TenantId
  keys : List (KeyId × CertifiedReceiptKey scheme)
  sorted : Sorted cmpKeyId keys

namespace ReceiptKeySchedule

def new (initial : CertifiedReceiptKey scheme) : ReceiptKeySchedule scheme where
  tenantId := initial.tenantId
  keys := upsert cmpKeyId initial.keyId initial []
  sorted := upsert_sorted List.Pairwise.nil

variable (schedule : ReceiptKeySchedule scheme)

/-- The keys in the order of their ids. -/
def values : List (CertifiedReceiptKey scheme) := schedule.keys.map Prod.snd

def rotate (next : CertifiedReceiptKey scheme) :
    Except ReceiptKeyError (ReceiptKeySchedule scheme) :=
  if next.tenantId ≠ schedule.tenantId then .error .tenantMismatch
  else if (lookup cmpKeyId next.keyId schedule.keys).isSome then .error .conflictingRecord
  else
    match maxBy (fun key => instant key.certificate.validFrom) schedule.values with
    | none => .error .rotationCadence
    | some latest => do
      let expected ← addDays latest.certificate.validFrom RECEIPT_KEY_ROTATION_DAYS
      if instant next.certificate.validFrom ≠ instant expected then .error .rotationCadence
      else .ok { schedule with
        keys := upsert cmpKeyId next.keyId next schedule.keys
        sorted := upsert_sorted schedule.sorted }

/-- A rotation adds the next key, thirty days after the latest. -/
theorem rotate_ok {schedule schedule' : ReceiptKeySchedule scheme} {next}
    (h : schedule.rotate next = .ok schedule') :
    (lookup cmpKeyId next.keyId schedule.keys).isSome = false ∧
    (∃ latest expected, maxBy (fun key => instant key.certificate.validFrom) schedule.values =
        some latest ∧ addDays latest.certificate.validFrom RECEIPT_KEY_ROTATION_DAYS = .ok expected ∧
      instant next.certificate.validFrom = instant expected) ∧
    schedule'.keys = upsert cmpKeyId next.keyId next schedule.keys := by
  simp only [rotate, refuse_eq_ok] at h
  obtain ⟨-, hfresh, h⟩ := h
  split at h
  · cases h
  rename_i latest hlatest
  simp only [bind_eq_ok, refuse_eq_ok, not_not] at h
  obtain ⟨expected, hexpected, hstart, heq⟩ := h
  cases heq
  exact ⟨eq_false_of_ne_true hfresh, ⟨latest, expected, hlatest, hexpected, hstart⟩, rfl⟩

/-- The newest key whose window holds the instant. -/
def signingKeyAt (at' : Timestamp) : Option (CertifiedReceiptKey scheme) :=
  maxBy (fun key => instant key.certificate.validFrom) (schedule.values.filter fun key =>
    instant key.certificate.validFrom ≤ instant at' && instant at' ≤ instant key.certificate.validUntil)

def signReceipt (object : List (String × Value)) : Except ReceiptKeyError Receipt := do
  let commitTime ← parseTimestamp object "commit_time"
  match schedule.signingKeyAt commitTime with
  | none => .error .outsideSigningWindow
  | some key => sign object key

end ReceiptKeySchedule

end AgentArchivist.Auth.ReceiptSigning
