import AgentArchivist.Auth.ReceiptCertificate
import AgentArchivist.Client.Acknowledgement

/-! # The document of a receipt

A receipt that says some fields, under a certificate that verifies and a signature that is
accepted, passes everything that a client checks before its transaction, and the client
reads back the fields that it says. -/
namespace AgentArchivist.Client.ReceiptDocument
open Lib Protocol Auth List
open Authority AuthorityChain ReceiptCertificate ReceiptKeys Client.Acknowledgement Fallible
open Utf8 Derivation Document Json ObjectKey Vocabulary

section

/-! ## The receipt -/

/-- What a receipt says beside the fields that the client keeps. -/
structure Facts where
  blobOutcome : StorageOutcome
  occurrenceOutcome : StorageOutcome
  attestationOutcome : StorageOutcome
  authorizationEpoch : Int64
  authorizationKeyId : KeyId
  counted : 1 ≤ authorizationEpoch

variable {fields : ReceiptFields} {facts : Facts} {certificate : ReceiptKeyCertificate}

def listed (fields : ReceiptFields) (facts : Facts) (certificate : ReceiptKeyCertificate) :
    List (String × Value) :=
  [("receipt_version", .int RECEIPT_VERSION),
   ("signature_algorithm", .text (WireText.text ALGORITHM)),
   ("certificate", .object (assembled certificate.signed)),
   ("blob_outcome", .text (WireText.text facts.blobOutcome)),
   ("occurrence_outcome", .text (WireText.text facts.occurrenceOutcome)),
   ("attestation_outcome", .text (WireText.text facts.attestationOutcome)),
   ("authorization_epoch", .int facts.authorizationEpoch),
   ("authorization_key_id", .text (WireText.text facts.authorizationKeyId)),
   ("tenant_id", .text (WireText.text fields.tenantId)),
   ("request_id", .text (WireText.text fields.requestId)),
   ("occurrence_id", .text (WireText.text fields.occurrenceId)),
   ("attestation_id", .text (WireText.text fields.attestationId)),
   ("blob_digest", .text (WireText.text fields.blobDigest)),
   ("blob_object_key", .text fields.blobObjectKey),
   ("occurrence_object_key", .text fields.occurrenceObjectKey),
   ("attestation_object_key", .text fields.attestationObjectKey),
   ("commit_time", .text (WireText.text fields.commitTime)),
   ("receipt_key_id", .text (WireText.text fields.receiptKeyId)),
   ("signature", .text (WireText.text fields.signature))]

def members (fields : ReceiptFields) (facts : Facts) (certificate : ReceiptKeyCertificate) :
    List (String × Value) := assembled (listed fields facts certificate)

def document (fields : ReceiptFields) (facts : Facts) (certificate : ReceiptKeyCertificate) :
    List UInt8 := Json.canonicalBytes (.object (members fields facts certificate))

theorem listed_names_nodup : ((listed fields facts certificate).map Prod.fst).Nodup := by
  simp only [listed, map_cons, map_nil]
  decide

theorem parseMember_ok {T : Type} [WireText T] {object : List (String × Value)} {name : String}
    {t : T} (h : Object.get name object = some (.text (WireText.text t))) :
    parseMember object name = .ok t := by
  rw [parseMember, requiredText, textMember_eq_some.mpr h]
  exact mapError_eq_ok.mpr (WireText.fromStr_text t)

theorem requiredText_ok {object name text} (h : Object.get name object = some (.text text)) :
    requiredText object name = .ok text := by
  rw [requiredText, textMember_eq_some.mpr h]

theorem parseInstant_ok {object : List (String × Value)} {name : String} {t : Timestamp}
    (h : Object.get name object = some (.text (WireText.text t))) (hvalid : calendarValid t = true) :
    parseInstant object name = .ok t := by
  rw [parseInstant, parseMember_ok h]
  simp only [bind, Except.bind, hvalid, if_true]

/-- Every member is found under its name. -/
theorem get_members (fields : ReceiptFields) (facts : Facts) (certificate : ReceiptKeyCertificate) :
    ∀ m ∈ listed fields facts certificate,
      Object.get m.1 (members fields facts certificate) = some m.2 :=
  fun _ hm => get_assembled listed_names_nodup hm

theorem fields_ok (hcommit : calendarValid fields.commitTime = true) :
    ReceiptFields.fromObject (members fields facts certificate) = .ok fields := by
  have hget := get_members fields facts certificate
  simp only [listed, forall_mem_cons] at hget
  obtain ⟨hversion, halgorithm, hcertificate, hblobOutcome, hoccurrenceOutcome, hattestationOutcome,
    hepoch, hauthorization, htenant, hrequest, hoccurrence, hattestation, hblob, hblobKey,
    hoccurrenceKey, hattestationKey, htime, hkeyId, hsignature, -⟩ := hget
  have hcheck : checkEpoch (members fields facts certificate) = .ok () := by
    rw [checkEpoch, hepoch]
    exact if_pos facts.counted
  unfold ReceiptFields.fromObject
  rw [if_neg (by
    rw [intMember_ok hversion, hcertificate]
    simp [RECEIPT_VERSION])]
  simp only [parseMember_ok halgorithm, parseMember_ok hblobOutcome, parseMember_ok hoccurrenceOutcome,
    parseMember_ok hattestationOutcome, hcheck, parseMember_ok hauthorization, parseMember_ok htenant,
    parseMember_ok hrequest, parseMember_ok hoccurrence, parseMember_ok hattestation,
    parseMember_ok hblob, requiredText_ok hblobKey, requiredText_ok hoccurrenceKey,
    requiredText_ok hattestationKey, parseInstant_ok htime hcommit, parseMember_ok hkeyId,
    parseMember_ok hsignature, bind, Except.bind]

/-- The receipt is signed under a certificate that a client verifies, within its window. -/
structure Authentic (ed25519 : Verifier) (root : PinnedAuthorityRoot)
    (records : Finmap fun _ : KeyId => List UInt8) (fields : ReceiptFields) (facts : Facts)
    (certificate : ReceiptKeyCertificate) : Prop where
  made : WellMade certificate
  certified : ∃ authority, certificate.verify ed25519 root records = .ok authority
  tenant : certificate.tenantId = fields.tenantId
  key : certificate.keyId = fields.receiptKeyId
  calendar : calendarValid fields.commitTime = true
  after_from : ¬ instant fields.commitTime < instant certificate.validFrom
  before_until : ¬ instant certificate.validUntil < instant fields.commitTime
  signed : ed25519 certificate.publicKey (Json.canonicalBytes
    (.object (Object.remove "signature" (members fields facts certificate)))) fields.signature = true

variable {ed25519 : Verifier} {root : PinnedAuthorityRoot}
  {records : Finmap fun _ : KeyId => List UInt8}

theorem verify_ok (h : Authentic ed25519 root records fields facts certificate) :
    Receipt.verify ed25519 root records ⟨members fields facts certificate⟩ =
      .ok ⟨fields.tenantId, fields.receiptKeyId, fields.commitTime, certificate⟩ := by
  have hget := get_members fields facts certificate
  simp only [listed, forall_mem_cons] at hget
  obtain ⟨hversion, halgorithm, hcertificate, -, -, -, -, -, htenant, -, -, -, -, -, -, -, htime,
    hkeyId, hsignature, -⟩ := hget
  obtain ⟨authority, hverify⟩ := h.certified
  unfold Receipt.verify
  rw [if_neg (by
    rw [intMember_ok hversion, textMember_eq_some.mpr halgorithm]
    simp [WireText.text])]
  simp only [member_ok htenant, parseTimestamp_ok htime h.calendar, member_ok hkeyId, hcertificate,
    certificate_parse h.made, bind, Except.bind]
  rw [if_neg (by simp [h.tenant, h.key]), if_neg (by simp [h.after_from, h.before_until])]
  simp [hverify, member_ok hsignature, h.signed]

/-! ## How long it is -/

theorem short_outcome (o : StorageOutcome) : (utf8 (WireText.text o)).length ≤ 1024 := by
  cases o <;> decide

theorem certificate_moderate (certificate : ReceiptKeyCertificate) :
    Moderate (.object (assembled certificate.signed)) := by
  have hshort : ∀ name ∈ certificate.signed.map Prod.fst, (utf8 name).length ≤ 40 := by
    rw [certificate_names]
    decide
  refine moderate_assembled certificate_names_nodup
    (fun m hm => hshort m.1 (mem_map_of_mem hm)) ?_ (by decide : 9 ≤ 14)
  have hversion : Brief (.int CERTIFICATE_VERSION) := .inr ⟨_, rfl⟩
  simp +decide [ReceiptKeyCertificate.signed, ReceiptKeyCertificate.unsigned, hversion, -utf8_length]

/-- The object keys are texts of a moderate length, as every derived key is. -/
structure ShortKeys (fields : ReceiptFields) : Prop where
  blob : (utf8 fields.blobObjectKey).length ≤ 1024
  occurrence : (utf8 fields.occurrenceObjectKey).length ≤ 1024
  attestation : (utf8 fields.attestationObjectKey).length ≤ 1024

theorem shard_length (d : Digest) : (utf8 (shard d)).length ≤ 8 := by
  have hchar : ∀ n ∈ (d.toHex.toList.take 2).map fun c => (String.utf8EncodeChar c).length, n ≤ 4 := by
    intro n hn
    obtain ⟨c, _, rfl⟩ := mem_map.mp hn
    rw [String.length_utf8EncodeChar]
    exact c.utf8Size_le_four
  have hsum := sum_le_card_nsmul _ _ hchar
  have htake := length_take_le 2 d.toHex.toList
  rw [length_map, Nat.nsmul_eq_mul] at hsum
  rw [shard, utf8_ofList, length_flatMap]
  omega

theorem blobKey_length (tenant : TenantId) (profile : StorageProfile) (blob : BlobDigest) :
    (utf8 (BlobObjectKey.new tenant profile blob).text).length ≤ 1024 := by
  have htenant : (utf8 tenant.asStr).length ≤ 36 := Bounded.fits tenant.valid
  have hprofile : (utf8 (ClosedEnum.token profile)).length ≤ 64 := by
    cases profile
    decide
  have hhex := utf8_toHex_length blob
  have hshard := shard_length blob
  have hrest : (utf8 "tenants/").length + (utf8 "/v1/raw/blobs/").length +
    (utf8 "/sha256/").length + (utf8 "/").length + (utf8 ".zst").length ≤ 100 := by decide
  unfold BlobObjectKey.new
  generalize shard blob = shard, blob.toHex = hex, tenant.asStr = tenant,
    ClosedEnum.token profile = token at hshard hhex htenant hprofile ⊢
  simp only [utf8_append, length_append]
  omega

theorem occurrenceKey_length (tenant : TenantId) (origin : ClientId) (harness : HarnessId)
    (session : SessionHash) (occurrence : OccurrenceId) :
    (utf8 (OccurrenceObjectKey.new tenant origin harness session occurrence).text).length ≤ 1024 := by
  have htenant : (utf8 tenant.asStr).length ≤ 36 := Bounded.fits tenant.valid
  have horigin : (utf8 origin.asStr).length ≤ 36 := Bounded.fits origin.valid
  have hharness : (utf8 harness.asStr).length ≤ 64 := Bounded.fits harness.valid
  have hhex := utf8_toHex_length session
  have hhex' := utf8_toHex_length occurrence
  have hshard := shard_length session
  have hrest : (utf8 "tenants/").length + (utf8 "/v1/raw/occurrences/").length +
    (utf8 "/").length + (utf8 ".json").length ≤ 100 := by decide
  unfold OccurrenceObjectKey.new
  generalize shard session = shard, session.toHex = hex, occurrence.toHex = hex',
    tenant.asStr = tenant, origin.asStr = origin, harness.asStr = harness
    at hshard hhex hhex' htenant horigin hharness ⊢
  simp only [utf8_append, length_append]
  omega

theorem attestationKey_length (tenant : TenantId) (occurrence : OccurrenceId)
    (attestation : AttestationId) :
    (utf8 (AttestationObjectKey.new tenant occurrence attestation).text).length ≤ 1024 := by
  have htenant : (utf8 tenant.asStr).length ≤ 36 := Bounded.fits tenant.valid
  have hhex := utf8_toHex_length occurrence
  have hhex' := utf8_toHex_length attestation
  have hshard := shard_length occurrence
  have hrest : (utf8 "tenants/").length + (utf8 "/v1/raw/attestations/").length +
    (utf8 "/").length + (utf8 ".json").length ≤ 100 := by decide
  unfold AttestationObjectKey.new
  generalize shard occurrence = shard, occurrence.toHex = hex, attestation.toHex = hex',
    tenant.asStr = tenant at hshard hhex hhex' htenant ⊢
  simp only [utf8_append, length_append]
  omega

theorem listed_moderate (hkeys : ShortKeys fields) :
    ∀ m ∈ listed fields facts certificate, Moderate m.2 := by
  simp +decide [listed, certificate_moderate, short_outcome, hkeys.blob, hkeys.occurrence,
    hkeys.attestation, -utf8_length]

theorem parse_document (facts : Facts) (certificate : ReceiptKeyCertificate)
    (hkeys : ShortKeys fields) : Json.parse (document fields facts certificate) =
      .ok (.object (members fields facts certificate)) := by
  have hshort : ∀ name ∈ (listed fields facts certificate).map Prod.fst, (utf8 name).length ≤ 40 := by
    simp only [listed, map_cons, map_nil]
    decide
  exact parse_moderate listed_names_nodup (fun m hm => hshort m.1 (mem_map_of_mem hm))
    (listed_moderate hkeys) (by decide : 19 ≤ 80)

/-- What the client makes of an authentic receipt. -/
theorem verifyReceipt_document {cursor}
    (h : Authentic ed25519 root records fields facts certificate) (hkeys : ShortKeys fields)
    (hcursor : cursor.length ≤ 1024) :
    verifyReceipt ed25519 root records ⟨document fields facts certificate, cursor⟩ =
      .ok ⟨fields, document fields facts certificate⟩ := by
  have hparse := parse_document facts certificate hkeys
  have hreceipt : Receipt.parse (document fields facts certificate) =
      .ok ⟨members fields facts certificate⟩ := by
    rw [Receipt.parse, hparse]
  have hcanonical : Receipt.canonicalBytes ⟨members fields facts certificate⟩ =
      document fields facts certificate := by rw [Receipt.canonicalBytes, document]
  have hfields : ReceiptFields.parse (document fields facts certificate) = .ok fields := by
    rw [ReceiptFields.parse, hparse]
    exact fields_ok h.calendar
  unfold verifyReceipt
  rw [if_neg (Nat.not_lt.mpr hcursor)]
  refine bind_eq_ok.mpr ⟨_, mapError_eq_ok.mpr hreceipt,
    bind_eq_ok.mpr ⟨_, mapError_eq_ok.mpr (verify_ok h), ?_⟩⟩
  rw [hcanonical]
  refine bind_eq_ok.mpr ⟨_, hfields, ?_⟩
  rw [if_neg (by simp)]

end

/-! ## A certified key

A tenant whose root certified one receipt key, and what a receipt under that key says of a
request. -/

namespace Sample

def tenant : TenantId := Vocabulary.Specimen.tenant
def origin : ClientId := ⟨"11111111-1111-4111-8111-111111111111", by decide +kernel⟩
def uploader : ClientId := ⟨"22222222-2222-4222-8222-222222222222", by decide +kernel⟩
def harness : HarnessId := Vocabulary.Specimen.harness
def session : SessionHash := .fill 0xaa
def blob : BlobDigest := .fill 0xff
def root : PinnedAuthorityRoot := ⟨tenant, .fill 0x11⟩

def certificate : ReceiptKeyCertificate where
  tenantId := tenant
  keyId := KeyId.fromPublicKey (.fill 0x22)
  publicKey := .fill 0x22
  validFrom := ⟨"2026-09-01T00:00:00Z", by decide +kernel⟩
  validUntil := ⟨"2026-10-08T00:00:00Z", by decide +kernel⟩
  authorityKeyId := root.keyId
  authoritySignature := .fill 0x33

def commitTime : Timestamp := ⟨"2026-09-03T00:00:00Z", by decide +kernel⟩

def fields (request : RequestId) (occurrence : OccurrenceId) : ReceiptFields where
  tenantId := tenant
  requestId := request
  occurrenceId := occurrence
  attestationId := attestationId occurrence uploader request
  blobDigest := blob
  blobObjectKey := (BlobObjectKey.new tenant .zstdV1 blob).text
  occurrenceObjectKey := (OccurrenceObjectKey.new tenant origin harness session occurrence).text
  attestationObjectKey :=
    (AttestationObjectKey.new tenant occurrence (attestationId occurrence uploader request)).text
  commitTime
  receiptKeyId := certificate.keyId
  signature := .fill 0x44

def facts : Facts := ⟨.created, .created, .created, 1, blob, by decide⟩

/-- Every signature is accepted. -/
def accept : Verifier := fun _ _ _ => true

theorem authentic (request : RequestId) (occurrence : OccurrenceId) :
    Authentic accept root ∅ (fields request occurrence) facts certificate where
  made := ⟨rfl, by decide +kernel, by decide +kernel, by decide +kernel⟩
  certified := by
    have h : (certificate.verify accept root ∅).toOption.isSome = true := by decide +kernel
    cases hverify : certificate.verify accept root ∅ with
    | error _ =>
      rw [hverify] at h
      cases h
    | ok authority => exact ⟨authority, rfl⟩
  tenant := rfl
  key := rfl
  calendar := (by decide +kernel : calendarValid commitTime = true)
  after_from := (by decide +kernel : ¬ instant commitTime < instant certificate.validFrom)
  before_until := (by decide +kernel : ¬ instant certificate.validUntil < instant commitTime)
  signed := rfl

end Sample

end AgentArchivist.Client.ReceiptDocument
