import AgentArchivist.Auth.ReceiptCertificate
import AgentArchivist.Auth.ReceiptSigning
import AgentArchivist.Auth.ReceiptWindow

/-! # Which signed receipts verify

A certificate carries no signing instant, so its verification asks whether the certifying
half was acceptable when the key's window opened. A half that certified a key ahead of time
may be retired before then. The receipts of a key verify exactly under the chains that do not
retire the half more than a day before the window opens. -/
namespace AgentArchivist.Auth.ReceiptsVerify
open Lib Protocol List
open Authority Authority.AuthorityRotationLink AuthorityChain AuthorityWindows ControlRecord
open ReceiptCertificate ReceiptKeys ReceiptSigning ReceiptWindow Fallible SortedMap Succession Utf16
open Json Vocabulary

/-! ## Chains that grow -/

section
variable (verify : Verifier) (root : PinnedAuthorityRoot)
  (records records' : Finmap fun _ : KeyId => List UInt8)

/-- The records were kept, and where a chain reaches one that was added, it is a verified link
to a key that the chain has not led through. -/
structure Extension : Prop where
  kept : ∀ key bytes, records.lookup key = some bytes → records'.lookup key = some bytes
  verified : ∀ path bytes, Chain verify root records'.lookup path →
    records.lookup (tip root path) = none → records'.lookup (tip root path) = some bytes →
      ∃ link, Admitted verify root records'.lookup (tip root path) link ∧ link.keyId ∉ ids root path

variable {verify root records records'}

theorem Extension.refl : Extension verify root records records where
  kept _ _ h := h
  verified path bytes _ hnone hsome := by
    rw [hnone] at hsome
    cases hsome

theorem Extension.admitted (h : Extension verify root records records') {key link}
    (hlink : Admitted verify root records.lookup key link) :
    Admitted verify root records'.lookup key link := by
  obtain ⟨bytes, hfetch, hparse⟩ := hlink.stored
  exact ⟨⟨bytes, h.kept key bytes hfetch, hparse⟩, hlink.tenant, hlink.retires, hlink.signature⟩

/-- A signer keeps its half and the instant of its establishment. -/
theorem Extension.resolved (h : Extension verify root records records') {signer} {a}
    (hresolve : resolve verify root records signer = .ok a) :
    ∃ a', resolve verify root records' signer = .ok a' ∧ a'.publicKey = a.publicKey ∧
      a'.establishedAt = a.establishedAt := by
  obtain ⟨path, hr⟩ := resolve_ok.mp hresolve
  have hchain : Chain verify root records'.lookup path :=
    Sequence.mono (fun _ _ hlink => h.admitted hlink) hr.chain
  rcases hr.retired with ⟨hnone, hactive⟩ | ⟨link, hlink, hfresh, hat⟩
  · cases hadded : records'.lookup signer with
    | none =>
      exact ⟨a, resolve_ok.mpr ⟨path, hchain, hr.reaches, hr.key, hr.half, hr.established,
        .inl ⟨hadded, hactive⟩⟩, rfl, rfl⟩
    | some bytes =>
      rw [← hr.reaches] at hnone hadded
      obtain ⟨link, hlink, hfresh⟩ := h.verified path bytes hchain hnone hadded
      rw [hr.reaches] at hlink
      exact ⟨{ a with retiredAt := some link.signedAt }, resolve_ok.mpr ⟨path, hchain, hr.reaches,
        hr.key, hr.half, hr.established, .inr ⟨link, hlink, hfresh, rfl⟩⟩, rfl, rfl⟩
  · exact ⟨a, resolve_ok.mpr ⟨path, hchain, hr.reaches, hr.key, hr.half, hr.established,
      .inr ⟨link, h.admitted hlink, hfresh, hat⟩⟩, rfl, rfl⟩

end

/-! ## Certificates -/

section
variable {scheme : SignatureScheme} {key : CertifiedReceiptKey scheme}
  {signingKey : ReceiptSigningKey scheme} {authority : AuthoritySigner scheme}
  {signedAt validFrom : Timestamp}

/-- What a certification leaves. -/
structure Issued (authority : AuthoritySigner scheme) (signedAt : Timestamp)
    (key : CertifiedReceiptKey scheme) : Prop where
  tenant : key.certificate.tenantId = key.tenantId ∧ key.tenantId = authority.tenantId
  keyId : key.certificate.keyId = key.keyId
  publicKey : key.certificate.publicKey = key.signingKey.publicKey
  authorityKeyId : key.certificate.authorityKeyId = authority.keyId
  signature : key.certificate.authoritySignature =
    authority.sign key.certificate.unsignedCanonicalBytes
  window : addDays key.certificate.validFrom RECEIPT_KEY_VALIDITY_DAYS = .ok key.certificate.validUntil
  calendar : calendarValid key.certificate.validFrom = true
  ahead : instant signedAt ≤ instant key.certificate.validFrom

theorem issued_of_certify
    (h : CertifiedReceiptKey.certify signingKey authority signedAt validFrom = .ok key) :
    Issued authority signedAt key ∧ key.certificate.validFrom = validFrom := by
  simp only [CertifiedReceiptKey.certify, refuse_eq_ok, bind_eq_ok, Bool.or_eq_true,
    Bool.not_eq_true', decide_eq_true_eq, not_or, not_not, Bool.not_eq_false, not_lt] at h
  obtain ⟨htenant, validUntil, hwindow, ⟨⟨-, hcalendar⟩, hahead⟩, h⟩ := h
  cases h
  exact ⟨⟨⟨rfl, htenant⟩, rfl, rfl, rfl, rfl, hwindow, hcalendar, hahead⟩, rfl⟩

/-- A member is read where it is found. -/
theorem member_congr {T : Type} [WireText T] {object object' name}
    (h : Object.get name object = Object.get name object') :
    (member object name : Except ReceiptKeyError T) = member object' name := by
  simp [ReceiptKeys.member, textMember, h]

theorem Issued.wellMade (h : Issued authority signedAt key) : WellMade key.certificate where
  derived := by
    rw [h.keyId, h.publicKey]
    rfl
  validFrom := h.calendar
  validUntil := (addDays_ok h.window).2
  window := validateWindow_ok h.window

end

/-! ## Receipts -/

section
variable {scheme : SignatureScheme} {key : CertifiedReceiptKey scheme}
  {object : List (String × Value)} {receipt : Receipt}

/-- What a signed receipt holds. -/
structure Signed (object : List (String × Value)) (key : CertifiedReceiptKey scheme)
    (commitTime : Timestamp) (receipt : Receipt) : Prop where
  unprotected : ∀ name ∈ RECEIPT_PROTECTED_MEMBERS, Object.get name object = none
  tenant : member object "tenant_id" = .ok key.tenantId
  commit : parseTimestamp object "commit_time" = .ok commitTime
  window : instant key.certificate.validFrom ≤ instant commitTime ∧
    instant commitTime ≤ instant key.certificate.validUntil
  members : receipt.object = Object.set "signature" (.text (WireText.text
    (key.signingKey.sign (Json.canonicalBytes (.object (stamped object key)))))) (stamped object key)

theorem signed_of_sign (h : sign object key = .ok receipt) :
    ∃ commitTime, Signed object key commitTime receipt := by
  simp only [sign, refuse_eq_ok, bind_eq_ok, not_or, not_lt, not_not] at h
  obtain ⟨hfree, _, htenant, rfl, commitTime, hcommit, hwindow, h⟩ := h
  refine ⟨commitTime, ?_, htenant, hcommit, hwindow, ?_⟩
  · intro name hname
    simp only [any_eq_true, not_exists, not_and] at hfree
    simpa [Object.contains] using hfree name hname
  · exact congrArg Receipt.object (Except.ok.inj h).symm

/-- The members that only the signer sets, in the order in which they are put. -/
def stamps (key : CertifiedReceiptKey scheme) : List (String × Value) :=
  [("receipt_version", .int RECEIPT_VERSION), ("receipt_key_id", .text (WireText.text key.keyId)),
   ("certificate", objectOf key.certificate.signed),
   ("signature_algorithm", .text (ClosedEnum.token ALGORITHM))]

theorem stamps_names (key : CertifiedReceiptKey scheme) : ((stamps key).map Prod.fst).Nodup ∧
    (stamps key).map Prod.fst ⊆ RECEIPT_PROTECTED_MEMBERS ∧
    "signature" ∉ (stamps key).map Prod.fst := by
  have hnames : (stamps key).map Prod.fst =
    ["receipt_version", "receipt_key_id", "certificate", "signature_algorithm"] := rfl
  rw [hnames]
  decide

namespace Signed
variable {commitTime : Timestamp} (h : Signed object key commitTime receipt)
  (hs : Sorted cmpUtf16 object)
include h hs

/-- What the receipt holds: what the caller put, the stamps and the signature. -/
theorem perm : Sorted cmpUtf16 (stamped object key) ∧
    (stamped object key).Perm (stamps key ++ object) := by
  obtain ⟨hnodup, hnames, -⟩ := stamps_names key
  refine @foldl_upsert _ _ cmpUtf16 _ _ (stamps key) object hs ?_
  refine hnodup.append (keys_nodup hs) fun name hstamp hown => ?_
  obtain ⟨m, hm, rfl⟩ := mem_map.mp hown
  have hfound : Object.get m.1 object = some m.2 := (lookup_eq_some hs).mpr hm
  rw [h.unprotected m.1 (hnames hstamp)] at hfound
  cases hfound

theorem signature_fresh : "signature" ∉ (stamped object key).map Prod.fst := by
  intro hmem
  obtain ⟨m, hm, hname⟩ := mem_map.mp hmem
  rcases mem_append.mp ((h.perm hs).2.mem_iff.mp hm) with hstamp | hown
  · exact (stamps_names key).2.2 (hname ▸ mem_map_of_mem hstamp)
  have hfound : Object.get "signature" object = some m.2 :=
    (lookup_eq_some hs).mpr (hname ▸ hown)
  rw [h.unprotected "signature" (by decide)] at hfound
  cases hfound

theorem get_stamp {name v} (hm : (name, v) ∈ stamps key) :
    Object.get name receipt.object = some v := by
  have hne : name ≠ "signature" := by
    rintro rfl
    exact (stamps_names key).2.2 (mem_map_of_mem hm)
  obtain ⟨hsorted, hperm⟩ := h.perm hs
  rw [h.members]
  refine (lookup_upsert_of_ne hne hsorted).trans ((lookup_eq_some hsorted).mpr ?_)
  exact hperm.mem_iff.mpr (mem_append_left _ hm)

/-- The members of the caller are left as they are. -/
theorem get_own {name} (hname : name ∉ RECEIPT_PROTECTED_MEMBERS) :
    Object.get name receipt.object = Object.get name object := by
  have hne : name ≠ "signature" := by
    rintro rfl
    exact hname (by decide)
  obtain ⟨hsorted, hperm⟩ := h.perm hs
  rw [h.members]
  refine (lookup_upsert_of_ne hne hsorted).trans (Option.ext fun v => ?_)
  rw [Object.get, lookup_eq_some hsorted, lookup_eq_some hs, hperm.mem_iff, mem_append]
  refine ⟨fun hm => hm.resolve_left fun hstamp => hname ?_, .inr⟩
  exact (stamps_names key).2.1 (mem_map_of_mem hstamp)

/-- Nothing but the certificate is left to verify. -/
theorem verify_eq {authority signedAt} (hissued : Issued authority signedAt key)
    (root : PinnedAuthorityRoot) (records : Finmap fun _ : KeyId => List UInt8) :
    receipt.verify scheme.verify root records =
      (key.certificate.verify scheme.verify root records).map fun _ =>
        ⟨key.tenantId, key.keyId, commitTime, key.certificate⟩ := by
  have hput {name : String} {v : Value} (hm : (name, v) ∈ stamps key) :
      Object.get name receipt.object = some v := h.get_stamp hs hm
  have hversion : intMember receipt.object "receipt_version" = some RECEIPT_VERSION :=
    intMember_ok (hput mem_cons_self)
  have halgorithm : textMember receipt.object "signature_algorithm" =
      some (ClosedEnum.token ALGORITHM) := textMember_eq_some.mpr (hput (by simp [stamps]))
  have htenant : member receipt.object "tenant_id" = .ok key.tenantId :=
    (member_congr (h.get_own hs (by decide))).trans h.tenant
  have hcommit : parseTimestamp receipt.object "commit_time" = .ok commitTime := by
    rw [← h.commit, parseTimestamp, parseTimestamp, member_congr (h.get_own hs (by decide))]
  have hkeyId : member receipt.object "receipt_key_id" = .ok key.keyId :=
    member_ok (hput (by simp [stamps]))
  have hcertificate : Object.get "certificate" receipt.object =
      some (objectOf key.certificate.signed) := hput (by simp [stamps])
  have hparse : ReceiptKeyCertificate.parse (objectOf key.certificate.signed) = .ok key.certificate :=
    certificate_parse hissued.wellMade
  have hsame : ¬ (key.certificate.tenantId ≠ key.tenantId ∨ key.certificate.keyId ≠ key.keyId) := by
    simp [hissued.tenant.1, hissued.keyId]
  have hwindow : ¬ (instant commitTime < instant key.certificate.validFrom ∨
      instant key.certificate.validUntil < instant commitTime) := by
    rw [not_or, not_lt, not_lt]
    exact h.window
  have hremoved : Object.remove "signature" receipt.object = stamped object key := by
    rw [h.members]
    exact eraseP_upsert (h.signature_fresh hs)
  have hsignature : member receipt.object "signature" =
      .ok (key.signingKey.sign (Json.canonicalBytes (.object (stamped object key)))) := by
    refine member_ok ?_
    rw [h.members]
    exact lookup_upsert_self (h.perm hs).1
  have hagrees : scheme.verify key.certificate.publicKey
      (Json.canonicalBytes (.object (stamped object key)))
      (key.signingKey.sign (Json.canonicalBytes (.object (stamped object key)))) = true := by
    rw [hissued.publicKey]
    exact scheme.agrees _ _
  rw [Receipt.verify, if_neg (by simp [hversion, halgorithm]), bind_of_ok htenant,
    bind_of_ok hcommit, bind_of_ok hkeyId, hcertificate]
  dsimp only
  rw [bind_of_ok hparse, if_neg hsame, if_neg hwindow]
  cases key.certificate.verify scheme.verify root records with
  | error e => rfl
  | ok resolved =>
    rw [bind_of_ok rfl, bind_of_ok hsignature, hremoved, if_pos hagrees]
    rfl

end Signed

end

/-! ## Schedules -/

section
variable {scheme : SignatureScheme} (root : PinnedAuthorityRoot)
  (records : Finmap fun _ : KeyId => List UInt8)

/-- The key was certified by a half of the chain, at an instant when the half was acceptable. -/
def Certified (key : CertifiedReceiptKey scheme) : Prop :=
  ∃ (authority : AuthoritySigner scheme) (signingKey : ReceiptSigningKey scheme)
    (signedAt validFrom : Timestamp) (half : ResolvedAuthority),
    authority.tenantId = root.tenantId ∧
      verifySigningAuthority scheme.verify root records authority.keyId signedAt = .ok half ∧
      half.publicKey = authority.publicKey ∧
      CertifiedReceiptKey.certify signingKey authority signedAt validFrom = .ok key

/-- Schedules that were begun with a key and rotated to others, all with a property. -/
inductive Built (P : CertifiedReceiptKey scheme → Prop) : ReceiptKeySchedule scheme → Prop
  | new {key : CertifiedReceiptKey scheme} (holds : P key) : Built P (.new key)
  | rotate {schedule schedule' : ReceiptKeySchedule scheme} {key : CertifiedReceiptKey scheme}
      (built : Built P schedule) (holds : P key) (next : schedule.rotate key = .ok schedule') :
      Built P schedule'

variable {root records} {P : CertifiedReceiptKey scheme → Prop}

theorem Built.all {schedule} (h : Built P schedule) : ∀ key ∈ schedule.values, P key := by
  induction h with
  | new holds =>
    intro key hkey
    obtain ⟨entry, hentry, rfl⟩ := mem_map.mp hkey
    obtain rfl := mem_singleton.mp hentry
    exact holds
  | @rotate schedule schedule' next _ holds hrotate ih =>
    intro key hkey
    obtain ⟨entry, hentry, rfl⟩ := mem_map.mp hkey
    rw [(ReceiptKeySchedule.rotate_ok hrotate).2.2] at hentry
    obtain rfl | hold := mem_upsert schedule.sorted hentry
    · exact holds
    · exact ih entry.2 (mem_map_of_mem hold)

/-- What the schedule signs is signed with a key of its own. -/
theorem signed_of_signReceipt {schedule : ReceiptKeySchedule scheme} {object receipt}
    (h : schedule.signReceipt object = .ok receipt) :
    ∃ commitTime key, schedule.signingKeyAt commitTime = some key ∧ key ∈ schedule.values ∧
      Signed object key commitTime receipt := by
  obtain ⟨commitTime, hcommit, hsign⟩ := bind_eq_ok.mp h
  cases hkey : schedule.signingKeyAt commitTime with
  | none =>
    rw [hkey] at hsign
    cases hsign
  | some key =>
    rw [hkey] at hsign
    obtain ⟨commitTime', hsigned⟩ := signed_of_sign hsign
    obtain rfl : commitTime = commitTime' := Except.ok.inj (hcommit.symm.trans hsigned.commit)
    exact ⟨commitTime, key, hkey, mem_of_mem_filter (maxBy_eq_some hkey).1, hsigned⟩

end

/-! ## Receipts that stay verifiable -/

section
variable {scheme : SignatureScheme} (root : PinnedAuthorityRoot)
  (records : Finmap fun _ : KeyId => List UInt8)

/-- The receipt verifies, and yields the tenant and the commit time of the object. -/
def Verifiable (scheme : SignatureScheme) (object : List (String × Value)) (receipt : Receipt) :
    Prop :=
  ∃ verified, receipt.verify scheme.verify root records = .ok verified ∧
    member object "tenant_id" = .ok verified.tenantId ∧
    parseTimestamp object "commit_time" = .ok verified.commitTime

/-- The chain does not retire the certifying half more than a day before the window opens. -/
def OpensInTime (verify : Verifier) (certificate : ReceiptKeyCertificate) : Prop :=
  ∀ half, resolve verify root records certificate.authorityKeyId = .ok half →
    ∀ retired ∈ half.retiredAt, instant certificate.validFrom ≤ overlapEnd retired

variable {root records}

theorem certificate_verify_ok {verify} {certificate : ReceiptKeyCertificate}
    {half : ResolvedAuthority} : certificate.verify verify root records = .ok half ↔
      certificate.tenantId = root.tenantId ∧
      verifySigningAuthority verify root records certificate.authorityKeyId certificate.validFrom =
        .ok half ∧
      verify half.publicKey certificate.unsignedCanonicalBytes certificate.authoritySignature = true := by
  simp only [ReceiptKeyCertificate.verify, refuse_eq_ok, bind_eq_ok, mapError_eq_ok, require_eq_ok,
    not_not]
  refine and_congr_right fun _ => ⟨?_, fun ⟨hhalf, hsignature⟩ => ⟨half, hhalf, hsignature, rfl⟩⟩
  rintro ⟨_, hhalf, hsignature, h⟩
  cases h
  exact ⟨hhalf, hsignature⟩

/-- A certificate of a half of the chain verifies exactly where the window opens in time. -/
theorem certified_verify_iff {key : CertifiedReceiptKey scheme} (h : Certified root records key)
    {records'} (hext : Extension scheme.verify root records records') :
    (∃ half, key.certificate.verify scheme.verify root records' = .ok half) ↔
      OpensInTime root records' scheme.verify key.certificate := by
  obtain ⟨authority, signingKey, signedAt, validFrom, half, htenant, hhalf, hpublic, hcertify⟩ := h
  obtain ⟨hissued, -⟩ := issued_of_certify hcertify
  obtain ⟨hresolve, haccepted⟩ := verifySigningAuthority_ok.mp hhalf
  obtain ⟨half', hresolve', hpublic', hestablished⟩ := hext.resolved hresolve
  constructor
  · intro ⟨found, hverify⟩ half1 hhalf1 retired hretired
    obtain ⟨hresolved, hopen⟩ := verifySigningAuthority_ok.mp (certificate_verify_ok.mp hverify).2.1
    obtain rfl := Except.ok.inj (hresolved.symm.trans hhalf1)
    exact (accepted_iff.mp hopen).2.2 retired hretired
  · intro hopens
    rw [← hissued.authorityKeyId] at hresolve'
    refine ⟨half', certificate_verify_ok.mpr ⟨?_, ?_, ?_⟩⟩
    · rw [hissued.tenant.1, hissued.tenant.2, htenant]
    · refine verifySigningAuthority_ok.mpr ⟨hresolve', accepted_iff.mpr ⟨hissued.calendar, ?_, ?_⟩⟩
      · intro established hmem
        rw [hestablished] at hmem
        exact ((accepted_iff.mp haccepted).2.1 established hmem).trans hissued.ahead
      · exact hopens half' hresolve'
    · rw [hpublic', hpublic, hissued.signature]
      exact scheme.agrees _ _

/-- So does a receipt of its key. -/
theorem verifiable_iff {key : CertifiedReceiptKey scheme} {object commitTime receipt}
    (h : Signed object key commitTime receipt) (hsorted : Sorted cmpUtf16 object)
    (hkey : Certified root records key) {records'}
    (hext : Extension scheme.verify root records records') :
    Verifiable root records' scheme object receipt ↔
      OpensInTime root records' scheme.verify key.certificate := by
  have hiff := certified_verify_iff hkey hext
  obtain ⟨authority, signingKey, signedAt, validFrom, half, -, -, -, hcertify⟩ := hkey
  obtain ⟨hissued, -⟩ := issued_of_certify hcertify
  rw [← hiff, Verifiable, h.verify_eq hsorted hissued root records']
  constructor
  · rintro ⟨verified, hverified, -⟩
    obtain ⟨half', hhalf', -⟩ := map_eq_ok.mp hverified
    exact ⟨half', hhalf'⟩
  · intro ⟨half', hhalf'⟩
    exact ⟨_, map_eq_ok.mpr ⟨half', hhalf', rfl⟩, h.tenant, h.commit⟩

/-- Without a record nothing is retired. -/
theorem not_retired {verify signer} {half} (h : resolve verify root ∅ signer = .ok half) :
    half.retiredAt = none := by
  obtain ⟨path, hr⟩ := resolve_ok.mp h
  rcases hr.retired with ⟨-, hnone⟩ | ⟨link, hlink, -⟩
  · exact hnone
  · obtain ⟨bytes, hfetch, -⟩ := hlink.stored
    cases hfetch

/-- A receipt that a schedule of certified keys signed verifies, under every chain that extends the
one its keys were certified in, exactly where that chain does not retire the certifying half more
than a day before the key's window opens; and no receipt verifies outside such a window. -/
theorem receipts_verify_iff (scheme : SignatureScheme) (root : PinnedAuthorityRoot)
    (records : Finmap fun _ : KeyId => List UInt8) :
    (∀ schedule : ReceiptKeySchedule scheme, Built (Certified root records) schedule →
      ∀ object receipt, Sorted cmpUtf16 object → schedule.signReceipt object = .ok receipt →
      ∃ commitTime key, parseTimestamp object "commit_time" = .ok commitTime ∧
        schedule.signingKeyAt commitTime = some key ∧
        ∀ records', Extension scheme.verify root records records' →
          (Verifiable root records' scheme object receipt ↔
            OpensInTime root records' scheme.verify key.certificate)) ∧
    ∀ records' receipt verified, Receipt.verify scheme.verify root records' receipt = .ok verified →
      instant verified.certificate.validFrom ≤ instant verified.commitTime ∧
        instant verified.commitTime ≤
          later (instant verified.certificate.validFrom) RECEIPT_KEY_VALIDITY_DAYS := by
  constructor
  · intro schedule hbuilt object receipt hsorted hsign
    obtain ⟨commitTime, key, hkey, hmem, hsigned⟩ := signed_of_signReceipt hsign
    exact ⟨commitTime, key, hsigned.commit, hkey,
      fun records' hext => verifiable_iff hsigned hsorted (hbuilt.all key hmem) hext⟩
  · intro records' receipt verified h
    simp only [Receipt.verify, refuse_eq_ok, bind_eq_ok] at h
    obtain ⟨-, _, -, commitTime, -, _, -, h⟩ := h
    split at h
    · cases h
    simp only [refuse_eq_ok, bind_eq_ok, require_eq_ok, not_or, not_lt] at h
    obtain ⟨certificate, hcertificate, -, hwindow, _, -, _, -, -, h⟩ := h
    cases h
    rw [← window_of_validateWindow (wellMade_of_parse hcertificate).window]
    exact hwindow

end

/-! ## A key certified ahead of a rotation

The pinned half certifies a key at the new year for February on, and is retired on the second
of January. -/

namespace Sample
open Auth.AuthorityPublication Auth.AuthorityPublication.Sample Auth.AuthorityWindows.Sample

/-- Signatures that are all accepted. -/
def trusting : SignatureScheme where
  Seed := Ed25519PublicKey
  publicKeyFromSeed key := key
  sign _ _ := unset
  verify _ _ _ := true
  agrees _ _ := rfl

def february : Timestamp := ⟨"2026-02-01T00:00:00Z", by decide +kernel⟩
def march : Timestamp := ⟨"2026-03-10T00:00:00Z", by decide +kernel⟩
def committed : Timestamp := ⟨"2026-02-02T00:00:00Z", by decide +kernel⟩

def pinnedSigner : AuthoritySigner trusting := ⟨tenant, first⟩

def receiptHalf : ReceiptSigningKey trusting := ⟨tenant, third⟩

def aheadKey : CertifiedReceiptKey trusting where
  signingKey := receiptHalf
  certificate := CertifiedReceiptKey.draft receiptHalf pinnedSigner february march
  record := CertifiedReceiptKey.draftRecord receiptHalf pinnedSigner newYear february march

theorem aheadKey_certified : CertifiedReceiptKey.certify receiptHalf pinnedSigner newYear february =
    .ok aheadKey := by
  have hwindow : addDays february RECEIPT_KEY_VALIDITY_DAYS = .ok march := by decide +kernel
  have hopen : ¬ (!calendarValid newYear || !calendarValid february ||
      decide (instant february < instant newYear)) = true := by decide +kernel
  have hsame : ¬ receiptHalf.tenantId ≠ pinnedSigner.tenantId := not_not.mpr rfl
  rfl

theorem aheadKey_built : Built (Certified root ∅) (ReceiptKeySchedule.new aheadKey) := by
  have hpinned : verifySigningAuthority trusting.verify root ∅ pinnedSigner.keyId newYear =
      .ok ((walkOf root []).resolved none) :=
    verifySigningAuthority_ok.mpr ⟨resolve_ok.mpr ⟨[], sequence_nil, rfl, rfl, rfl, rfl,
      .inl ⟨Finmap.lookup_empty _, rfl⟩⟩, accepted_iff.mpr ⟨newYear_calendar, nofun, nofun⟩⟩
  exact .new ⟨pinnedSigner, receiptHalf, newYear, february, _, rfl, hpinned, rfl, aheadKey_certified⟩

/-- What is to be signed. -/
def acknowledgement : List (String × Value) :=
  [("commit_time", .text committed.asStr), ("tenant_id", .text tenant.asStr)]

theorem acknowledgement_sorted : Sorted cmpUtf16 acknowledgement := by
  unfold Sorted
  decide

theorem acknowledgement_commit : parseTimestamp acknowledgement "commit_time" = .ok committed :=
  parseTimestamp_ok rfl (by decide +kernel)

theorem signs_at : (ReceiptKeySchedule.new aheadKey).signingKeyAt committed = some aheadKey := by
  have hwindow : instant aheadKey.certificate.validFrom ≤ instant committed ∧
      instant committed ≤ instant aheadKey.certificate.validUntil := by decide +kernel
  have hfilter : (ReceiptKeySchedule.new aheadKey).values.filter (fun key =>
      instant key.certificate.validFrom ≤ instant committed &&
        instant committed ≤ instant key.certificate.validUntil) = [aheadKey] := by
    refine filter_eq_self.mpr fun key hkey => ?_
    obtain rfl := mem_singleton.mp hkey
    simpa using hwindow
  rfl

theorem acknowledgement_signed : ∃ receipt,
    (ReceiptKeySchedule.new aheadKey).signReceipt acknowledgement = .ok receipt ∧
      Signed acknowledgement aheadKey committed receipt := by
  have hfree : ¬ (RECEIPT_PROTECTED_MEMBERS.any
      fun name => Object.contains name acknowledgement) = true := by decide
  have htenant : member acknowledgement "tenant_id" = .ok tenant := member_ok rfl
  have hsame : ¬ tenant ≠ aheadKey.tenantId := not_not.mpr rfl
  have hwindow : ¬ (instant committed < instant aheadKey.certificate.validFrom ∨
      instant aheadKey.certificate.validUntil < instant committed) := by decide +kernel
  have hsign : ∃ receipt,
      (ReceiptKeySchedule.new aheadKey).signReceipt acknowledgement = .ok receipt := by
    rw [ReceiptKeySchedule.signReceipt, bind_of_ok acknowledgement_commit, signs_at]
    dsimp only
    exact ⟨_, rfl⟩
  obtain ⟨receipt, hreceipt⟩ := hsign
  obtain ⟨commitTime, key, hkey, -, hsigned⟩ := signed_of_signReceipt hreceipt
  obtain rfl : committed = commitTime :=
    Except.ok.inj (acknowledgement_commit.symm.trans hsigned.commit)
  obtain rfl : aheadKey = key := Option.some.inj (signs_at.symm.trans hkey)
  exact ⟨receipt, hreceipt, hsigned⟩

/-- The pinned half is retired, for a key that has no record. -/
theorem retirement_extension : Extension trusting.verify root ∅ (published ∅ retirement) where
  kept key bytes h := by cases h
  verified path bytes hchain _ hsome := by
    have htip : tip root path = retirement.previousKeyId := by
      by_contra hne
      rw [lookup_published_of_ne hne] at hsome
      cases hsome
    have hstart : path = [] := by
      rcases eq_nil_or_concat' path with hnil | ⟨before, last, rfl⟩
      · exact hnil
      -- a chain does not return to the root
      obtain ⟨-, -, hfresh⟩ := sequence_snoc.mp hchain
      have hlast : last.keyId = root.keyId := by
        rw [tip, last_snoc] at htip
        exact htip
      exact absurd (hlast ▸ mem_cons_self) hfresh
    refine ⟨retirement, ⟨⟨_, ?_, parse_document retirement⟩, rfl, htip.symm, rfl⟩, ?_⟩
    · rw [htip]
      exact lookup_published_self
    · rw [hstart]
      exact fun hmem => first_ne_second.symm (mem_singleton.mp hmem)

/-- February begins more than a day after the retirement. -/
theorem opens_late : ¬ OpensInTime root (published ∅ retirement) trusting.verify
    aheadKey.certificate := by
  intro hopens
  have hextends : Extends trusting.verify root ∅ retirement [] :=
    ⟨rfl, rfl, sequence_nil, rfl, Finmap.lookup_empty _⟩
  have hlate := hopens _ (hextends.resolve_previous (Finmap.lookup_empty _)) nextDay rfl
  exact absurd hlate (by decide +kernel)

end Sample

open Sample AuthorityPublication AuthorityPublication.Sample

/-- A receipt of a key that was certified in time, under the chain that retires the half before
the key's window opens. -/
theorem rotation_invalidates_receipt : ∃ receipt,
    Built (Certified root ∅) (ReceiptKeySchedule.new aheadKey) ∧
    (ReceiptKeySchedule.new aheadKey).signReceipt acknowledgement = .ok receipt ∧
    Verifiable root ∅ trusting acknowledgement receipt ∧
    Extension trusting.verify root ∅ (published ∅ retirement) ∧
    ¬ Verifiable root (published ∅ retirement) trusting acknowledgement receipt := by
  obtain ⟨receipt, hsign, hsigned⟩ := acknowledgement_signed
  have hkey : Certified root ∅ aheadKey := aheadKey_built.all aheadKey mem_cons_self
  refine ⟨receipt, aheadKey_built, hsign, ?_, retirement_extension, fun hverifiable => ?_⟩
  · refine (verifiable_iff hsigned acknowledgement_sorted hkey .refl).mpr fun half hhalf => ?_
    rw [not_retired hhalf]
    nofun
  · exact opens_late ((verifiable_iff hsigned acknowledgement_sorted hkey
      retirement_extension).mp hverifiable)

/-- Where no half is retired the receipt verifies. -/
theorem unrotated_receipt_verifies : ∃ receipt,
    (ReceiptKeySchedule.new aheadKey).signReceipt acknowledgement = .ok receipt ∧
    Verifiable root ∅ trusting acknowledgement receipt := by
  obtain ⟨receipt, hsign, -⟩ := acknowledgement_signed
  obtain ⟨commitTime, key, -, -, hiff⟩ := (receipts_verify_iff trusting root ∅).1 _ aheadKey_built
    acknowledgement receipt acknowledgement_sorted hsign
  exact ⟨receipt, hsign, (hiff ∅ .refl).mpr fun half hhalf => by rw [not_retired hhalf]; nofun⟩

end AgentArchivist.Auth.ReceiptsVerify
