import AgentArchivist.Auth.AuthorityChain
import AgentArchivist.Auth.ReceiptKeys
import AgentArchivist.Protocol.Document

/-! # The certificate of a receipt key

A certificate whose key id is derived and whose window has the certified length is read back
from the object that a receipt carries, and what is read is such a certificate. -/
namespace AgentArchivist.Auth.ReceiptCertificate
open Protocol
open AuthorityChain ReceiptKeys Lib.Fallible Document Json Vocabulary

def CERTIFICATE_NAMES : List String :=
  ["certificate_version", "tenant_id", "key_id", "key_algorithm", "public_key", "valid_from",
   "valid_until", "authority_key_id", "authority_signature"]

variable {certificate : ReceiptKeyCertificate}

theorem certificate_names (certificate : ReceiptKeyCertificate) :
    certificate.signed.map Prod.fst = CERTIFICATE_NAMES := rfl

theorem certificate_names_nodup : (certificate.signed.map Prod.fst).Nodup := by
  rw [certificate_names]
  decide

/-- What the parser of a certificate checks. -/
structure WellMade (certificate : ReceiptKeyCertificate) : Prop where
  derived : certificate.keyId = KeyId.fromPublicKey certificate.publicKey
  validFrom : calendarValid certificate.validFrom = true
  validUntil : calendarValid certificate.validUntil = true
  window : validateWindow certificate.validFrom certificate.validUntil = .ok ()

variable {name : String}

theorem member_ok {T : Type} [WireText T] {object : List (String × Value)} {t : T}
    (h : Object.get name object = some (.text (WireText.text t))) :
    ReceiptKeys.member object name = .ok t := by
  rw [ReceiptKeys.member, textMember_eq_some.mpr h]
  exact mapError_eq_ok.mpr (WireText.fromStr_text t)

theorem intMember_ok {object n} (h : Object.get name object = some (.int n)) :
    intMember object name = some n := by
  rw [intMember, h]

theorem parseTimestamp_ok {object : List (String × Value)} {t : Timestamp}
    (h : Object.get name object = some (.text (WireText.text t))) (hvalid : calendarValid t = true) :
    parseTimestamp object name = .ok t := by
  rw [parseTimestamp, member_ok h]
  simp only [bind, Except.bind, hvalid, if_true]

theorem certificate_parse (h : WellMade certificate) :
    ReceiptKeyCertificate.parse (.object (assembled certificate.signed)) = .ok certificate := by
  have hget := fun m (hm : m ∈ certificate.signed) =>
    get_assembled certificate_names_nodup hm
  have hlen : (assembled certificate.signed).length = CERTIFICATE_MEMBERS.length :=
    (assembled_sorted certificate_names_nodup).2.length_eq
  have hall : CERTIFICATE_MEMBERS.any
      (fun name => !Object.contains name (assembled certificate.signed)) = false := by
    rw [List.any_eq_false]
    intro name hname
    have hmem : name ∈ certificate.signed.map Prod.fst := by
      exact (by decide : CERTIFICATE_MEMBERS.Perm CERTIFICATE_NAMES).mem_iff.mp hname
    obtain ⟨m, hm, rfl⟩ := List.mem_map.mp hmem
    simp [Object.contains, hget m hm]
  generalize assembled certificate.signed = object at hget hlen hall ⊢
  simp only [ReceiptKeyCertificate.signed, ReceiptKeyCertificate.unsigned, List.cons_append,
    List.nil_append, List.forall_mem_cons] at hget
  obtain ⟨hversion, htenant, hkeyId, halgorithm, hpublic, hfrom, huntil, hauthority, hsignature, -⟩ :=
    hget
  unfold ReceiptKeyCertificate.parse
  dsimp only
  rw [if_neg (by simp [hlen, hall]), if_neg (by
    rw [intMember_ok hversion, textMember_eq_some.mpr halgorithm]
    simp [WireText.text])]
  simp only [member_ok htenant, member_ok hpublic, member_ok hkeyId, bind, Except.bind]
  rw [if_neg (not_not.mpr h.derived)]
  simp [parseTimestamp_ok hfrom h.validFrom, parseTimestamp_ok huntil h.validUntil, h.window,
    member_ok hauthority, member_ok hsignature]

theorem calendarValid_of_parseTimestamp {object t} (h : parseTimestamp object name = .ok t) :
    calendarValid t = true := by
  obtain ⟨t', -, hcheck⟩ := bind_eq_ok.mp h
  obtain ⟨hvalid, heq⟩ := require_eq_ok.mp hcheck
  cases heq
  exact hvalid

/-- What the parser accepts is well made. -/
theorem wellMade_of_parse {value} (h : ReceiptKeyCertificate.parse value = .ok certificate) :
    WellMade certificate := by
  unfold ReceiptKeyCertificate.parse at h
  split at h
  · simp only [refuse_eq_ok, bind_eq_ok, not_not] at h
    obtain ⟨-, -, _, -, _, -, _, -, hderived, _, hfrom, _, huntil, _, hwindow, _, -, _, -, h⟩ := h
    cases h
    exact ⟨hderived, calendarValid_of_parseTimestamp hfrom, calendarValid_of_parseTimestamp huntil,
      hwindow⟩
  · cases h

end AgentArchivist.Auth.ReceiptCertificate
