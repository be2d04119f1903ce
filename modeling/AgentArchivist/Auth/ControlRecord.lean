import AgentArchivist.Auth.AuthorityWindows

/-! # Signed control records

What the families of tenant-authority-signed records share: the closed member set, the
wrapper members, the signature over the canonical bytes of the other members, and the
envelope that an authority seals. An envelope sealed by the pinned half is accepted where no
rotation link is stored (`verifyControlRecord_sealed`). -/
namespace AgentArchivist.Auth.ControlRecord
open Lib Protocol List
open Authority AuthorityChain AuthorityWindows ReceiptKeys Fallible Succession Utf8 Document
open Json Vocabulary

/-! ## Reading members -/

/-- A family's names for the failures that all families have. -/
structure Failures (ε : Type) where
  malformed : ε
  disagreement : ε
  untrusted : ε

/-- How a family reports a failure of the chain. -/
def Failures.ofChain {ε : Type} (failures : Failures ε) : AuthorityChainError → ε
  | .recordDisagreement => failures.disagreement
  | _ => failures.untrusted

theorem one_le_toNat {value : Int} (h : 1 ≤ value) : 1 ≤ value.toNat := by omega

theorem epoch_positive (epoch : { epoch : Nat // 1 ≤ epoch }) : 1 ≤ epoch.1 := epoch.2

section
variable {ε : Type} (malformed : ε) (object : List (String × Value)) (name : String)

/-- `T::parse(text_member(object, name).ok_or(malformed)?).map_err(|_| malformed)`. -/
def readMember {T : Type} [WireText T] : Except ε T :=
  match textMember object name with
  | none => .error malformed
  | some text => (WireText.fromStr text).mapError fun _ => malformed

/-- A one-based epoch. -/
def epochMemberNamed : Except ε { epoch : Nat // 1 ≤ epoch } :=
  match Object.get name object with
  | some (.int value) =>
    if h : 1 ≤ value.toInt then .ok ⟨value.toInt.toNat, one_le_toNat h⟩ else .error malformed
  | _ => .error malformed

def verifyMemberSet (expected : List String) : Except ε Unit :=
  if object.length ≠ expected.length then .error malformed
  else if expected.any fun name => !Object.contains name object then .error malformed
  else .ok ()

variable {malformed object name}

theorem readMember_of_get {T : Type} [WireText T] {t : T}
    (h : Object.get name object = some (.text (WireText.text t))) :
    readMember malformed object name = .ok t := by
  rw [readMember, textMember, h]
  exact mapError_eq_ok.mpr (WireText.fromStr_text t)

end

/-! ## Verification -/

/-- Everything but the resolution of the signer. -/
def verifyControlRecordResolved (verify : Verifier) (envelope : List UInt8)
    (resolve : TenantId → KeyId → Timestamp → Except AuthorityChainError ResolvedAuthority) :
    Except AuthorityChainError ResolvedAuthority :=
  match Json.parse envelope with
  | .ok (.object object) =>
    if textMember object "schema" ≠ some CONTROL_NAMESPACE then .error .recordDisagreement
    else if ["record_type", "record_kind"].any fun name => (textMember object name).isNone then
      .error .malformedRecord
    else do
      let tenantId ← readMember .malformedRecord object "tenant_id"
      let signerId ← readMember .malformedRecord object "authority_key_id"
      let signature ← readMember .malformedRecord object "authority_signature"
      let signedAt ← readMember .malformedRecord object "signed_at"
      let resolved ← resolve tenantId signerId signedAt
      let canonical := Json.canonicalBytes (.object (Object.remove "authority_signature" object))
      if !verify resolved.publicKey canonical signature then .error .signature
      else .ok resolved
  | _ => .error .malformedRecord

def verifyControlRecord (verify : Verifier) (root : PinnedAuthorityRoot)
    (store : Finmap fun _ : KeyId => List UInt8) (envelope : List UInt8) :
    Except AuthorityChainError ResolvedAuthority :=
  verifyControlRecordResolved verify envelope fun tenant signer signedAt =>
    if tenant ≠ root.tenantId then .error .recordDisagreement
    else verifySigningAuthority verify root store signer signedAt

/-- How a record of a family is known: its closed member set, of a few short names, and its
identity pair. -/
structure Family (ε : Type) where
  members : List String
  recordType : String
  recordKind : String
  failures : Failures ε
  distinct : members.Nodup
  few : members.length ≤ 20
  short_names : ∀ name ∈ members, (utf8 name).length ≤ 40
  short_identity : (utf8 recordType).length ≤ 40 ∧ (utf8 recordKind).length ≤ 40

namespace Family
variable {ε : Type} (family : Family ε) (verify : Verifier) (root : PinnedAuthorityRoot)
  (store : Finmap fun _ : KeyId => List UInt8)

/-- The checks with which every family begins: the shape, the identity, the tenant. -/
def begin (envelope : List UInt8) : Except ε (List (String × Value)) :=
  match Json.parse envelope with
  | .ok (.object object) => do
    verifyMemberSet family.failures.malformed object family.members
    if textMember object "record_type" ≠ some family.recordType ∨
        textMember object "record_kind" ≠ some family.recordKind ∨
        textMember object "schema" ≠ some CONTROL_NAMESPACE then
      .error family.failures.disagreement
    else do
      let tenant ← readMember family.failures.malformed object "tenant_id"
      if tenant ≠ root.tenantId then .error family.failures.disagreement else .ok object
  | _ => .error family.failures.malformed

/-- The checks with which every family ends: the instant, then the authority. -/
def conclude (envelope : List UInt8) (object : List (String × Value)) :
    Except ε { signedAt : Timestamp // calendarValid signedAt = true } := do
  let signedAt ← readMember family.failures.malformed object "signed_at"
  if calendar : calendarValid signedAt = true then do
    let _ ← (verifyControlRecord verify root store envelope).mapError family.failures.ofChain
    .ok ⟨signedAt, calendar⟩
  else .error family.failures.malformed

end Family

/-! ## Sealing -/

/-- Ed25519 as the authority and its verifiers use it. That a half verifies what its seed
signed is assumed. -/
structure SignatureScheme where
  Seed : Type
  publicKeyFromSeed : Seed → Ed25519PublicKey
  sign : Seed → List UInt8 → Ed25519Signature
  verify : Verifier
  agrees : ∀ seed message, verify (publicKeyFromSeed seed) message (sign seed message) = true

section
variable (scheme : SignatureScheme) (seed : scheme.Seed)

def SignatureScheme.authorityKeyId : KeyId := KeyId.fromPublicKey (scheme.publicKeyFromSeed seed)

/-- The root that pins the half of the seed. -/
def SignatureScheme.pinned (tenant : TenantId) : PinnedAuthorityRoot :=
  ⟨tenant, scheme.publicKeyFromSeed seed⟩

/-- The members, and after them the signature over their canonical bytes. -/
def sealedMembers (members : List (String × Value)) : List (String × Value) :=
  members ++ [("authority_signature",
    .text (WireText.text (scheme.sign seed (Json.canonicalBytes (.object (assembled members))))))]

/-- The bytes that are published. -/
def sealedBytes (members : List (String × Value)) : List UInt8 :=
  Json.canonicalBytes (.object (assembled (sealedMembers scheme seed members)))

end

/-- The members that an authority sets, in this order: the wrapper around a family's own. -/
def Family.wrap {ε : Type} (family : Family ε) (tenant : TenantId) (payload : List (String × Value))
    (signedAt : Timestamp) (signer : KeyId) : List (String × Value) :=
  [("schema", .text CONTROL_NAMESPACE), ("record_type", .text family.recordType),
   ("record_kind", .text family.recordKind), ("tenant_id", .text (WireText.text tenant))] ++
  payload ++
  [("signed_at", .text (WireText.text signedAt)), ("authority_key_id", .text (WireText.text signer))]

/-- The members of a family's own. -/
structure Payload {ε : Type} (family : Family ε) (payload : List (String × Value)) : Prop where
  names : ["schema", "record_type", "record_kind", "tenant_id"] ++ payload.map Prod.fst ++
    ["signed_at", "authority_key_id", "authority_signature"] = family.members
  values : ∀ m ∈ payload, Moderate m.2

namespace Payload
variable {ε : Type} {family : Family ε} {scheme : SignatureScheme} {seed : scheme.Seed}
  {tenant : TenantId} {signer : KeyId} {signedAt : Timestamp} {payload : List (String × Value)}

/-- The object that the envelope holds. -/
abbrev document (scheme : SignatureScheme) (seed : scheme.Seed) (family : Family ε)
    (tenant : TenantId) (payload : List (String × Value)) (signedAt : Timestamp) (signer : KeyId) :
    List (String × Value) :=
  assembled (sealedMembers scheme seed (family.wrap tenant payload signedAt signer))

section
variable (h : Payload family payload)
include h

theorem sealed_names : (sealedMembers scheme seed
    (family.wrap tenant payload signedAt signer)).map Prod.fst = family.members := by
  rw [← h.names]
  simp [sealedMembers, Family.wrap]

theorem nodup (scheme : SignatureScheme) (seed : scheme.Seed) (tenant : TenantId) (signer : KeyId)
    (signedAt : Timestamp) : ((sealedMembers scheme seed
      (family.wrap tenant payload signedAt signer)).map Prod.fst).Nodup :=
  h.sealed_names ▸ family.distinct

theorem moderate : ∀ m ∈ sealedMembers scheme seed (family.wrap tenant payload signedAt signer),
    Moderate m.2 := by
  have hidentity := family.short_identity
  intro m hm
  simp only [sealedMembers, Family.wrap, mem_append, mem_cons, not_mem_nil,
    or_false] at hm
  rcases hm with (((rfl | rfl | rfl | rfl) | hm) | rfl | rfl) | rfl
  · exact moderate_text (by decide)
  · exact moderate_text (hidentity.1.trans (by decide))
  · exact moderate_text (hidentity.2.trans (by decide))
  · exact moderate_text (short_text tenant (by decide))
  · exact h.values m hm
  · exact moderate_text (short_text signedAt (by decide))
  · exact moderate_text (short_digest signer)
  · exact moderate_text (short_signature _)

variable {name : String}

/-- A member is read back from the envelope's object. -/
theorem get {v} (hm : (name, v) ∈ family.wrap tenant payload signedAt signer) :
    Object.get name (document scheme seed family tenant payload signedAt signer) = some v :=
  get_assembled (h.nodup scheme seed tenant signer signedAt) (mem_append_left _ hm)

/-- So is one of the family's own. -/
theorem get_own {v} (hm : (name, v) ∈ payload) :
    Object.get name (document scheme seed family tenant payload signedAt signer) = some v :=
  h.get (mem_append_left _ (mem_append_right _ hm))

theorem textMember_own {name text} (hm : (name, .text text) ∈ payload) :
    textMember (document scheme seed family tenant payload signedAt signer) name = some text := by
  rw [textMember, h.get_own hm]

theorem read_own {ε' T : Type} [WireText T] {malformed : ε'} {t : T}
    (hm : (name, .text (WireText.text t)) ∈ payload) :
    readMember malformed (document scheme seed family tenant payload signedAt signer) name = .ok t :=
  readMember_of_get (h.get_own hm)

theorem epoch_own {ε' : Type} {malformed : ε'} {epoch : Nat} (hpos : 1 ≤ epoch)
    (hlt : epoch < 2 ^ 63) (hm : (name, .int (Int64.ofNat epoch)) ∈ payload) :
    epochMemberNamed malformed (document scheme seed family tenant payload signedAt signer) name =
      .ok ⟨epoch, hpos⟩ := by
  have hvalue : (Int64.ofNat epoch).toInt = epoch := Int64.toInt_ofNat_of_lt hlt
  rw [epochMemberNamed, h.get_own hm]
  dsimp only
  rw [dif_pos (by omega)]
  simp [hvalue]

theorem textMember_eq {name text}
    (hm : (name, .text text) ∈ family.wrap tenant payload signedAt signer) :
    textMember (document scheme seed family tenant payload signedAt signer) name = some text := by
  rw [textMember, h.get hm]

theorem readMember_eq {ε' T : Type} [WireText T] {malformed : ε'} {t : T}
    (hm : (name, .text (WireText.text t)) ∈ family.wrap tenant payload signedAt signer) :
    readMember malformed (document scheme seed family tenant payload signedAt signer) name = .ok t :=
  readMember_of_get (h.get hm)

theorem identity (scheme : SignatureScheme) (seed : scheme.Seed) (tenant : TenantId) (signer : KeyId)
    (signedAt : Timestamp) :
    textMember (document scheme seed family tenant payload signedAt signer) "schema" =
      some CONTROL_NAMESPACE ∧
    textMember (document scheme seed family tenant payload signedAt signer) "record_type" =
      some family.recordType ∧
    textMember (document scheme seed family tenant payload signedAt signer) "record_kind" =
      some family.recordKind :=
  ⟨h.textMember_eq (by simp [Family.wrap]), h.textMember_eq (by simp [Family.wrap]),
    h.textMember_eq (by simp [Family.wrap])⟩

/-- The envelope is read back. -/
theorem parse_sealed :
    Json.parse (sealedBytes scheme seed (family.wrap tenant payload signedAt signer)) =
      .ok (.object (document scheme seed family tenant payload signedAt signer)) := by
  have hlen : (sealedMembers scheme seed (family.wrap tenant payload signedAt signer)).length ≤ 20 := by
    rw [← length_map Prod.fst, h.sealed_names]
    exact family.few
  refine parse_moderate (h.nodup scheme seed tenant signer signedAt) (fun m hm => ?_) h.moderate
    (hlen.trans (by decide))
  exact family.short_names m.1 (h.sealed_names ▸ mem_map_of_mem hm)

theorem verifyMemberSet_eq : verifyMemberSet family.failures.malformed
    (document scheme seed family tenant payload signedAt signer) family.members = .ok () := by
  obtain ⟨-, hperm⟩ := assembled_sorted (h.nodup scheme seed tenant signer signedAt)
  have hkeys : ((document scheme seed family tenant payload signedAt signer).map Prod.fst).Perm
      family.members := (hperm.map Prod.fst).trans (h.sealed_names ▸ List.Perm.refl _)
  have hget : ∀ name ∈ family.members, Object.get name
      (document scheme seed family tenant payload signedAt signer) ≠ none := fun name hname => by
    obtain ⟨m, hm, rfl⟩ := mem_map.mp (hkeys.mem_iff.mpr hname)
    rw [get_assembled (h.nodup scheme seed tenant signer signedAt) (hperm.mem_iff.mp hm)]
    exact Option.some_ne_none _
  have hlen := hkeys.length_eq
  rw [length_map] at hlen
  rw [verifyMemberSet, if_neg (not_not.mpr hlen), if_neg]
  simpa [Object.contains] using hget

theorem begin_eq {root : PinnedAuthorityRoot} (htenant : tenant = root.tenantId) :
    family.begin root (sealedBytes scheme seed (family.wrap tenant payload signedAt signer)) =
      .ok (document scheme seed family tenant payload signedAt signer) := by
  obtain ⟨hschema, htype, hkind⟩ := h.identity scheme seed tenant signer signedAt
  rw [Family.begin, h.parse_sealed]
  refine bind_eq_ok.mpr ⟨(), h.verifyMemberSet_eq, ?_⟩
  rw [if_neg (by simp [hschema, htype, hkind])]
  refine bind_eq_ok.mpr ⟨tenant, h.readMember_eq (by simp [Family.wrap]), ?_⟩
  rw [if_neg (not_not.mpr htenant)]

end

variable (h : Payload family payload)
include h

/-- The envelope that the pinned half sealed is accepted where no link is stored. -/
theorem verifyControlRecord_sealed (hcalendar : calendarValid signedAt = true) :
    verifyControlRecord scheme.verify (scheme.pinned seed tenant) ∅
      (sealedBytes scheme seed (family.wrap tenant payload signedAt (scheme.authorityKeyId seed))) =
        .ok ((walkOf (scheme.pinned seed tenant) []).resolved none) := by
  have hnames := h.nodup scheme seed tenant (scheme.authorityKeyId seed) signedAt
  obtain ⟨hschema, htype, hkind⟩ := h.identity scheme seed tenant (scheme.authorityKeyId seed) signedAt
  rw [verifyControlRecord, verifyControlRecordResolved, h.parse_sealed]
  dsimp only
  rw [if_neg (not_not.mpr hschema), if_neg (by simp [htype, hkind])]
  refine bind_eq_ok.mpr ⟨tenant, h.readMember_eq (by simp [Family.wrap]), ?_⟩
  refine bind_eq_ok.mpr ⟨scheme.authorityKeyId seed, h.readMember_eq (by simp [Family.wrap]), ?_⟩
  refine bind_eq_ok.mpr ⟨_, readMember_of_get
    (get_assembled hnames (mem_append_right _ mem_cons_self)), ?_⟩
  refine bind_eq_ok.mpr ⟨signedAt, h.readMember_eq (by simp [Family.wrap]), ?_⟩
  refine bind_eq_ok.mpr ⟨(walkOf (scheme.pinned seed tenant) []).resolved none, ?_, ?_⟩
  · -- where no link is stored, the pinned half may sign at any instant
    refine (if_neg (not_not.mpr rfl)).trans (verifySigningAuthority_ok.mpr
      ⟨resolve_ok.mpr ⟨[], sequence_nil, rfl, rfl, rfl, rfl, ?_⟩, ?_⟩)
    · exact .inl ⟨Finmap.lookup_empty _, rfl⟩
    · exact accepted_iff.mpr ⟨hcalendar, nofun, nofun⟩
  -- without the signature the object is the one that was signed
  have hremoved : Object.remove "authority_signature"
      (document scheme seed family tenant payload signedAt (scheme.authorityKeyId seed)) =
        assembled (family.wrap tenant payload signedAt (scheme.authorityKeyId seed)) :=
    remove_assembled hnames
  rw [hremoved]
  exact if_neg (by simp [walkOf, Walk.resolved, SignatureScheme.pinned, scheme.agrees])

theorem conclude_eq (hcalendar : calendarValid signedAt = true) :
    family.conclude scheme.verify (scheme.pinned seed tenant) ∅
      (sealedBytes scheme seed (family.wrap tenant payload signedAt (scheme.authorityKeyId seed)))
      (document scheme seed family tenant payload signedAt (scheme.authorityKeyId seed)) =
        .ok ⟨signedAt, hcalendar⟩ := by
  refine bind_eq_ok.mpr ⟨signedAt, h.readMember_eq (by simp [Family.wrap]), ?_⟩
  rw [dif_pos hcalendar]
  exact bind_eq_ok.mpr ⟨_, mapError_eq_ok.mpr (h.verifyControlRecord_sealed hcalendar), rfl⟩

end Payload

end AgentArchivist.Auth.ControlRecord
