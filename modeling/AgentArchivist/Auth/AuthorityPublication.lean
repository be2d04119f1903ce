import AgentArchivist.Auth.AuthorityChain
import AgentArchivist.Protocol.Document

/-! # Publishing a rotation link

The offline store asks a gate before it writes a link at the key that the link retires.
What the gate allows extends the chain by one link exactly where the store holds nothing at
the successor: the gate looks at the predecessor alone, and a record that is already stored
at the successor's address, by which the chain passed or not, is walked next. -/
namespace AgentArchivist.Auth.AuthorityPublication
open Lib Protocol List
open Authority Authority.AuthorityRotationLink AuthorityChain Fallible Succession Document
open Vocabulary

inductive RotationPublication where
  | publish
  | alreadyPublished
deriving DecidableEq, Repr

section
variable (verify : Verifier) (root : PinnedAuthorityRoot)
  (store : Finmap fun _ : KeyId => List UInt8) (candidate : AuthorityRotationLink)

/-- The gate, asked before anything is written. -/
def prepareRotationPublication : Except AuthorityChainError RotationPublication :=
  if candidate.tenantId ≠ root.tenantId then .error .recordDisagreement
  else if !candidate.verifyPredecessorSignature verify then .error .signature
  else do
    let resolved ← resolve verify root store candidate.previousKeyId
    if resolved.retiredAt.isNone then .ok .publish
    else match store.lookup candidate.previousKeyId with
      | none => .error .signature
      | some stored =>
        if stored = candidate.canonicalBytes then .ok .alreadyPublished else .error .alreadyRetired

/-- The store with the candidate at the key that it retires. -/
def published : Finmap fun _ : KeyId => List UInt8 :=
  store.insert candidate.previousKeyId candidate.canonicalBytes

/-- What a publication must leave: the signers resolved before, the candidate's successor as the
active authority, and a gate that knows the candidate. -/
structure KeepsChain : Prop where
  resolved : ∀ signer a, resolve verify root store signer = .ok a →
    ∃ a', resolve verify root (published store candidate) signer = .ok a' ∧
      a'.publicKey = a.publicKey ∧ a'.establishedAt = a.establishedAt
  active : ∃ a, resolveActive verify root (published store candidate) = .ok a ∧
    a.keyId = candidate.keyId ∧ a.publicKey = candidate.publicKey
  again : prepareRotationPublication verify root (published store candidate) candidate =
    .ok .alreadyPublished

/-- The candidate is the next link of a chain. -/
structure Extends (path : List AuthorityRotationLink) : Prop where
  tenant : candidate.tenantId = root.tenantId
  signature : candidate.verifyPredecessorSignature verify = true
  chain : Chain verify root store.lookup path
  reaches : tip root path = candidate.previousKeyId
  free : store.lookup candidate.previousKeyId = none

end

section
variable {verify : Verifier} {root : PinnedAuthorityRoot}
  {store : Finmap fun _ : KeyId => List UInt8} {candidate link : AuthorityRotationLink}
  {path : List AuthorityRotationLink} {key : KeyId}

/-- A link's own bytes are read back as the link. -/
theorem parse_document (link : AuthorityRotationLink) :
    Json.parse link.canonicalBytes = .ok (objectOf link.signed) := by
  have hshort : ∀ name ∈ link.signed.map Prod.fst, (Lib.Utf8.utf8 name).length ≤ 40 := by
    rw [signed_names]
    decide
  refine parse_moderate (signed_names_nodup link) (fun m hm => hshort m.1 (mem_map_of_mem hm)) ?_
    (by decide : 12 ≤ 80)
  cases halgorithm : link.keyAlgorithm
  simp +decide [signed, unsigned, halgorithm, -Lib.Utf8.utf8_length]

theorem publish_iff : prepareRotationPublication verify root store candidate = .ok .publish ↔
    ∃ path, Extends verify root store candidate path := by
  simp only [prepareRotationPublication, refuse_eq_ok, bind_eq_ok, not_not, Bool.not_eq_true',
    Bool.not_eq_false]
  constructor
  · rintro ⟨htenant, hsignature, a, hresolve, h⟩
    obtain ⟨path, hr⟩ := resolve_ok.mp hresolve
    refine ⟨path, htenant, hsignature, hr.chain, hr.reaches, ?_⟩
    rcases hr.retired with ⟨hfree, -⟩ | ⟨_, -, -, hsome⟩
    · exact hfree
    rw [hsome, if_neg nofun] at h
    split at h
    · cases h
    · split at h <;> cases h
  · intro ⟨path, h⟩
    have hresolve : resolve verify root store candidate.previousKeyId =
        .ok ((walkOf root path).resolved none) :=
      resolve_ok.mpr ⟨path, h.chain, h.reaches, h.reaches, rfl, rfl, .inl ⟨h.free, rfl⟩⟩
    exact ⟨h.tenant, h.signature, _, hresolve, rfl⟩

/-! ## The store after the publication -/

theorem lookup_published_self :
    (published store candidate).lookup candidate.previousKeyId = some candidate.canonicalBytes :=
  Finmap.lookup_insert store

theorem lookup_published_of_ne (h : key ≠ candidate.previousKeyId) :
    (published store candidate).lookup key = store.lookup key :=
  Finmap.lookup_insert_of_ne store h

/-- Nothing but the key that the candidate retires is read differently. -/
theorem Admitted.published (hfree : store.lookup candidate.previousKeyId = none)
    (h : Admitted verify root store.lookup key link) :
    Admitted verify root (published store candidate).lookup key link := by
  obtain ⟨bytes, hfetch, hparse⟩ := h.stored
  have hne : key ≠ candidate.previousKeyId := by
    intro heq
    rw [heq, hfree] at hfetch
    cases hfetch
  refine ⟨⟨bytes, ?_, hparse⟩, h.tenant, h.retires, h.signature⟩
  rw [lookup_published_of_ne hne]
  exact hfetch

theorem Extends.admitted (h : Extends verify root store candidate path) :
    Admitted verify root (published store candidate).lookup candidate.previousKeyId candidate :=
  ⟨⟨_, lookup_published_self, parse_document candidate⟩, h.tenant, rfl, h.signature⟩

theorem chain_published (hfree : store.lookup candidate.previousKeyId = none)
    (h : Chain verify root store.lookup path) :
    Chain verify root (published store candidate).lookup path :=
  Sequence.mono (fun _ _ hlink => Admitted.published hfree hlink) h

/-- A chain leads through no key without a record, its tip apart. -/
theorem not_mem_ids (h : Chain verify root store.lookup path) (hnone : store.lookup key = none)
    (hne : key ≠ tip root path) : key ∉ ids root path := by
  intro hmem
  rcases Sequence.admits h hmem with htip | ⟨link, hlink⟩
  · exact hne htip
  · obtain ⟨bytes, hfetch, -⟩ := hlink.stored
    rw [hnone] at hfetch
    cases hfetch

section
variable (h : Extends verify root store candidate path)
  (hnew : store.lookup candidate.keyId = none)
include h hnew

/-- The chain that the candidate extends, where the store knows nothing of its successor. -/
theorem Extends.chain_snoc :
    Chain verify root (published store candidate).lookup (path ++ [candidate]) := by
  refine sequence_snoc.mpr ⟨chain_published h.free h.chain, ?_, ?_⟩
  · have hadmitted := h.admitted
    rw [← h.reaches] at hadmitted
    exact hadmitted
  · refine not_mem_ids h.chain hnew ?_
    rw [h.reaches]
    exact candidate.advances

theorem Extends.resolve_previous :
    resolve verify root (published store candidate) candidate.previousKeyId =
      .ok ((walkOf root path).resolved (some candidate.signedAt)) := by
  have hne : candidate.keyId ≠ tip root path := by
    rw [h.reaches]
    exact candidate.advances
  refine resolve_ok.mpr ⟨path, chain_published h.free h.chain, h.reaches, h.reaches, rfl, rfl, .inr ?_⟩
  exact ⟨candidate, h.admitted, not_mem_ids h.chain hnew hne, rfl⟩

theorem Extends.resolved {signer a} (hresolve : resolve verify root store signer = .ok a) :
    ∃ a', resolve verify root (published store candidate) signer = .ok a' ∧
      a'.publicKey = a.publicKey ∧ a'.establishedAt = a.establishedAt := by
  obtain ⟨path', hr⟩ := resolve_ok.mp hresolve
  by_cases hsigner : signer = candidate.previousKeyId
  · subst hsigner
    have hagain : Extends verify root store candidate path' :=
      ⟨h.tenant, h.signature, hr.chain, hr.reaches, h.free⟩
    exact ⟨_, hagain.resolve_previous hnew, hr.half.symm, hr.established.symm⟩
  refine ⟨a, resolve_ok.mpr ⟨path', chain_published h.free hr.chain, hr.reaches, hr.key, hr.half,
    hr.established, ?_⟩, rfl, rfl⟩
  rw [lookup_published_of_ne hsigner]
  rcases hr.retired with hnone | ⟨link, hlink, hfresh, hat⟩
  · exact .inl hnone
  · exact .inr ⟨link, Admitted.published h.free hlink, hfresh, hat⟩

theorem Extends.active :
    ∃ a, resolveActive verify root (published store candidate) = .ok a ∧
      a.keyId = candidate.keyId ∧ a.publicKey = candidate.publicKey := by
  have htip : tip root (path ++ [candidate]) = candidate.keyId := last_snoc
  refine ⟨_, resolveActive_ok.mpr ⟨_, h.chain_snoc hnew, ?_, rfl⟩, htip, ?_⟩
  · rw [htip, lookup_published_of_ne candidate.advances]
    exact hnew
  · simp [walkOf, Walk.resolved]

theorem Extends.again :
    prepareRotationPublication verify root (published store candidate) candidate =
      .ok .alreadyPublished := by
  unfold prepareRotationPublication
  rw [if_neg (not_not.mpr h.tenant), if_neg (by simp [h.signature])]
  refine bind_eq_ok.mpr ⟨_, h.resolve_previous hnew, ?_⟩
  rw [lookup_published_self]
  simp [Walk.resolved]

end

end

/-- What the gate lets through keeps the chain exactly where nothing is stored at the successor of
the candidate. -/
theorem publication_keeps_chain (verify : Verifier) (root : PinnedAuthorityRoot)
    (store : Finmap fun _ : KeyId => List UInt8) (candidate : AuthorityRotationLink)
    (h : prepareRotationPublication verify root store candidate = .ok .publish) :
    KeepsChain verify root store candidate ↔ store.lookup candidate.keyId = none := by
  obtain ⟨path, hext⟩ := publish_iff.mp h
  constructor
  · intro hkeeps
    obtain ⟨a, hactive, hkey, -⟩ := hkeeps.active
    -- an active authority has no record
    obtain ⟨_, -, hnone, rfl⟩ := resolveActive_ok.mp hactive
    have htip : tip root _ = candidate.keyId := hkey
    rwa [htip, lookup_published_of_ne candidate.advances] at hnone
  · intro hnew
    exact ⟨fun signer a => hext.resolved hnew, hext.active hnew, hext.again hnew⟩

/-! ## A succession that comes back

A root and a second key; the root's holder retires it for the second key, and the holder of
the second key retires that for the root. Each half signs one record. -/

namespace Sample

def tenant : TenantId := Vocabulary.Specimen.tenant
def newYear : Timestamp := Vocabulary.Specimen.newYear
def first : Ed25519PublicKey := .fill 0x11
def second : Ed25519PublicKey := .fill 0x22
def root : PinnedAuthorityRoot := ⟨tenant, first⟩

theorem first_ne_second : KeyId.fromPublicKey first ≠ KeyId.fromPublicKey second := by
  decide +kernel

/-- The link from one half to another. -/
def rotation (previous next : Ed25519PublicKey) (signedAt : Timestamp)
    (calendar : calendarValid signedAt = true)
    (advances : KeyId.fromPublicKey next ≠ KeyId.fromPublicKey previous) : AuthorityRotationLink where
  tenantId := tenant
  previousPublicKey := previous
  previousKeyId := KeyId.fromPublicKey previous
  keyAlgorithm := .ed25519
  publicKey := next
  keyId := KeyId.fromPublicKey next
  signedAt := signedAt
  authorityKeyId := KeyId.fromPublicKey previous
  authoritySignature := .fill 0
  calendar := calendar
  previous_derived := rfl
  derived := rfl
  witnessed := rfl
  advances := advances

theorem newYear_calendar : calendarValid newYear = true := by decide +kernel

theorem second_ne_first : KeyId.fromPublicKey second ≠ KeyId.fromPublicKey first :=
  Ne.symm first_ne_second

def forth : AuthorityRotationLink := rotation first second newYear newYear_calendar second_ne_first
def back : AuthorityRotationLink := rotation second first newYear newYear_calendar first_ne_second

/-- Each half signed its own retirement and nothing else. -/
def holders : Verifier := fun key message _ =>
  (key = first && message = forth.unsignedCanonicalBytes) ||
    (key = second && message = back.unsignedCanonicalBytes)

theorem forth_extends : Extends holders root ∅ forth [] where
  tenant := rfl
  signature := by simp [verifyPredecessorSignature, holders, forth, rotation]
  chain := sequence_nil
  reaches := rfl
  free := Finmap.lookup_empty _

theorem forth_published : Chain holders root (published ∅ forth).lookup [forth] :=
  forth_extends.chain_snoc (Finmap.lookup_empty _)

theorem back_extends : Extends holders root (published ∅ forth) back [forth] where
  tenant := rfl
  signature := by simp [verifyPredecessorSignature, holders, back, rotation]
  chain := forth_published
  reaches := rfl
  free := by
    rw [lookup_published_of_ne]
    · exact Finmap.lookup_empty _
    · exact second_ne_first

def returned : Finmap fun _ : KeyId => List UInt8 := published (published ∅ forth) back

/-- At the second key the walk now finds a link to the root. -/
theorem back_stops {path} {link : AuthorityRotationLink}
    (h : Admitted holders root returned.lookup back.previousKeyId link) :
    link.keyId ∈ ids root path := by
  obtain rfl := h.unique back_extends.admitted
  exact mem_cons_self

theorem second_unresolved (a : ResolvedAuthority) :
    resolve holders root returned back.previousKeyId ≠ .ok a := by
  intro h
  obtain ⟨path, hr⟩ := resolve_ok.mp h
  rcases hr.retired with ⟨hnone, -⟩ | ⟨link, hlink, hfresh, -⟩
  · rw [returned, lookup_published_self] at hnone
    cases hnone
  · exact hfresh (back_stops hlink)

theorem second_after : Chain holders root returned.lookup [forth] :=
  chain_published back_extends.free forth_published

/-- The walk ends at the root or at the second key, and a record is stored at either. -/
theorem returned_recorded {path} (h : Chain holders root returned.lookup path) :
    returned.lookup (tip root path) ≠ none := by
  have hone : ∀ key link link', Admitted holders root returned.lookup key link →
      Admitted holders root returned.lookup key link' → link = link' := fun _ _ _ h h' => h.unique h'
  have hsecond : returned.lookup back.previousKeyId ≠ none := by
    rw [returned, lookup_published_self]
    nofun
  rcases Sequence.comparable hone second_after h with ⟨rest, rfl⟩ | hle
  · cases rest with
    | nil => exact hsecond
    | cons link rest =>
      have hnext := sequence_snoc.mp (Chain.beginning h rfl)
      exact absurd (back_stops hnext.2.1) hnext.2.2
  · have hle' : path <+: [] ++ [forth] := hle
    rcases prefix_concat_iff.mp hle' with rfl | hnil
    · exact hsecond
    obtain rfl := prefix_nil.mp hnil
    obtain ⟨bytes, hfetch, -⟩ := (Sequence.steps second_after [] forth [] rfl).stored
    intro hnone
    cases hnone.symm.trans hfetch

end Sample

/-- The gate lets a link to the root through: the second key, resolved before, no longer is, and
there is no active authority any more. -/
theorem returned_root_breaks_chain :
    prepareRotationPublication Sample.holders Sample.root (published ∅ Sample.forth) Sample.back =
      .ok .publish ∧
    (∃ a, resolve Sample.holders Sample.root (published ∅ Sample.forth)
      Sample.back.previousKeyId = .ok a) ∧
    (∀ a, resolve Sample.holders Sample.root Sample.returned Sample.back.previousKeyId ≠ .ok a) ∧
    ∀ a, resolveActive Sample.holders Sample.root Sample.returned ≠ .ok a := by
  have hbefore : Resolves Sample.holders Sample.root (published ∅ Sample.forth).lookup
      Sample.back.previousKeyId ((walkOf Sample.root [Sample.forth]).resolved none) [Sample.forth] :=
    ⟨Sample.forth_published, rfl, rfl, rfl, rfl, .inl ⟨Sample.back_extends.free, rfl⟩⟩
  refine ⟨publish_iff.mpr ⟨_, Sample.back_extends⟩, ⟨_, resolve_ok.mpr ⟨_, hbefore⟩⟩,
    Sample.second_unresolved, fun a h => ?_⟩
  obtain ⟨path, hchain, hnone, -⟩ := resolveActive_ok.mp h
  exact Sample.returned_recorded hchain hnone

theorem first_rotation_keeps_chain :
    prepareRotationPublication Sample.holders Sample.root ∅ Sample.forth = .ok .publish ∧
      KeepsChain Sample.holders Sample.root ∅ Sample.forth := by
  have hgate := publish_iff.mpr ⟨_, Sample.forth_extends⟩
  exact ⟨hgate, (publication_keeps_chain _ _ _ _ hgate).mpr (Finmap.lookup_empty _)⟩

end AgentArchivist.Auth.AuthorityPublication
