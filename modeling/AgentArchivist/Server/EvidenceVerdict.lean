import AgentArchivist.Lib.Keyed
import AgentArchivist.Server.EvidenceHistory

/-! # The verdict over loaded evidence

Loaded evidence decides like the whole history of the client. An address is sound where
nothing is held or what is held passes under the tenant's root; evidence stands on sound
addresses only, and where the addresses of a history are sound, the history folds. -/
namespace AgentArchivist.Server.EvidenceVerdict
open Lib Auth List
open Authority Delegation RequestVerification TrustView TrustView.ClientTrustView
open TrustView.TrustRecord Asked Fallible Protocol Protocol.Vocabulary Evidence
open EvidenceHistory WriteOnce

/-! ## Sound addresses -/

def addressTenant : ControlAddress → TenantId
  | .linkedClient tenant _ | .delegation tenant _ _ | .revocation tenant _ _ | .rotation tenant _ _ =>
    tenant

section
variable (ed25519 : Verifier) (control : ControlStore) (links : Finmap fun _ : KeyId => List UInt8)

/-- The bytes verify at the address; a record of a history folds into the view of its client's
pointer too. -/
def Passes (pinned : PinnedAuthorityRoot) (envelope : List UInt8) : ControlAddress → Prop
  | .linkedClient _ client =>
    ∃ pointer, LinkedClientPointer.verify ed25519 pinned links envelope client = .ok pointer
  | .delegation _ relay origin =>
    ∃ grant, DelegationRecord.verify ed25519 pinned links envelope relay origin = .ok grant
  | .revocation tenant client epoch =>
    ∃ served pointer record, control (.linkedClient tenant client) = .held served ∧
      LinkedClientPointer.verify ed25519 pinned links served client = .ok pointer ∧
      RevocationRecord.verify ed25519 pinned links envelope client epoch = .ok record ∧
      ∃ view, (new pointer).recordRevocation record = .ok view
  | .rotation tenant client epoch =>
    ∃ served pointer record, control (.linkedClient tenant client) = .held served ∧
      LinkedClientPointer.verify ed25519 pinned links served client = .ok pointer ∧
      RotationRecord.verify ed25519 pinned links envelope client epoch = .ok record ∧
      ∃ view, (new pointer).recordRotation record = .ok view

/-- Nothing is held at the address, or what passes under the root of its tenant. -/
def Sound (trust : TrustConfig) (address : ControlAddress) : Prop :=
  control address = .absent ∨ ∃ envelope root pinned, control address = .held envelope ∧
    trust.rootFor (addressTenant address) = some root ∧ pinnedRoot root = some pinned ∧
    Passes ed25519 control links pinned envelope address

end

theorem rootFor_eq_some {trust : TrustConfig} {tenant} {root : TenantTrustRoot} :
    trust.rootFor tenant = some root ↔ root ∈ trust.roots ∧ root.tenant = tenant := by
  rw [TrustConfig.rootFor, Lib.Keyed.find?_unique, decide_eq_true_iff]
  simp only [decide_eq_true_iff]
  exact fun a ha b hb hta htb => inj_on_of_nodup_map trust.distinct ha hb (hta.trans htb.symm)

theorem pinnedRoot_tenant {root pinned} (h : pinnedRoot root = some pinned) :
    pinned.tenantId = root.tenant := by
  unfold pinnedRoot at h
  split at h
  · obtain rfl := Option.some.inj h
    rfl
  · cases h

/-- A record folds into the view of a pointer exactly where it fits the pointer. -/
theorem record_new {pointer r} : (∃ view, (new pointer).record r = .ok view) ↔ Fits pointer r := by
  have hnone : holds (new pointer) r.slot = none := by cases r <;> rfl
  refine record_laws.folds_iff.trans (and_iff_left fun b hb => ?_)
  rw [hnone] at hb
  cases hb

/-! ## What was loaded -/

section
variable {ed25519 : Verifier} {control : ControlStore} {links : Finmap fun _ : KeyId => List UInt8}
  {root : TenantTrustRoot} {record : AttemptAuthorization} {client : ClientId}
  {t : List ControlAddress}

variable (ed25519 control links root record client) in
/-- What stands behind the uploader of loaded evidence. -/
structure Loaded (linked : LinkedUploader) (served : List UInt8) (pinned : PinnedAuthorityRoot)
    (pointer : LinkedClientPointer) : Prop where
  held : control (.linkedClient root.tenant client) = .held served
  pins : pinnedRoot root = some pinned
  verified : LinkedClientPointer.verify ed25519 pinned links served client = .ok pointer
  viewed : (loadedSlots record.uploaderKeyId pointer).foldlM
    (fetchSlot ed25519 control links pinned client) (new pointer) = some linked.view
  members : ∃ publicKey scopes, linkedMembers served = .ok (publicKey, scopes) ∧
    LinkedUploader.new pinned linked.view publicKey scopes = some linked

/-- The questions that loading an uploader puts. -/
def loadedAsked (root : TenantTrustRoot) (record : AttemptAuthorization) (client : ClientId)
    (pointer : LinkedClientPointer) : List ControlAddress :=
  .linkedClient root.tenant client ::
    (loadedSlots record.uploaderKeyId pointer).map (slotAddress root.tenant client)

theorem view_of_new {pinned view publicKey scopes linked} :
    LinkedUploader.new pinned view publicKey scopes = some linked ↔
      linked.tenantId = pinned.tenantId ∧ linked.view = view ∧ linked.publicKey = publicKey ∧
        linked.scopes = scopes := by
  unfold LinkedUploader.new
  constructor
  · intro h
    split at h
    · obtain rfl := Option.some.inj h
      exact ⟨rfl, rfl, rfl, rfl⟩
    · cases h
  · obtain ⟨tenantId, view', publicKey', scopes', hderived⟩ := linked
    rintro ⟨rfl, rfl, rfl, rfl⟩
    exact dif_pos hderived

theorem returns_clientEvidence {found}
    (h : Returns (clientEvidence ed25519 control links root record client) found t) :
    (found = none ∧ control (.linkedClient root.tenant client) = .absent ∧
        t = [.linkedClient root.tenant client]) ∨
      ∃ linked served pinned pointer, found = some (linked, served) ∧
        Loaded ed25519 control links root record client linked served pinned pointer ∧
        t = loadedAsked root record client pointer := by
  obtain ⟨t', rfl, ⟨habsent, h1⟩ | ⟨served, hheld, h1⟩⟩ := read_bind.mp h
  · obtain ⟨rfl, rfl⟩ := returns_pure.mp h1
    exact .inl ⟨rfl, habsent, rfl⟩
  right
  obtain ⟨pinned, hpinned, h2⟩ := available_bind.mp h1
  obtain ⟨pointer, hpointer, h3⟩ := orUnavailable_bind.mp h2
  obtain ⟨view, t1, t2, hview', h4, rfl⟩ := returns_bind.mp h3
  obtain ⟨rfl, hview⟩ := returns_foldHistory.mp hview'
  obtain ⟨current, t3, t4, hcurrent, h5, rfl⟩ := returns_bind.mp h4
  obtain ⟨⟨publicKey, scopes⟩, hmembers, h6⟩ := ofExcept_bind.mp h5
  obtain ⟨linked, hlinked, h7⟩ := available_bind.mp h6
  obtain ⟨rfl, rfl⟩ := returns_pure.mp h7
  obtain ⟨-, rfl, -, -⟩ := view_of_new.mp hlinked
  have hslots : (loadedSlots record.uploaderKeyId pointer).foldlM
        (fetchSlot ed25519 control links pinned client) (new pointer) = some linked.view ∧
      t3 = (if record.uploaderKeyId ≠ pointer.keyId then [(true, pointer.epoch)] else []).map
        (slotAddress pinned.tenantId client) := by
    rw [loadedSlots, foldlM_append, hview]
    split at hcurrent
    · rename_i hkey
      obtain ⟨rfl, hrotated⟩ := returns_foldRotation.mp hcurrent
      simp [hkey, hrotated]
    · rename_i hkey
      obtain ⟨rfl, rfl⟩ := returns_pure.mp hcurrent
      simp [hkey]
  refine ⟨linked, served, pinned, pointer, rfl,
    ⟨hheld, hpinned, hpointer, hslots.1, publicKey, scopes, hmembers, hlinked⟩, ?_⟩
  simp [loadedAsked, loadedSlots, hslots.2, pinnedRoot_tenant hpinned]

variable {trust : TrustConfig} {declaredTenant : TenantId} {origin : ClientId}

theorem returns_relayGrant {found relay}
    (h : Returns (relayGrant ed25519 control links root origin relay) found t) :
    (origin = relay ∧ found = none ∧ t = []) ∨
      ∃ served pinned grant, origin ≠ relay ∧ found = some grant ∧
        control (.delegation root.tenant relay origin) = .held served ∧
        pinnedRoot root = some pinned ∧
        DelegationRecord.verify ed25519 pinned links served relay origin = .ok grant ∧
        t = [.delegation root.tenant relay origin] := by
  unfold relayGrant at h
  split at h
  · rename_i hsame
    obtain ⟨rfl, rfl⟩ := returns_pure.mp h
    exact .inl ⟨hsame, rfl, rfl⟩
  rename_i hrelay
  obtain ⟨t', rfl, ⟨-, h1⟩ | ⟨served, hheld, h1⟩⟩ := read_bind.mp h
  · exact absurd h1.result nofun
  obtain ⟨pinned, hpinned, h2⟩ := available_bind.mp h1
  obtain ⟨grant, hgrant, h3⟩ := orUnavailable_bind.mp h2
  obtain ⟨rfl, rfl⟩ := returns_pure.mp h3
  exact .inr ⟨served, pinned, grant, hrelay, rfl, hheld, hpinned, hgrant, rfl⟩

theorem not_returns_probeOthers {roots evidence} :
    ¬ Returns (probeOthers ed25519 control links declaredTenant client roots) evidence t := by
  induction roots generalizing t with
  | nil => exact fun h => absurd h.result nofun
  | cons other roots ih =>
    intro h
    unfold probeOthers at h
    split at h
    · exact ih h
    obtain ⟨linked, t1, t2, -, h1, -⟩ := returns_bind.mp h
    cases linked with
    | true => exact absurd h1.result nofun
    | false => exact ih h1

/-- What stands behind loaded evidence. -/
theorem returns_load {evidence}
    (h : Returns (loadUploaderEvidence ed25519 control links trust record declaredTenant client origin)
      evidence t) :
    ∃ root pinned pointer t', trust.rootFor declaredTenant = some root ∧
      Loaded ed25519 control links root record client evidence.uploader evidence.controlRecord pinned
        pointer ∧
      Returns (relayGrant ed25519 control links root origin evidence.uploader.view.pointer.clientId)
        evidence.delegation t' ∧
      t = loadedAsked root record client pointer ++ t' := by
  unfold loadUploaderEvidence at h
  split at h
  · exact absurd h.result nofun
  rename_i root hroot
  obtain ⟨found, t1, t2, hfound, h1, rfl⟩ := returns_bind.mp h
  rcases returns_clientEvidence hfound with
    ⟨rfl, -, -⟩ | ⟨linked, served, pinned, pointer, rfl, hloaded, rfl⟩
  · exact absurd h1 not_returns_probeOthers
  obtain ⟨delegation, t3, t4, hdelegation, h2, rfl⟩ := returns_bind.mp h1
  obtain ⟨rfl, rfl⟩ := returns_pure.mp h2
  exact ⟨root, pinned, pointer, t3, hroot, hloaded, hdelegation, by rw [append_nil]⟩

end

/-! ## The same verdict -/

/-- The uploaders agree on what a decision on this key reads. -/
structure SameEvidence (key : KeyId) (linked linked' : LinkedUploader) : Prop where
  tenantId : linked.tenantId = linked'.tenantId
  publicKey : linked.publicKey = linked'.publicKey
  scopes : linked.scopes = linked'.scopes
  pointer : linked.view.pointer = linked'.view.pointer
  revocations : linked.view.revocations = linked'.view.revocations
  rotation : key ≠ linked.view.pointer.keyId →
    linked.view.rotations.get linked.view.pointer.epoch =
      linked'.view.rotations.get linked.view.pointer.epoch

section
variable {ed25519 : Verifier} {authorization : AttemptAuthorization} {presented : PresentedRequest}
  {linked linked' : LinkedUploader} {delegation delegation' : Option DelegationRecord}
  {now : Timestamp}

section
variable (h : SameEvidence authorization.uploaderKeyId linked linked')
include h

theorem evaluateAt_same
    (at' : Timestamp) : linked.view.evaluateAt (attemptOf authorization presented) at' =
      linked'.view.evaluateAt (attemptOf authorization presented) at' := by
  have hstanding : linked.view.standing (attemptOf authorization presented) =
      linked'.view.standing (attemptOf authorization presented) := by
    unfold standing
    rw [h.pointer, h.revocations]
  unfold evaluateAt
  rw [hstanding, ← h.pointer]
  by_cases hkey : (attemptOf authorization presented).keyId = linked.view.pointer.keyId
  · rw [if_pos hkey, if_pos hkey]
  · rw [if_neg hkey, if_neg hkey, h.rotation hkey]

/-- The halves that decisions admit are the same: both carry the presented identifier. -/
theorem admittedHalf_same (htrusted : linked.view.evaluateAt (attemptOf authorization presented)
      authorization.authorizationTimestamp = .ok ()) :
    admittedHalf linked authorization = admittedHalf linked' authorization := by
  by_cases hkey : authorization.uploaderKeyId = linked.view.pointer.keyId
  · unfold admittedHalf
    rw [if_pos hkey, if_pos (h.pointer ▸ hkey), h.publicKey]
  obtain ⟨half, hhalf, hholds, hid⟩ := admittedHalf_eq htrusted
  obtain ⟨half', hhalf', hholds', hid'⟩ := admittedHalf_eq (evaluateAt_same h _ ▸ htrusted)
  have hback : Holds linked half' := by
    rcases hholds' with heq | ⟨rotation, hget, heq⟩
    · exact .inl (heq.trans h.publicKey.symm)
    · rw [← h.pointer, ← h.rotation hkey] at hget
      exact .inr ⟨rotation, hget, heq⟩
  rw [hhalf, hhalf', hholds.unique hback (hid.trans hid'.symm)]

theorem verifyRequest_same
    (hgrant : presented.originClientId ≠ presented.uploaderClientId → delegation = delegation') :
    verifyRequest ed25519 authorization presented (some linked) delegation now =
      verifyRequest ed25519 authorization presented (some linked') delegation' now := by
  have hanchor : anchor presented linked delegation = anchor presented linked' delegation' := by
    unfold anchor
    split
    · rfl
    · rename_i hrelay
      rw [hgrant hrelay, h.scopes]
  unfold verifyRequest
  dsimp only
  rw [h.tenantId, hanchor, h.scopes, attempt_new]
  dsimp only
  rw [← evaluateAt_same h]
  cases htrusted : linked.view.evaluateAt (attemptOf authorization presented)
      authorization.authorizationTimestamp with
  | error e => rfl
  | ok _ => rw [admittedHalf_same h htrusted]

end

end

/-! ## Evidence stands on sound addresses -/

section
variable {ed25519 : Verifier} {control : ControlStore} {links : Finmap fun _ : KeyId => List UInt8}
  {trust : TrustConfig} {root : TenantTrustRoot} {record : AttemptAuthorization}
  {client origin : ClientId} {linked : LinkedUploader} {served : List UInt8}
  {pinned : PinnedAuthorityRoot} {pointer : LinkedClientPointer}

namespace Loaded
variable (h : Loaded ed25519 control links root record client linked served pinned pointer)
include h

/-- The view of the loaded uploader has the verified pointer, and holds what the store keeps for the
slots that were read. -/
theorem view_reads : linked.view.pointer = pointer ∧
    Reads (stored ed25519 control links pinned client) holds content
      ((loadedSlots record.uploaderKeyId pointer).reverse ++ []) linked.view :=
  (record_laws.fetches stored_slot new_reads).2 _ h.viewed

section
variable (hroot : trust.rootFor root.tenant = some root)
include hroot

/-- Under the verified pointer of its client, an address is sound where its slot is in order. -/
theorem sound_iff {k} : Sound ed25519 control links trust (slotAddress root.tenant client k) ↔
    InOrder (stored ed25519 control links pinned client) Fits pointer k := by
  have htenant : addressTenant (slotAddress root.tenant client k) = root.tenant := by
    obtain ⟨_ | _, epoch⟩ := k <;> rfl
  have hpasses : ∀ envelope,
      Passes ed25519 control links pinned envelope (slotAddress root.tenant client k) ↔
        ∃ r, EvidenceHistory.verified ed25519 links pinned client envelope k = some r ∧ Fits pointer r := by
    obtain ⟨_ | _, epoch⟩ := k <;>
      simp [Passes, slotAddress, EvidenceHistory.verified, h.held, h.verified, toOption_eq_some,
        ← record_new, ClientTrustView.record]
  unfold Sound InOrder stored
  rw [htenant, hroot, pinnedRoot_tenant h.pins]
  cases control (slotAddress root.tenant client k) with
  | absent | failed => simp
  | held envelope => simp [h.pins, hpasses]

theorem asked_sound :
    ∀ address ∈ loadedAsked root record client pointer, Sound ed25519 control links trust address := by
  refine forall_mem_cons.mpr ⟨?_, forall_mem_map.mpr fun k hk => ?_⟩
  · exact .inr ⟨served, root, pinned, h.held, hroot, h.pins, pointer, h.verified⟩
  · exact (h.sound_iff hroot).mpr ((record_laws.fetches stored_slot new_reads).1.mp ⟨_, h.viewed⟩ k hk)

end

/-- The loaded uploader and the one with the whole history agree on what the decision reads. -/
theorem same_full (hsound : ∀ k ∈ fullSlots pointer,
      InOrder (stored ed25519 control links pinned client) Fits pointer k) :
    ∃ linked', fullUploader ed25519 control links root client = some linked' ∧
      SameEvidence record.uploaderKeyId linked linked' := by
  obtain ⟨full, hfull⟩ := (record_laws.fetches stored_slot new_reads).1.mpr hsound
  obtain ⟨hpointer', hreads'⟩ := (record_laws.fetches stored_slot new_reads).2 full hfull
  obtain ⟨hpointer, hreads⟩ := h.view_reads
  obtain ⟨publicKey, scopes, hmembers, hnew⟩ := h.members
  obtain ⟨htenant, -, rfl, rfl⟩ := view_of_new.mp hnew
  have hsame : linked.view.pointer = full.pointer := hpointer.trans hpointer'.symm
  have hderived : KeyId.fromPublicKey linked.publicKey = full.pointer.keyId := by
    rw [linked.derived, hsame]
  refine ⟨⟨pinned.tenantId, full, linked.publicKey, linked.scopes, hderived⟩, ?_,
    htenant, rfl, rfl, hsame, ?_, fun hkey => ?_⟩
  · rw [fullUploader, h.held]
    refine Option.bind_eq_some_iff.mpr ⟨pinned, h.pins, ?_⟩
    refine Option.bind_eq_some_iff.mpr ⟨pointer, toOption_eq_some.mpr h.verified, ?_⟩
    refine Option.bind_eq_some_iff.mpr ⟨full, fullView_eq.trans hfull, ?_⟩
    refine Option.bind_eq_some_iff.mpr ⟨_, toOption_eq_some.mpr hmembers, ?_⟩
    exact dif_pos hderived
  · -- both have read every revocation
    have hheld : ∀ epoch, linked.view.holds (false, epoch) = full.holds (false, epoch) :=
      fun epoch => hreads.congr hreads' (by simp [loadedSlots, fullSlots])
    exact OrderedMap.ext_get fun epoch => Option.map_injective Sum.inl_injective (hheld epoch)
  · -- and the rotation to the pointer's epoch
    rw [hpointer] at hkey ⊢
    have hheld : linked.view.holds (true, pointer.epoch) = full.holds (true, pointer.epoch) :=
      hreads.congr hreads' (by simp [loadedSlots, fullSlots, hkey, pointer.positive])
    exact Option.map_injective Sum.inr_injective hheld

end Loaded

theorem relayGrant_sound (hroot : trust.rootFor root.tenant = some root) {relay found t}
    (h : Returns (relayGrant ed25519 control links root origin relay) found t) :
    ∀ address ∈ t, Sound ed25519 control links trust address := by
  rcases returns_relayGrant h with ⟨-, -, rfl⟩ | ⟨served, pinned, grant, -, -, hheld, hpinned, hgrant, rfl⟩
  · exact nofun
  · intro address hmem
    obtain rfl := mem_singleton.mp hmem
    exact .inr ⟨served, root, pinned, hheld, hroot, hpinned, grant, hgrant⟩

end

/-! ## Linked nowhere, and linked elsewhere -/

theorem allowlist_raises (scopes : List (String × Json.Value)) (name : String) :
    Raises (· ≠ .unlinked) (allowlist scopes name) := by
  unfold allowlist
  split
  · refine raises_mapM (fun entry => ?_) _
    split
    · exact raises_ok
    · exact raises_error nofun
  · exact raises_error nofun

theorem memberScopes_raises (object : List (String × Json.Value)) :
    Raises (· ≠ .unlinked) (memberScopes object) := by
  unfold memberScopes
  split
  · refine (allowlist_raises _ _).then fun harnesses => ?_
    refine Raises.then ?_ fun harnessIds => ?_
    · refine raises_mapM (fun text => ?_) _
      exact raises_mapError fun _ => nofun
    refine (allowlist_raises _ _).then fun operations => ?_
    refine Raises.then ?_ fun operationIds => ?_
    · refine raises_mapM (fun text => ?_) _
      split
      · exact raises_ok
      · exact raises_error nofun
    · split
      · exact raises_ok
      · exact raises_error nofun
  · exact raises_error nofun

theorem linkedMembers_raises (envelope : List UInt8) :
    Raises (· ≠ .unlinked) (linkedMembers envelope) := by
  unfold linkedMembers
  split
  · refine Raises.then ?_ fun publicKey => (memberScopes_raises _).then fun scopes => raises_ok
    unfold memberPublicKey
    split
    · exact raises_mapError fun _ => nofun
    · exact raises_error nofun
  · exact raises_error nofun

section
variable {ed25519 : Verifier} {control : ControlStore} {links : Finmap fun _ : KeyId => List UInt8}
  {trust : TrustConfig} {root : TenantTrustRoot} {record : AttemptAuthorization} {client : ClientId}

theorem raises_read {α : Type} {P : EvidenceRejection → Prop} {address}
    {k : Option (List UInt8) → Loading α} (hP : P .registryUnavailable)
    (hnone : Raises P (k none).result) (hsome : ∀ envelope, Raises P (k (some envelope)).result) :
    Raises P (read control address >>= k).result := by
  refine raises_bind (raises_bind (raises_ok (a := control address)) fun served => ?_) fun answer => ?_
  · cases served with
    | held | absent => exact raises_ok
    | failed => exact raises_error hP
  · cases answer with
    | none => exact hnone
    | some envelope => exact hsome envelope

theorem raises_available {α : Type} {P : EvidenceRejection → Prop} (hP : P .registryUnavailable)
    (x : Option α) : Raises P (available x).result := by
  cases x with
  | none => exact raises_error hP
  | some a => exact raises_ok

theorem raises_orUnavailable {ε α : Type} {P : EvidenceRejection → Prop}
    (hP : P .registryUnavailable) (x : Except ε α) : Raises P (orUnavailable x).result :=
  raises_mapError fun _ => hP

theorem clientEvidence_raises : Raises (· ≠ .unlinked)
    (clientEvidence ed25519 control links root record client).result := by
  refine raises_read nofun raises_ok fun served => ?_
  refine raises_bind (raises_available nofun _) fun pinned => ?_
  refine raises_bind (raises_orUnavailable nofun _) fun pointer => ?_
  refine raises_bind (raises_foldlM (fun view epoch => ?_) _ _) fun view => raises_bind ?_ fun view => ?_
  · exact raises_read nofun raises_ok fun envelope =>
      raises_bind (raises_orUnavailable nofun _) fun verified => raises_orUnavailable nofun _
  · split
    · exact raises_read nofun raises_ok fun envelope =>
        raises_bind (raises_orUnavailable nofun _) fun verified => raises_orUnavailable nofun _
    · exact raises_ok
  · exact raises_bind (linkedMembers_raises served) fun members =>
      raises_bind (raises_available nofun _) fun uploader => raises_ok

theorem relayGrant_raises {origin relay} : Raises (· ≠ .unlinked)
    (relayGrant ed25519 control links root origin relay).result := by
  unfold relayGrant
  split
  · exact raises_ok
  · exact raises_read nofun (raises_error nofun) fun served =>
      raises_bind (raises_available nofun _) fun pinned =>
        raises_bind (raises_orUnavailable nofun _) fun grant => raises_ok

/-- A probe of a tenant: an answer tells whether a record is held. -/
theorem probePointer_ok {linked}
    (h : (probePointer ed25519 control links root client).result = .ok linked) :
    linked = false ↔ control (.linkedClient root.tenant client) = .absent := by
  obtain ⟨t', -, ⟨habsent, h1⟩ | ⟨served, hheld, h1⟩⟩ := read_bind.mp ⟨h, rfl⟩
  · exact iff_of_true (returns_pure.mp h1).1 habsent
  obtain ⟨pinned, -, h2⟩ := available_bind.mp h1
  obtain ⟨pointer, -, h3⟩ := orUnavailable_bind.mp h2
  obtain ⟨rfl, -⟩ := returns_pure.mp h3
  exact iff_of_false nofun (by rw [hheld]; exact nofun)

/-- A probe of a sound address has an answer. -/
theorem probePointer_of_sound (hroot : trust.rootFor root.tenant = some root)
    (h : Sound ed25519 control links trust (.linkedClient root.tenant client)) :
    ∃ linked, (probePointer ed25519 control links root client).result = .ok linked := by
  rcases h with habsent | ⟨envelope, root', pinned, hheld, hroot', hpinned, pointer, hpointer⟩
  · have hreturns : Returns (probePointer ed25519 control links root client) false _ :=
      read_bind.mpr ⟨[], rfl, .inl ⟨habsent, returns_pure.mpr ⟨rfl, rfl⟩⟩⟩
    exact ⟨false, hreturns.result⟩
  obtain rfl := Option.some.inj (hroot.symm.trans hroot')
  have hreturns : Returns (probePointer ed25519 control links root client) true _ :=
    read_bind.mpr ⟨[], rfl, .inr ⟨envelope, hheld, available_bind.mpr ⟨pinned, hpinned,
      orUnavailable_bind.mpr ⟨pointer, hpointer, returns_pure.mpr ⟨rfl, rfl⟩⟩⟩⟩⟩
  exact ⟨true, hreturns.result⟩

variable {declaredTenant : TenantId}

theorem probeOthers_unlinked {roots : List TenantTrustRoot}
    (h : (probeOthers ed25519 control links declaredTenant client roots).result = .error .unlinked) :
    ∀ root ∈ roots, root.tenant ≠ declaredTenant →
      control (.linkedClient root.tenant client) = .absent := by
  induction roots with
  | nil => exact nofun
  | cons other roots ih =>
    unfold probeOthers at h
    split at h
    · rename_i hdeclared
      exact forall_mem_cons.mpr ⟨fun hne => absurd hdeclared hne, ih h⟩
    rcases error_bind.mp h with herror | ⟨linked, hlinked, h1⟩
    · have hraised : Raises (· ≠ .unlinked)
          (probePointer ed25519 control links other client).result :=
        raises_read nofun raises_ok fun served => raises_bind (raises_available nofun _) fun pinned =>
          raises_bind (raises_orUnavailable nofun _) fun pointer => raises_ok
      exact absurd rfl (hraised _ herror)
    · cases linked with
      | true => cases h1
      | false => exact forall_mem_cons.mpr ⟨fun _ => (probePointer_ok hlinked).mp rfl, ih h1⟩

theorem probeOthers_forbidden {roots} (hconfigured : roots ⊆ trust.roots)
    (hsound : ∀ root ∈ roots, root.tenant ≠ declaredTenant →
      Sound ed25519 control links trust (.linkedClient root.tenant client))
    (hlinked : ∃ root ∈ roots, root.tenant ≠ declaredTenant ∧
      control (.linkedClient root.tenant client) ≠ .absent) :
    (probeOthers ed25519 control links declaredTenant client roots).result = .error .forbidden := by
  induction roots with
  | nil => exact absurd hlinked nofun
  | cons other roots ih =>
    obtain ⟨hother, hrest⟩ := cons_subset.mp hconfigured
    obtain ⟨hsound1, hsound2⟩ := forall_mem_cons.mp hsound
    rw [exists_mem_cons_iff] at hlinked
    unfold probeOthers
    split
    · rename_i hdeclared
      exact ih hrest hsound2 (hlinked.resolve_left fun h => h.1 hdeclared)
    · rename_i hne
      obtain ⟨linked, hprobed⟩ := probePointer_of_sound (rootFor_eq_some.mpr ⟨hother, rfl⟩) (hsound1 hne)
      refine error_bind.mpr (.inr ⟨linked, hprobed, ?_⟩)
      cases linked with
      | true => rfl
      | false =>
        exact ih hrest hsound2 (hlinked.resolve_left fun h => h.2 ((probePointer_ok hprobed).mp rfl))

variable {origin : ClientId}

theorem load_unlinked
    (h : (loadUploaderEvidence ed25519 control links trust record declaredTenant client origin).result =
      .error .unlinked) :
    ∀ root ∈ trust.roots, control (.linkedClient root.tenant client) = .absent := by
  unfold loadUploaderEvidence at h
  split at h
  · cases h
  rename_i declared hdeclared
  obtain ⟨hmem, htenant⟩ := rootFor_eq_some.mp hdeclared
  rcases error_bind.mp h with herror | ⟨found, hfound, h1⟩
  · exact absurd rfl (clientEvidence_raises _ herror)
  rcases returns_clientEvidence ⟨hfound, rfl⟩ with
    ⟨rfl, habsent, -⟩ | ⟨linked, served, pinned, pointer, rfl, -, -⟩
  · intro root hroot
    by_cases hsame : root.tenant = declaredTenant
    · rw [hsame, ← htenant]
      exact habsent
    · exact probeOthers_unlinked h1 root hroot hsame
  · rcases error_bind.mp h1 with herror | ⟨grant, -, h2⟩
    · exact absurd rfl (relayGrant_raises _ herror)
    · cases h2

theorem load_forbidden
    (hsound : ∀ root ∈ trust.roots, Sound ed25519 control links trust (.linkedClient root.tenant client))
    (hdeclared : control (.linkedClient declaredTenant client) = .absent)
    (hlinked : ∃ root ∈ trust.roots, control (.linkedClient root.tenant client) ≠ .absent) :
    (loadUploaderEvidence ed25519 control links trust record declaredTenant client origin).result =
      .error .forbidden := by
  unfold loadUploaderEvidence
  split
  · rfl
  rename_i declared hroot
  obtain ⟨-, rfl⟩ := rootFor_eq_some.mp hroot
  have hread : Returns (clientEvidence ed25519 control links declared record client) none _ :=
    read_bind.mpr ⟨[], rfl, .inl ⟨hdeclared, returns_pure.mpr ⟨rfl, rfl⟩⟩⟩
  refine error_bind.mpr (.inr ⟨none, hread.result, ?_⟩)
  refine probeOthers_forbidden (List.Subset.refl _) (fun root hmem _ => hsound root hmem) ?_
  obtain ⟨root, hmem, hheld⟩ := hlinked
  refine ⟨root, hmem, fun heq => hheld ?_, hheld⟩
  rw [heq]
  exact hdeclared

end

/-! ## The evidence decides like the history -/

theorem evidence_decides_like_history (ed25519 : Verifier) (control : ControlStore)
    (links : Finmap fun _ : KeyId => List UInt8) (trust : TrustConfig) (record : AttemptAuthorization)
    (declaredTenant : TenantId) (uploader origin : ClientId) :
    let loading := loadUploaderEvidence ed25519 control links trust record declaredTenant uploader origin
    (∀ evidence, loading.result = .ok evidence →
      (∀ epoch, 1 ≤ epoch → epoch ≤ evidence.uploader.view.pointer.epoch →
        Sound ed25519 control links trust (.revocation declaredTenant uploader epoch) ∧
          Sound ed25519 control links trust (.rotation declaredTenant uploader epoch)) →
      ∃ root linked, trust.rootFor declaredTenant = some root ∧
        fullUploader ed25519 control links root uploader = some linked ∧
        ∀ (presented : PresentedRequest) (now : Timestamp), presented.tenantId = declaredTenant →
          presented.uploaderClientId = uploader → presented.originClientId = origin →
          authorizeAttempt ed25519 record presented evidence now =
            (verifyRequest ed25519 record presented (some linked)
              (storedDelegation ed25519 control links root uploader origin) now).mapError classify) ∧
    ((∃ address ∈ loading.asked, ¬ Sound ed25519 control links trust address) →
      ∃ rejection, loading.result = .error rejection) ∧
    (loading.result = .error .unlinked →
      ∀ root ∈ trust.roots, control (.linkedClient root.tenant uploader) = .absent) ∧
    ((∀ root ∈ trust.roots,
        Sound ed25519 control links trust (.linkedClient root.tenant uploader)) →
      control (.linkedClient declaredTenant uploader) = .absent →
      (∃ root ∈ trust.roots, control (.linkedClient root.tenant uploader) ≠ .absent) →
      loading.result = .error .forbidden) := by
  intro loading
  refine ⟨fun evidence hok hsound => ?_, fun ⟨address, hasked, hfault⟩ => ?_, load_unlinked,
    load_forbidden⟩
  · obtain ⟨root, pinned, pointer, t, hroot, hloaded, hgrant, -⟩ := returns_load ⟨hok, rfl⟩
    obtain ⟨-, rfl⟩ := rootFor_eq_some.mp hroot
    rw [hloaded.view_reads.1] at hsound
    have hslots : ∀ k ∈ fullSlots pointer,
        Sound ed25519 control links trust (slotAddress root.tenant uploader k) := by
      intro k hk
      obtain ⟨epoch, hepoch, hmem⟩ := mem_flatMap.mp hk
      obtain ⟨hpos, hlt⟩ := mem_range'_1.mp hepoch
      obtain ⟨hrevocation, hrotation⟩ := hsound epoch hpos (by omega)
      rcases mem_pair.mp hmem with rfl | rfl
      · exact hrevocation
      · exact hrotation
    obtain ⟨linked, hlinked, hsame⟩ :=
      hloaded.same_full fun k hk => (hloaded.sound_iff hroot).mp (hslots k hk)
    refine ⟨root, linked, hroot, hlinked, fun presented now _ huploader horigin => ?_⟩
    have hclient : evidence.uploader.view.pointer.clientId = uploader := by
      rw [hloaded.view_reads.1]
      exact LinkedClientPointer.clientId_of_verify hloaded.verified
    rw [hclient] at hgrant
    refine congrArg _ (verifyRequest_same hsame fun hrelay => ?_)
    rw [huploader, horigin] at hrelay
    -- the grant of the evidence is the one that the store holds
    rcases returns_relayGrant hgrant with
      ⟨hsame, -⟩ | ⟨served, pinned, grant, -, hfound, hheld, hpinned, hgrant, -⟩
    · exact absurd hsame hrelay
    · rw [hfound, storedDelegation, hheld]
      exact (Option.bind_eq_some_iff.mpr ⟨pinned, hpinned, toOption_eq_some.mpr hgrant⟩).symm
  · cases hresult : loading.result with
    | error rejection => exact ⟨rejection, rfl⟩
    | ok evidence =>
      obtain ⟨root, pinned, pointer, t, hroot, hloaded, hgrant, heq⟩ := returns_load ⟨hresult, rfl⟩
      obtain ⟨-, rfl⟩ := rootFor_eq_some.mp hroot
      rw [heq] at hasked
      refine absurd ?_ hfault
      rcases mem_append.mp hasked with hmem | hmem
      · exact hloaded.asked_sound hroot address hmem
      · exact relayGrant_sound hroot hgrant address hmem

/-! ## A relay inside the overlap -/

namespace Sample
open Auth.AuthorityPublication.Sample Auth.ControlRecord Auth.RequestVerification.Sample
open Auth.TrustPublication Auth.TrustPublication.Sample Auth.TrustView.Sample

def root : TenantTrustRoot := ⟨tenant, WireText.text first⟩

def otherRoot : TenantTrustRoot := ⟨origin, WireText.text first⟩

def trust : TrustConfig where
  roots := [root, otherRoot]
  distinct := by
    have hdistinct : (tenant : TenantId) ≠ origin := grant.distinct
    simp [root, otherRoot, hdistinct]

def linkedPayload : List (String × Json.Value) :=
  [("client_id", .text (WireText.text (tenant : ClientId))),
   ("key_id", .text (WireText.text (KeyId.fromPublicKey second))), ("key_algorithm", .text "ed25519"),
   ("public_key", .text (WireText.text second)), ("scopes", grant.scopes.toJson),
   ("authorization_epoch", .int (Int64.ofNat 2))]

theorem linked_payload : Payload linkedClientFamily linkedPayload where
  names := rfl
  values := by simp +decide [linkedPayload, scopes_moderate, -Lib.Utf8.utf8_length]

/-- The client at its second epoch, under its second half. -/
def linkedEnvelope (scheme : SignatureScheme) (seed : scheme.Seed) : List UInt8 :=
  envelope scheme seed tenant linkedClientFamily linkedPayload newYear

section
variable {scheme : SignatureScheme} {seed : scheme.Seed}

theorem scopes_own : ("scopes", grant.scopes.toJson) ∈ linkedPayload := by simp [linkedPayload]

theorem linked_verified : LinkedClientPointer.verify scheme.verify (scheme.pinned seed tenant) ∅
    (linkedEnvelope scheme seed) tenant = .ok pointer := by
  have halgorithm : ("key_algorithm", Json.Value.text "ed25519") ∈ linkedPayload := by
    simp [linkedPayload]
  refine bind_eq_ok.mpr ⟨_, linked_payload.begin_eq rfl, ?_⟩
  refine bind_eq_ok.mpr ⟨tenant, linked_payload.read_own (by simp [linkedPayload]), ?_⟩
  refine bind_eq_ok.mpr ⟨second, linked_payload.read_own (by simp [linkedPayload]), ?_⟩
  refine bind_eq_ok.mpr ⟨KeyId.fromPublicKey second, linked_payload.read_own (by simp [linkedPayload]), ?_⟩
  rw [if_neg (not_not.mpr rfl), linked_payload.textMember_own halgorithm, if_neg (not_not.mpr rfl),
    linked_payload.get_own scopes_own, if_neg (by decide)]
  have hepoch : ("authorization_epoch", Json.Value.int (Int64.ofNat 2)) ∈ linkedPayload := by
    simp [linkedPayload]
  refine bind_eq_ok.mpr ⟨_, linked_payload.epoch_own (by decide) (by decide) hepoch, ?_⟩
  exact bind_eq_ok.mpr ⟨_, linked_payload.conclude_eq newYear_calendar, rfl⟩

theorem linked_members : linkedMembers (linkedEnvelope scheme seed) = .ok (second, scopes) := by
  have hkey : ("public_key", Json.Value.text (WireText.text second)) ∈ linkedPayload := by
    simp [linkedPayload]
  have hparse : Json.parse (linkedEnvelope scheme seed) = .ok (.object (Payload.document scheme seed
      linkedClientFamily tenant linkedPayload newYear (scheme.authorityKeyId seed))) :=
    linked_payload.parse_sealed
  rw [linkedMembers, hparse]
  refine bind_eq_ok.mpr ⟨second, ?_, bind_eq_ok.mpr ⟨scopes, ?_, rfl⟩⟩
  · rw [memberPublicKey, linked_payload.get_own hkey]
    exact congrArg (Except.mapError _) (WireText.fromStr_text second)
  rw [memberScopes, linked_payload.get_own scopes_own]
  refine bind_eq_ok.mpr ⟨["claude-code"], rfl, bind_eq_ok.mpr ⟨[harness], ?_, ?_⟩⟩
  · have hread : (WireText.fromStr "claude-code" : Except GrammarError HarnessId) = .ok harness :=
      WireText.fromStr_text harness
    rfl
  have hnew : LinkedClientScopes.new [harness] [.ingest] = some scopes := by
    simp [LinkedClientScopes.new, sortBy, scopes]
  refine bind_eq_ok.mpr ⟨["ingest"], rfl, bind_eq_ok.mpr ⟨[.ingest], rfl, ?_⟩⟩
  rw [hnew]

end

/-- The linked-client record, the rotation to its half and the grant; nothing is revoked. -/
def relayStore : ControlStore := fun address =>
  if address = .linkedClient tenant tenant then .held (linkedEnvelope scheme ())
  else if address = .rotation tenant tenant 2 then .held rotated.envelope
  else if address = .delegation tenant tenant origin then .held delegated.envelope
  else .absent

theorem root_pinned : pinnedRoot root = some (scheme.pinned () tenant) := by
  have hread : (WireText.fromStr root.authority : Except GrammarError Ed25519PublicKey) = .ok first :=
    WireText.fromStr_text first
  rfl

theorem rotated_verified : RotationRecord.verify scheme.verify (scheme.pinned () tenant) ∅
    rotated.envelope tenant 2 = .ok toSecond :=
  (rotation_verified (le_refl 2) (by decide) newYear_calendar).trans (dif_pos first_ne_second)

theorem unrevoked (epoch : Nat) : relayStore (.revocation tenant tenant epoch) = .absent := by
  simp [relayStore]

theorem rotation_served : relayStore (.rotation tenant tenant 2) = .held rotated.envelope := by
  simp [relayStore]

theorem trust_root : trust.rootFor tenant = some root := by simp [TrustConfig.rootFor, trust, root]

theorem history_revoked : ((List.range' 1 pointer.epoch).map (Prod.mk false)).foldlM
    (fetchSlot scheme.verify relayStore ∅ (scheme.pinned () tenant) tenant) (new pointer) =
      some (new pointer) := by
  have hround : ∀ epoch, fetchSlot scheme.verify relayStore ∅ (scheme.pinned () tenant) tenant
      (new pointer) (false, epoch) = some (new pointer) := fun epoch =>
    Option.bind_eq_some_iff.mpr ⟨none, stored_of_absent (unrevoked epoch), rfl⟩
  exact Option.bind_eq_some_iff.mpr
    ⟨_, hround 1, Option.bind_eq_some_iff.mpr ⟨_, hround 2, rfl⟩⟩

theorem history_rotated : fetchSlot scheme.verify relayStore ∅ (scheme.pinned () tenant) tenant
    (new pointer) (true, pointer.epoch) = some view := by
  have hverified : EvidenceHistory.verified scheme.verify ∅ (scheme.pinned () tenant) tenant
      rotated.envelope (true, 2) = some (.rotation toSecond) :=
    congrArg (fun verdict => verdict.toOption.map TrustRecord.rotation) rotated_verified
  have hserved : relayStore (slotAddress (scheme.pinned () tenant).tenantId tenant
      (true, pointer.epoch)) = .held rotated.envelope := rotation_served
  have hstored : stored scheme.verify relayStore ∅ (scheme.pinned () tenant) tenant
      (true, pointer.epoch) = some (some (.rotation toSecond)) := by
    rw [stored, hserved]
    exact congrArg (Option.map some) hverified
  rw [fetchSlot, fetch, hstored, Option.bind_some, Option.elim_some]
  exact toOption_eq_some.mpr (recordRotation_ok.mpr ⟨rotation_fits, by simp [new], rfl, rfl, rfl⟩)

/-- What is loaded for the relay, and the questions that were put. -/
theorem relay_loaded : Returns (loadUploaderEvidence scheme.verify relayStore ∅ trust authorization
    tenant tenant origin) ⟨linked, some grant, linkedEnvelope scheme ()⟩
      [.linkedClient tenant tenant, .revocation tenant tenant 1, .revocation tenant tenant 2,
        .rotation tenant tenant 2, .delegation tenant tenant origin] := by
  have hheld : relayStore (.linkedClient root.tenant tenant) = .held (linkedEnvelope scheme ()) := if_pos rfl
  unfold loadUploaderEvidence
  refine returns_bind.mpr ⟨some (linked, linkedEnvelope scheme ()), [_, _, _, _], [_], ?_, ?_, rfl⟩
  · refine read_bind.mpr ⟨_, rfl, .inr ⟨_, hheld, available_bind.mpr ⟨_, root_pinned, ?_⟩⟩⟩
    refine orUnavailable_bind.mpr ⟨_, linked_verified, ?_⟩
    refine returns_bind.mpr ⟨_, _, _, returns_foldHistory.mpr ⟨rfl, history_revoked⟩, ?_, rfl⟩
    have hother : authorization.uploaderKeyId ≠ pointer.keyId := first_ne_second
    rw [if_pos hother]
    refine returns_bind.mpr ⟨_, _, _, returns_foldRotation.mpr ⟨rfl, history_rotated⟩, ?_, rfl⟩
    refine ofExcept_bind.mpr ⟨_, linked_members, available_bind.mpr ⟨linked, dif_pos rfl, ?_⟩⟩
    exact returns_pure.mpr ⟨rfl, rfl⟩
  · refine returns_bind.mpr ⟨some grant, [_], [], ?_, returns_pure.mpr ⟨rfl, rfl⟩, rfl⟩
    unfold relayGrant
    have hrelay : origin ≠ linked.view.pointer.clientId := grant.distinct.symm
    have hserved : relayStore (.delegation tenant tenant origin) = .held delegated.envelope := by
      simp [relayStore]
    refine read_bind.mpr ⟨_, rfl, .inr ⟨_, hserved, available_bind.mpr ⟨_, root_pinned, ?_⟩⟩⟩
    exact orUnavailable_bind.mpr ⟨_, delegation_verified (le_refl 1) (by decide) newYear_calendar
      grant.distinct, returns_pure.mpr ⟨rfl, rfl⟩⟩

/-- The records of the client pass. -/
theorem history_sound (epoch : Nat) (hle : epoch ≤ 2) :
    Sound scheme.verify relayStore ∅ trust (.revocation tenant tenant epoch) ∧
      Sound scheme.verify relayStore ∅ trust (.rotation tenant tenant epoch) := by
  refine ⟨.inl (unrevoked epoch), ?_⟩
  by_cases hcurrent : epoch = 2
  · subst hcurrent
    refine .inr ⟨_, root, _, rotation_served, trust_root, root_pinned, linkedEnvelope scheme (), pointer,
      toSecond, if_pos rfl, linked_verified, rotated_verified, ?_⟩
    exact rotation_folds rfl rfl rfl
  · exact .inl (by simp [relayStore, hcurrent])

theorem linked_sound (root' : TenantTrustRoot) (h : root' ∈ trust.roots) :
    Sound scheme.verify relayStore ∅ trust (.linkedClient root'.tenant tenant) := by
  have hdistinct : (origin : TenantId) ≠ tenant := grant.distinct.symm
  simp only [trust, mem_cons, not_mem_nil, or_false] at h
  rcases h with rfl | rfl
  · exact .inr ⟨linkedEnvelope scheme (), root, _, if_pos rfl, trust_root, root_pinned, pointer,
      linked_verified⟩
  · exact .inl (by simp [relayStore, otherRoot, hdistinct])

end Sample

open AgentArchivist.Auth.AuthorityPublication.Sample AgentArchivist.Auth.RequestVerification.Sample in
open AgentArchivist.Auth.TrustPublication.Sample Sample in
/-- A relay that presents its previous half is decided on the whole history; a store that fails gives
no evidence, an empty one tells that the client is unlinked, and under another tenant than its own the
client is forbidden. -/
theorem sample_evidence_decided :
    (∃ evidence root linked,
      (loadUploaderEvidence scheme.verify relayStore ∅ trust authorization tenant tenant origin).result =
        .ok evidence ∧
      fullUploader scheme.verify relayStore ∅ root tenant = some linked ∧
      authorizeAttempt scheme.verify authorization presented evidence newYear =
        (verifyRequest scheme.verify authorization presented (some linked)
          (storedDelegation scheme.verify relayStore ∅ root tenant origin) newYear).mapError classify) ∧
    (∃ rejection, (loadUploaderEvidence scheme.verify (fun _ => .failed) ∅ trust authorization tenant
      tenant origin).result = .error rejection) ∧
    ((loadUploaderEvidence scheme.verify (fun _ => .absent) ∅ trust authorization tenant tenant
        origin).result = .error .unlinked ∧
      ∀ root ∈ trust.roots, (fun _ => Served.absent) (ControlAddress.linkedClient root.tenant tenant) =
        .absent) ∧
    (loadUploaderEvidence scheme.verify relayStore ∅ trust authorization origin tenant origin).result =
      .error .forbidden := by
  have hdistinct : (origin : TenantId) ≠ tenant := grant.distinct.symm
  refine ⟨?_, ?_, ?_, ?_⟩
  · obtain ⟨root, linked, -, hlinked, hverdict⟩ := (evidence_decides_like_history scheme.verify relayStore ∅
      trust authorization tenant tenant origin).1 _ relay_loaded.result
        fun epoch _ hle => history_sound epoch hle
    exact ⟨_, root, linked, relay_loaded.result, hlinked, hverdict presented newYear rfl rfl rfl⟩
  · refine (evidence_decides_like_history scheme.verify (fun _ => .failed) ∅ trust authorization tenant
      tenant origin).2.1 ⟨.linkedClient tenant tenant, ?_, ?_⟩
    · unfold loadUploaderEvidence
      exact mem_singleton_self _
    · rintro (h | ⟨_, _, _, h, _⟩) <;> cases h
  · have hunlinked : (loadUploaderEvidence scheme.verify (fun _ => .absent) ∅ trust authorization tenant
        tenant origin).result = .error .unlinked := by
      unfold loadUploaderEvidence
      rfl
    exact ⟨hunlinked, (evidence_decides_like_history scheme.verify (fun _ => .absent) ∅ trust
      authorization tenant tenant origin).2.2.1 hunlinked⟩
  · refine (evidence_decides_like_history scheme.verify relayStore ∅ trust authorization origin tenant
      origin).2.2.2 linked_sound (by simp [relayStore, hdistinct]) ⟨root, mem_cons_self, ?_⟩
    rw [show relayStore (.linkedClient root.tenant tenant) = .held (linkedEnvelope scheme ()) from if_pos rfl]
    exact nofun

end AgentArchivist.Server.EvidenceVerdict
