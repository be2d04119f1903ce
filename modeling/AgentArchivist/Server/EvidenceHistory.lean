import AgentArchivist.Server.Evidence

/-! # The evidence and the whole history

The evidence is loaded lazily. Against it stands the uploader with every revocation and every
rotation up to the pointer's epoch folded in, and the grant that the store holds for the pair:
the two decide alike. What is read and does not pass is never evidence, and who is linked
nowhere is told from who is linked elsewhere. -/
namespace AgentArchivist.Server.EvidenceHistory
open Lib Auth
open Authority Delegation RequestVerification TrustView TrustView.ClientTrustView Asked Asked.Asked
open Fallible Protocol.Vocabulary Server.Evidence TrustView.TrustRecord WriteOnce

/-! ## The whole history -/

/-- What the store holds at an address, verified and folded in; nothing where it is held and does
not pass. -/
def foldStored {R : Type} (served : Served) (verify : List UInt8 → Except RevocationError R)
    (fold : R → Except RevocationError ClientTrustView) (view : ClientTrustView) :
    Option ClientTrustView :=
  match served with
  | .absent => some view
  | .failed => none
  | .held envelope => (verify envelope).toOption.bind fun record => (fold record).toOption

section
variable (ed25519 : Verifier) (control : ControlStore) (links : Finmap fun _ : KeyId => List UInt8)

def revoke (pinned : PinnedAuthorityRoot) (client : ClientId) (view : ClientTrustView) (epoch : Nat) :
    Option ClientTrustView :=
  foldStored (control (.revocation pinned.tenantId client epoch))
    (RevocationRecord.verify ed25519 pinned links · client epoch) view.recordRevocation view

def rotate (pinned : PinnedAuthorityRoot) (client : ClientId) (view : ClientTrustView) (epoch : Nat) :
    Option ClientTrustView :=
  foldStored (control (.rotation pinned.tenantId client epoch))
    (RotationRecord.verify ed25519 pinned links · client epoch) view.recordRotation view

/-- Every revocation and every rotation up to the pointer's epoch. -/
def fullView (pinned : PinnedAuthorityRoot) (client : ClientId) (pointer : LinkedClientPointer) :
    Option ClientTrustView :=
  (List.range' 1 pointer.epoch).foldlM (fun view epoch =>
    (revoke ed25519 control links pinned client view epoch).bind fun view =>
      rotate ed25519 control links pinned client view epoch) (.new pointer)

/-- The uploader with its whole history, where everything that is held of it passes. -/
def fullUploader (root : TenantTrustRoot) (client : ClientId) : Option LinkedUploader :=
  match control (.linkedClient root.tenant client) with
  | .held served =>
    (pinnedRoot root).bind fun pinned =>
      (LinkedClientPointer.verify ed25519 pinned links served client).toOption.bind fun pointer =>
        (fullView ed25519 control links pinned client pointer).bind fun view =>
          (linkedMembers served).toOption.bind fun (publicKey, scopes) =>
            LinkedUploader.new pinned view publicKey scopes
  | _ => none

/-- The grant that the store holds for a pair. -/
def storedDelegation (root : TenantTrustRoot) (relay origin : ClientId) : Option DelegationRecord :=
  match control (.delegation root.tenant relay origin) with
  | .held served =>
    (pinnedRoot root).bind fun pinned =>
      (DelegationRecord.verify ed25519 pinned links served relay origin).toOption
  | _ => none

end

/-! ## What is read -/

section
variable {control : ControlStore} {t : List ControlAddress}

theorem returns_orUnavailable {ε α : Type} {x : Except ε α} {a : α} :
    Returns (orUnavailable x) a t ↔ x = .ok a ∧ t = [] := by
  rw [orUnavailable, returns_ofExcept, mapError_eq_ok]

theorem orUnavailable_bind {ε α β : Type} {x : Except ε α} {k : α → Loading β} {b} :
    Returns (orUnavailable x >>= k) b t ↔ ∃ a, x = .ok a ∧ Returns (k a) b t := by
  simp [orUnavailable, ofExcept_bind, mapError_eq_ok]

theorem available_bind {α β : Type} {x} {k : α → Loading β} {b} :
    Returns (available x >>= k) b t ↔ ∃ a, x = some a ∧ Returns (k a) b t := by
  cases x with
  | none => exact ⟨fun h => absurd h.result nofun, nofun⟩
  | some a => exact ⟨fun h => ⟨a, rfl, h⟩, by rintro ⟨_, ⟨⟩, h⟩; exact h⟩

theorem read_bind {β : Type} {address} {k : Option (List UInt8) → Loading β} {b} :
    Returns (read control address >>= k) b t ↔ ∃ t', t = address :: t' ∧
      ((control address = .absent ∧ Returns (k none) b t') ∨
        ∃ envelope, control address = .held envelope ∧ Returns (k (some envelope)) b t') := by
  rw [returns_bind]
  constructor
  · rintro ⟨answer, t1, t', hread, hk, rfl⟩
    obtain ⟨served, t2, t3, hask, hanswer, rfl⟩ := returns_bind.mp hread
    obtain ⟨rfl, rfl⟩ := returns_ask.mp hask
    cases hserved : control address <;> rw [hserved] at hanswer
    case failed => exact absurd hanswer.result nofun
    all_goals obtain ⟨rfl, rfl⟩ := returns_pure.mp hanswer
    · exact ⟨t', rfl, .inr ⟨_, rfl, hk⟩⟩
    · exact ⟨t', rfl, .inl ⟨rfl, hk⟩⟩
  · rintro ⟨t', rfl, ⟨hserved, hk⟩ | ⟨envelope, hserved, hk⟩⟩ <;>
      refine ⟨_, [address], t', returns_bind.mpr ⟨_, _, [], returns_ask.mpr ⟨hserved.symm, rfl⟩, ?_,
        rfl⟩, hk, rfl⟩ <;>
      exact returns_pure.mpr ⟨rfl, rfl⟩

end

/-! ## The slots of a history -/

def slotAddress (tenant : TenantId) (client : ClientId) : Bool × Nat → ControlAddress
  | (false, epoch) => .revocation tenant client epoch
  | (true, epoch) => .rotation tenant client epoch

section
variable (ed25519 : Verifier) (control : ControlStore) (links : Finmap fun _ : KeyId => List UInt8)
  (pinned : PinnedAuthorityRoot) (client : ClientId)

/-- The record that the bytes at a slot are, where they verify. -/
def verified (envelope : List UInt8) : Bool × Nat → Option TrustRecord
  | (false, epoch) =>
    (RevocationRecord.verify ed25519 pinned links envelope client epoch).toOption.map .revocation
  | (true, epoch) =>
    (RotationRecord.verify ed25519 pinned links envelope client epoch).toOption.map .rotation

/-- What the store keeps for a slot: nothing, or a record. -/
def stored (k : Bool × Nat) : Option (Option TrustRecord) :=
  match control (slotAddress pinned.tenantId client k) with
  | .absent => some none
  | .failed => none
  | .held envelope => (verified ed25519 links pinned client envelope k).map some

/-- The view with what the store keeps for a slot folded in. -/
abbrev fetchSlot : ClientTrustView → Bool × Nat → Option ClientTrustView :=
  fetch (stored ed25519 control links pinned client) ClientTrustView.record

/-- The slots that are read for an uploader that presents `key`. -/
def loadedSlots (key : KeyId) (pointer : LinkedClientPointer) : List (Bool × Nat) :=
  (List.range' 1 pointer.epoch).map (Prod.mk false) ++
    if key ≠ pointer.keyId then [(true, pointer.epoch)] else []

def fullSlots (pointer : LinkedClientPointer) : List (Bool × Nat) :=
  (List.range' 1 pointer.epoch).flatMap fun epoch => [(false, epoch), (true, epoch)]

end

section
variable {ed25519 : Verifier} {control : ControlStore} {links : Finmap fun _ : KeyId => List UInt8}
  {pinned : PinnedAuthorityRoot} {client : ClientId} {view view' : ClientTrustView} {epoch : Nat}
  {k : Bool × Nat} {t : List ControlAddress}

theorem stored_of_absent (h : control (slotAddress pinned.tenantId client k) = .absent) :
    stored ed25519 control links pinned client k = some none := by
  rw [stored, h]

/-- A record is verified at its slot. -/
theorem stored_slot (k : Bool × Nat) (r : TrustRecord)
    (h : stored ed25519 control links pinned client k = some (some r)) : r.slot = k := by
  obtain ⟨kind, epoch⟩ := k
  rw [stored] at h
  split at h
  · cases h
  · cases h
  obtain ⟨_, hr, heq⟩ := Option.map_eq_some_iff.mp h
  cases heq
  cases kind with
  | false =>
    obtain ⟨record, hrecord, rfl⟩ := Option.map_eq_some_iff.mp hr
    have hverify := toOption_eq_some.mp hrecord
    simp only [RevocationRecord.verify, bind_eq_ok, refuse_eq_ok, not_not] at hverify
    obtain ⟨_, -, _, -, -, _, -, _, -, hepoch, _, -, hverify⟩ := hverify
    cases hverify
    exact congrArg (Prod.mk false) hepoch
  | true =>
    obtain ⟨record, hrecord, rfl⟩ := Option.map_eq_some_iff.mp hr
    have hverify := toOption_eq_some.mp hrecord
    simp only [RotationRecord.verify, bind_eq_ok, refuse_eq_ok, require_dep_eq_ok, not_not] at hverify
    obtain ⟨_, -, _, -, -, -, _, -, _, -, _, _, -, _, -, _, _, _, -, hepoch, _, -, _, _, -, hverify⟩ :=
      hverify
    cases hverify
    exact congrArg (Prod.mk true) hepoch

theorem new_reads {pointer} : Reads (stored ed25519 control links pinned client) holds content []
    (new pointer) := by
  rintro ⟨_ | _, epoch⟩ <;> rfl

/-- A slot that is read, verified and folded in. -/
theorem returns_fetch {m : Option (List UInt8) → Loading ClientTrustView} (hnone : m none = pure view)
    (hsome : ∀ envelope t, Returns (m (some envelope)) view' t ↔
      (∃ r, verified ed25519 links pinned client envelope k = some r ∧ view.record r = .ok view') ∧
        t = []) :
    Returns (read control (slotAddress pinned.tenantId client k) >>= m) view' t ↔
      t = [slotAddress pinned.tenantId client k] ∧
        fetchSlot ed25519 control links pinned client view k = some view' := by
  rw [read_bind, fetchSlot, fetch, stored]
  cases control (slotAddress pinned.tenantId client k) with
  | absent => simp [hnone, returns_pure, and_comm, eq_comm]
  | failed => simp
  | held envelope => simp [hsome, Option.bind_eq_some_iff, toOption_eq_some, and_comm]

theorem returns_foldRotation :
    Returns (foldRotation ed25519 control links pinned client view epoch) view' t ↔
      t = [slotAddress pinned.tenantId client (true, epoch)] ∧
        fetchSlot ed25519 control links pinned client view (true, epoch) = some view' := by
  refine returns_fetch (k := (true, epoch)) rfl fun envelope t => ?_
  simp [verified, ClientTrustView.record, orUnavailable_bind, returns_orUnavailable, toOption_eq_some,
    ← and_assoc]

theorem returns_foldHistory {pointer} :
    Returns (foldHistory ed25519 control links pinned client pointer view) view' t ↔
      t = (List.range' 1 pointer.epoch).map (slotAddress pinned.tenantId client ⟨false, ·⟩) ∧
        ((List.range' 1 pointer.epoch).map (Prod.mk false)).foldlM
          (fetchSlot ed25519 control links pinned client) view = some view' := by
  rw [List.foldlM_map]
  refine returns_foldlM (fun _ epoch _ _ => ?_) _ _ _ _
  refine returns_fetch (k := (false, epoch)) rfl fun envelope t => ?_
  simp [verified, ClientTrustView.record, orUnavailable_bind, returns_orUnavailable, toOption_eq_some,
    ← and_assoc]

theorem foldStored_eq {R : Type} {verify : List UInt8 → Except RevocationError R}
    {fold : R → Except RevocationError ClientTrustView} (kind : R → TrustRecord)
    (hverify : ∀ envelope, verified ed25519 links pinned client envelope k =
      (verify envelope).toOption.map kind) (hfold : ∀ r, view.record (kind r) = fold r) :
    foldStored (control (slotAddress pinned.tenantId client k)) verify fold view =
      fetchSlot ed25519 control links pinned client view k := by
  rw [fetchSlot, fetch, stored]
  cases control (slotAddress pinned.tenantId client k) with
  | absent | failed => rfl
  | held envelope => cases h : verify envelope <;> simp [foldStored, hverify, hfold, h, Except.toOption]

/-- The whole history is fetched slot by slot. -/
theorem fullView_eq {pointer} : fullView ed25519 control links pinned client pointer =
    (fullSlots pointer).foldlM (fetchSlot ed25519 control links pinned client) (new pointer) := by
  rw [fullView, fullSlots]
  generalize new pointer = view, List.range' 1 pointer.epoch = epochs
  induction epochs generalizing view with
  | nil => rfl
  | cons epoch epochs ih =>
    have hrevoke : revoke ed25519 control links pinned client view epoch =
        fetchSlot ed25519 control links pinned client view (false, epoch) :=
      foldStored_eq (k := (false, epoch)) .revocation (fun _ => rfl) fun _ => rfl
    have hrotate : ∀ view, rotate ed25519 control links pinned client view epoch =
        fetchSlot ed25519 control links pinned client view (true, epoch) := fun _ =>
      foldStored_eq (k := (true, epoch)) .rotation (fun _ => rfl) fun _ => rfl
    simp [ih, hrevoke, hrotate, Option.bind_assoc]

end

end AgentArchivist.Server.EvidenceHistory
