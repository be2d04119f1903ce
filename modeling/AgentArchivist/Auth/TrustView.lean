import AgentArchivist.Auth.AuthorityWindows
import AgentArchivist.Lib.OrderedMap
import AgentArchivist.Lib.WriteOnce

/-! # A client's trust view

The linked-client pointer, the revocations and the rotations of one client, folded into a
view that decides which attempts may authorize. A value of a record type exists only where
its verification succeeded, so the record types carry what the verification establishes.
The fold writes every epoch once; a decision is characterised by what was folded
(`evaluateAt_ok`). -/
namespace AgentArchivist.Auth.TrustView
open Auth.Authority Auth.AuthorityWindows Lib Lib.Fallible Lib.WriteOnce Protocol.Vocabulary

def ROTATION_OVERLAP_SECONDS : Int := 24 * 60 * 60

inductive RevocationError where
  | malformedRecord
  | recordDisagreement
  | untrustedAuthority
  | inconsistentView
deriving DecidableEq, Repr

/-! ## Verified records -/

structure RevocationRecord where
  tenantId : TenantId
  clientId : ClientId
  revokedKeyId : KeyId
  epoch : Nat
  signedAt : Timestamp
  positive : 1 ≤ epoch
  calendar : calendarValid signedAt = true

instance : DecidableEq RevocationRecord := fun a b =>
  decidable_of_iff (a.tenantId = b.tenantId ∧ a.clientId = b.clientId ∧
    a.revokedKeyId = b.revokedKeyId ∧ a.epoch = b.epoch ∧ a.signedAt = b.signedAt) (by
      cases a; cases b; simp)

structure LinkedClientPointer where
  clientId : ClientId
  epoch : Nat
  keyId : KeyId
  positive : 1 ≤ epoch

structure RotationRecord where
  tenantId : TenantId
  clientId : ClientId
  previousEpoch : Nat
  previousPublicKey : Ed25519PublicKey
  previousKeyId : KeyId
  epoch : Nat
  publicKey : Ed25519PublicKey
  keyId : KeyId
  signedAt : Timestamp
  positive : 1 ≤ previousEpoch
  adjacent : previousEpoch + 1 = epoch
  previous_derived : previousKeyId = KeyId.fromPublicKey previousPublicKey
  derived : keyId = KeyId.fromPublicKey publicKey
  advances : previousKeyId ≠ keyId
  calendar : calendarValid signedAt = true

instance : DecidableEq RotationRecord := fun a b =>
  decidable_of_iff (a.tenantId = b.tenantId ∧ a.clientId = b.clientId ∧
    a.previousEpoch = b.previousEpoch ∧ a.previousPublicKey = b.previousPublicKey ∧
    a.previousKeyId = b.previousKeyId ∧ a.epoch = b.epoch ∧ a.publicKey = b.publicKey ∧
    a.keyId = b.keyId ∧ a.signedAt = b.signedAt) (by cases a; cases b; simp)

/-- From the instant of the signature through a day after it, both ends included. -/
def RotationRecord.windowCovers (record : RotationRecord) (at' : Timestamp) : Bool :=
  if !calendarValid at' then false
  else
    let anchor := utcInstant record.signedAt
    let close : Instant := toLex ((ofLex anchor).1 + ROTATION_OVERLAP_SECONDS, (ofLex anchor).2)
    anchor ≤ utcInstant at' && utcInstant at' ≤ close

theorem RotationRecord.windowCovers_iff {record : RotationRecord} {at'} :
    record.windowCovers at' = true ↔ calendarValid at' = true ∧
      utcInstant record.signedAt ≤ utcInstant at' ∧ utcInstant at' ≤ overlapEnd record.signedAt := by
  unfold RotationRecord.windowCovers
  cases calendarValid at' with
  | false => simp
  | true =>
    rw [Bool.not_true, if_neg Bool.false_ne_true, Bool.and_eq_true, decide_eq_true_iff,
      decide_eq_true_iff]
    exact (and_iff_right rfl).symm

/-! ## The view -/

/-- The rotations of a view belong to its client and end at its pointer. -/
def Belongs (pointer : LinkedClientPointer) (rotations : OrderedMap RotationRecord) : Prop :=
  ∀ epoch record, rotations.get epoch = some record → record.epoch = epoch ∧
    record.clientId = pointer.clientId ∧ (epoch = pointer.epoch → record.keyId = pointer.keyId)

@[ext]
structure ClientTrustView where
  pointer : LinkedClientPointer
  revocations : OrderedMap KeyId
  rotations : OrderedMap RotationRecord
  belongs : Belongs pointer rotations

namespace ClientTrustView

def new (pointer : LinkedClientPointer) : ClientTrustView where
  pointer := pointer
  revocations := .empty
  rotations := .empty
  belongs := nofun

def recordRevocation (view : ClientTrustView) (record : RevocationRecord) :
    Except RevocationError ClientTrustView :=
  if record.clientId ≠ view.pointer.clientId then .error .recordDisagreement
  else if record.epoch > view.pointer.epoch then .error .inconsistentView
  else if record.epoch = view.pointer.epoch ∧ record.revokedKeyId ≠ view.pointer.keyId then
    .error .inconsistentView
  else match view.revocations.get record.epoch with
    | some existing => if existing = record.revokedKeyId then .ok view else .error .inconsistentView
    | none => .ok { view with revocations := view.revocations.insert record.epoch record.revokedKeyId }

theorem belongs_insert {view : ClientTrustView} {record : RotationRecord}
    (hclient : ¬ record.clientId ≠ view.pointer.clientId)
    (hkey : ¬ (record.epoch = view.pointer.epoch ∧ record.keyId ≠ view.pointer.keyId)) :
    Belongs view.pointer (view.rotations.insert record.epoch record) := by
  intro epoch found hget
  rw [OrderedMap.get_insert] at hget
  split at hget
  · rename_i heq
    cases hget
    exact ⟨heq.symm, not_not.mp hclient, fun hcurrent =>
      not_not.mp fun hne => hkey ⟨heq.symm.trans hcurrent, hne⟩⟩
  · exact view.belongs epoch found hget

def recordRotation (view : ClientTrustView) (record : RotationRecord) :
    Except RevocationError ClientTrustView :=
  if hclient : record.clientId ≠ view.pointer.clientId then .error .recordDisagreement
  else if record.epoch > view.pointer.epoch then .error .inconsistentView
  else if hkey : record.epoch = view.pointer.epoch ∧ record.keyId ≠ view.pointer.keyId then
    .error .inconsistentView
  else match view.rotations.get record.epoch with
    | some existing => if existing = record then .ok view else .error .inconsistentView
    | none =>
      .ok { view with
        rotations := view.rotations.insert record.epoch record
        belongs := belongs_insert hclient hkey }

end ClientTrustView

/-! ## The decision -/

structure AuthorizationAttempt where
  clientId : ClientId
  epoch : Nat
  keyId : KeyId
deriving DecidableEq

/-- Epochs are one-based. -/
def AuthorizationAttempt.new (clientId : ClientId) (epoch : Nat) (keyId : KeyId) :
    Option AuthorizationAttempt :=
  if epoch ≥ 1 then some ⟨clientId, epoch, keyId⟩ else none

inductive AttemptRejection where
  | clientMismatch
  | epochBeyondPointer
  | staleEpoch
  | revoked
  | keyEpochMismatch
deriving DecidableEq, Repr

namespace ClientTrustView

/-- The revocations up to the attempt's epoch, the latest first. -/
def scan (attempt : AuthorizationAttempt) : List (Nat × KeyId) → Except AttemptRejection Unit
  | [] => .ok ()
  | (epoch, revoked) :: rest =>
    if revoked = attempt.keyId then .error .revoked
    else if epoch = attempt.epoch then .error .keyEpochMismatch
    else scan attempt rest

def standing (view : ClientTrustView) (attempt : AuthorizationAttempt) :
    Except AttemptRejection Unit :=
  if attempt.clientId ≠ view.pointer.clientId then .error .clientMismatch
  else if attempt.epoch = 0 ∨ attempt.epoch > view.pointer.epoch then .error .epochBeyondPointer
  else do
    scan attempt (view.revocations.upToDescending attempt.epoch)
    if attempt.epoch < view.pointer.epoch then .error .staleEpoch else .ok ()

def evaluate (view : ClientTrustView) (attempt : AuthorizationAttempt) :
    Except AttemptRejection Unit := do
  view.standing attempt
  if attempt.keyId = view.pointer.keyId then .ok () else .error .keyEpochMismatch

def evaluateAt (view : ClientTrustView) (attempt : AuthorizationAttempt) (at' : Timestamp) :
    Except AttemptRejection Unit := do
  view.standing attempt
  if attempt.keyId = view.pointer.keyId then .ok ()
  else match view.rotations.get view.pointer.epoch with
    | some rotation =>
      if rotation.windowCovers at' ∧ attempt.keyId = rotation.previousKeyId then .ok ()
      else .error .keyEpochMismatch
    | none => .error .keyEpochMismatch

end ClientTrustView

/-! ## What a view decides -/

section
variable {view : ClientTrustView} {attempt : AuthorizationAttempt} {at' : Timestamp}

open ClientTrustView

theorem scan_ok {entries} : scan attempt entries = .ok () ↔
    ∀ e ∈ entries, e.2 ≠ attempt.keyId ∧ e.1 ≠ attempt.epoch := by
  induction entries with
  | nil => simp [scan]
  | cons e entries ih =>
    rw [scan, refuse_eq_ok, refuse_eq_ok, ih, List.forall_mem_cons, ← and_assoc]

/-- No revocation is at the attempt's epoch, or names its key up to it. -/
def Unrevoked (view : ClientTrustView) (attempt : AuthorizationAttempt) : Prop :=
  ∀ epoch key, view.revocations.get epoch = some key →
    epoch ≠ attempt.epoch ∧ (epoch ≤ attempt.epoch → key ≠ attempt.keyId)

theorem scan_unrevoked :
    scan attempt (view.revocations.upToDescending attempt.epoch) = .ok () ↔ Unrevoked view attempt := by
  rw [scan_ok]
  constructor
  · intro h epoch key hget
    refine ⟨fun heq => ?_, fun hle => ?_⟩
    · exact (h (epoch, key) (OrderedMap.mem_upToDescending.mpr ⟨hget, heq.le⟩)).2 heq
    · exact (h (epoch, key) (OrderedMap.mem_upToDescending.mpr ⟨hget, hle⟩)).1
  · intro h e he
    obtain ⟨hget, hle⟩ := OrderedMap.mem_upToDescending.mp he
    obtain ⟨hepoch, hkey⟩ := h e.1 e.2 hget
    exact ⟨hkey hle, hepoch⟩

theorem standing_ok : view.standing attempt = .ok () ↔
    attempt.clientId = view.pointer.clientId ∧ attempt.epoch = view.pointer.epoch ∧
      Unrevoked view attempt := by
  have hpos := view.pointer.positive
  simp only [← scan_unrevoked, standing, refuse_eq_ok, bind_eq_ok, not_not]
  constructor
  · rintro ⟨hclient, hbeyond, _, hscan, hstale, -⟩
    exact ⟨hclient, by omega, hscan⟩
  · rintro ⟨hclient, hepoch, hscan⟩
    exact ⟨hclient, by omega, (), hscan, by omega, trivial⟩

theorem evaluate_ok : view.evaluate attempt = .ok () ↔
    view.standing attempt = .ok () ∧ attempt.keyId = view.pointer.keyId := by
  simp [evaluate, bind_eq_ok, Unique.exists_iff]

/-- The key is the previous half of the rotation to the pointer's epoch, inside its window. -/
def Overlaps (view : ClientTrustView) (key : KeyId) (at' : Timestamp) : Prop :=
  ∃ rotation, view.rotations.get view.pointer.epoch = some rotation ∧
    rotation.windowCovers at' = true ∧ key = rotation.previousKeyId

theorem evaluateAt_ok : view.evaluateAt attempt at' = .ok () ↔ view.standing attempt = .ok () ∧
    (attempt.keyId = view.pointer.keyId ∨ Overlaps view attempt.keyId at') := by
  rw [evaluateAt, bind_eq_ok, Unique.exists_iff]
  refine and_congr_right fun _ => ?_
  by_cases hkey : attempt.keyId = view.pointer.keyId
  · exact iff_of_true (if_pos hkey) (.inl hkey)
  · rw [if_neg hkey, or_iff_right hkey, Overlaps]
    cases view.rotations.get view.pointer.epoch with
    | none | some => simp

end

/-! ## The fold -/

/-- A verified record of a client's history. -/
inductive TrustRecord where
  | revocation (record : RevocationRecord)
  | rotation (record : RotationRecord)
deriving DecidableEq

namespace TrustRecord

/-- Where a record goes: its epoch, among the revocations or the rotations. -/
def slot : TrustRecord → Bool × Nat
  | .revocation record => (false, record.epoch)
  | .rotation record => (true, record.epoch)

/-- What the view keeps of a record. -/
def content : TrustRecord → KeyId ⊕ RotationRecord
  | .revocation record => .inl record.revokedKeyId
  | .rotation record => .inr record

def clientId : TrustRecord → ClientId
  | .revocation record => record.clientId
  | .rotation record => record.clientId

def epoch : TrustRecord → Nat
  | .revocation record => record.epoch
  | .rotation record => record.epoch

/-- The half that must be the pointer's where the record is at its epoch. -/
def half : TrustRecord → KeyId
  | .revocation record => record.revokedKeyId
  | .rotation record => record.keyId

/-- What a fold requires of the pointer. -/
def Fits (pointer : LinkedClientPointer) (record : TrustRecord) : Prop :=
  record.clientId = pointer.clientId ∧ record.epoch ≤ pointer.epoch ∧
    (record.epoch = pointer.epoch → record.half = pointer.keyId)

end TrustRecord

open TrustRecord

namespace ClientTrustView

def record (view : ClientTrustView) : TrustRecord → Except RevocationError ClientTrustView
  | .revocation record => view.recordRevocation record
  | .rotation record => view.recordRotation record

/-- What a view holds in a slot. -/
def holds (view : ClientTrustView) : Bool × Nat → Option (KeyId ⊕ RotationRecord)
  | (false, epoch) => (view.revocations.get epoch).map .inl
  | (true, epoch) => (view.rotations.get epoch).map .inr

theorem ext_holds {view view' : ClientTrustView} (hpointer : view.pointer = view'.pointer)
    (h : ∀ k, view.holds k = view'.holds k) : view = view' := by
  refine ClientTrustView.ext hpointer (OrderedMap.ext_get fun epoch => ?_)
    (OrderedMap.ext_get fun epoch => ?_)
  · exact Option.map_injective Sum.inl_injective (h (false, epoch))
  · exact Option.map_injective Sum.inr_injective (h (true, epoch))

theorem recordRevocation_ok {view view' : ClientTrustView} {r : RevocationRecord} :
    view.recordRevocation r = .ok view' ↔ Fits view.pointer (.revocation r) ∧
      (∀ key, view.revocations.get r.epoch = some key → key = r.revokedKeyId) ∧
      view' = { view with revocations := view.revocations.insert r.epoch r.revokedKeyId } := by
  simp only [recordRevocation, refuse_eq_ok, ne_eq, not_not, gt_iff_lt, not_lt, not_and, Fits,
    and_assoc]
  refine and_congr_right fun _ => and_congr_right fun _ => and_congr_right fun _ => ?_
  cases hget : view.revocations.get r.epoch with
  | none =>
    rw [and_iff_right nofun]
    exact ⟨fun h => (Except.ok.inj h).symm, fun h => congrArg _ h.symm⟩
  | some existing =>
    simp only [require_eq_ok, Option.some.injEq, forall_eq', Except.ok.injEq]
    refine and_congr_right fun hsame => ?_
    rw [OrderedMap.insert_same (hsame ▸ hget)]
    exact eq_comm

theorem recordRotation_ok {view view' : ClientTrustView} {r : RotationRecord} :
    view.recordRotation r = .ok view' ↔ Fits view.pointer (.rotation r) ∧
      (∀ existing, view.rotations.get r.epoch = some existing → existing = r) ∧
      view'.pointer = view.pointer ∧ view'.revocations = view.revocations ∧
      view'.rotations = view.rotations.insert r.epoch r := by
  rw [recordRotation]
  split
  · rename_i hclient
    exact ⟨nofun, fun h => absurd h.1.1 hclient⟩
  rename_i hclient
  split
  · rename_i hepoch
    exact ⟨nofun, fun h => absurd h.1.2.1 (Nat.not_le_of_lt hepoch)⟩
  rename_i hepoch
  split
  · rename_i hkey
    exact ⟨nofun, fun h => absurd (h.1.2.2 hkey.1) hkey.2⟩
  rename_i hkey
  have hfits : Fits view.pointer (.rotation r) :=
    ⟨not_not.mp hclient, Nat.le_of_not_lt hepoch, fun heq => not_not.mp fun hne => hkey ⟨heq, hne⟩⟩
  rw [and_iff_right hfits]
  cases hget : view.rotations.get r.epoch with
  | none =>
    rw [and_iff_right nofun, Except.ok.injEq, eq_comm]
    exact ClientTrustView.ext_iff
  | some existing =>
    simp only [require_eq_ok, Option.some.injEq, forall_eq', Except.ok.injEq]
    refine and_congr_right fun hsame => ?_
    rw [OrderedMap.insert_same (hsame ▸ hget), eq_comm]
    exact ClientTrustView.ext_iff

/-- The fold writes every slot once. -/
theorem record_laws :
    Laws ClientTrustView.pointer holds Fits TrustRecord.slot TrustRecord.content record where
  ext := ext_holds
  folds_iff {view r} := by
    cases r with
    | revocation r =>
      simp [record, recordRevocation_ok, holds, slot, content]
    | rotation r =>
      have hspec : (∃ view', view.record (.rotation r) = .ok view') ↔ Fits view.pointer (.rotation r) ∧
          ∀ existing, view.rotations.get r.epoch = some existing → existing = r := by
        constructor
        · intro ⟨view', h⟩
          obtain ⟨hfits, hsame, -⟩ := recordRotation_ok.mp h
          exact ⟨hfits, hsame⟩
        · intro ⟨hfits, hsame⟩
          have hbelongs : Belongs view.pointer (view.rotations.insert r.epoch r) :=
            belongs_insert (not_not.mpr hfits.1) fun h => h.2 (hfits.2.2 h.1)
          exact ⟨⟨view.pointer, view.revocations, _, hbelongs⟩,
            recordRotation_ok.mpr ⟨hfits, hsame, rfl, rfl, rfl⟩⟩
      simpa [holds, slot, content] using hspec
  base_eq {view r view'} h := by
    cases r with
    | revocation r =>
      obtain ⟨-, -, rfl⟩ := recordRevocation_ok.mp h
      rfl
    | rotation r => exact (recordRotation_ok.mp h).2.2.1
  holds_eq {view r view'} h k := by
    obtain ⟨kind, epoch⟩ := k
    cases r with
    | revocation r =>
      obtain ⟨-, -, rfl⟩ := recordRevocation_ok.mp h
      cases kind with
      | false => simp [holds, slot, content, OrderedMap.get_insert, apply_ite (Option.map Sum.inl)]
      | true => simp [holds, slot]
    | rotation r =>
      obtain ⟨-, -, -, hrevocations, hrotations⟩ := recordRotation_ok.mp h
      cases kind with
      | false => simp [holds, slot, hrevocations]
      | true =>
        simp [holds, slot, content, hrotations, OrderedMap.get_insert, apply_ite (Option.map Sum.inr)]

/-- The view of a history: what folds is folded, the rest is skipped. -/
def ofRecords (pointer : LinkedClientPointer) (records : List TrustRecord) : ClientTrustView :=
  run record (new pointer) records

/-- The records of the history that were folded. -/
def foldedRecords (pointer : LinkedClientPointer) (records : List TrustRecord) : List TrustRecord :=
  folded record (new pointer) records

variable {pointer : LinkedClientPointer} {records : List TrustRecord}

theorem ofRecords_pointer : (ofRecords pointer records).pointer = pointer :=
  Laws.base_run record_laws

theorem ofRecords_holds {k b} :
    (ofRecords pointer records).holds k = some b ↔
      ∃ r ∈ foldedRecords pointer records, r.slot = k ∧ r.content = b := by
  have hnew : (new pointer).holds k ≠ some b := by
    obtain ⟨kind, epoch⟩ := k
    cases kind <;> exact nofun
  rw [ofRecords, Laws.run_holds record_laws, or_iff_right hnew, foldedRecords]

theorem ofRecords_revocations {epoch key} :
    (ofRecords pointer records).revocations.get epoch = some key ↔
      ∃ r, .revocation r ∈ foldedRecords pointer records ∧ r.epoch = epoch ∧ r.revokedKeyId = key := by
  have hholds : (ofRecords pointer records).revocations.get epoch = some key ↔
      (ofRecords pointer records).holds (false, epoch) = some (.inl key) := by
    simp [holds]
  rw [hholds, ofRecords_holds]
  constructor
  · rintro ⟨r | r, hr, hslot, hcontent⟩
    · exact ⟨r, hr, (Prod.mk.inj hslot).2, Sum.inl.inj hcontent⟩
    · cases hcontent
  · rintro ⟨r, hr, rfl, rfl⟩
    exact ⟨_, hr, rfl, rfl⟩

theorem ofRecords_rotations {epoch} {rotation} :
    (ofRecords pointer records).rotations.get epoch = some rotation ↔
      .rotation rotation ∈ foldedRecords pointer records ∧ rotation.epoch = epoch := by
  have hholds : (ofRecords pointer records).rotations.get epoch = some rotation ↔
      (ofRecords pointer records).holds (true, epoch) = some (.inr rotation) := by
    simp [holds]
  rw [hholds, ofRecords_holds]
  constructor
  · rintro ⟨r | r, hr, hslot, hcontent⟩
    · cases hcontent
    · cases hcontent
      exact ⟨hr, (Prod.mk.inj hslot).2⟩
  · rintro ⟨hr, rfl⟩
    exact ⟨_, hr, rfl, rfl⟩

/-- Revocations leave the rotations alone and take none back. -/
theorem run_revocations (view : ClientTrustView) (more : List RevocationRecord) :
    (run record view (more.map .revocation)).pointer = view.pointer ∧
    (run record view (more.map .revocation)).rotations = view.rotations ∧
    ∀ epoch key, view.revocations.get epoch = some key →
      (run record view (more.map .revocation)).revocations.get epoch = some key := by
  refine ⟨record_laws.base_run, OrderedMap.ext_get fun epoch => ?_, fun epoch key hget => ?_⟩
  · have hsame : (run record view (more.map .revocation)).holds (true, epoch) =
        view.holds (true, epoch) := by
      refine Option.ext fun b => record_laws.run_holds.trans (or_iff_left ?_)
      rintro ⟨r, hr, hslot, -⟩
      obtain ⟨r, -, rfl⟩ := List.mem_map.mp (mem_of_mem_folded hr)
      cases hslot
    exact Option.map_injective Sum.inr_injective hsame
  · have hholds : view.holds (false, epoch) = some (.inl key) := by
      rw [holds, hget]
      rfl
    have hkept : (run record view (more.map .revocation)).holds (false, epoch) = some (.inl key) :=
      record_laws.run_keeps hholds
    simpa [holds] using hkept

end ClientTrustView

/-! ## The decision over a history -/

open ClientTrustView

/-- What the folded records say about an attempt at an instant. -/
structure Accepts (pointer : LinkedClientPointer) (history : List TrustRecord)
    (attempt : AuthorizationAttempt) (at' : Timestamp) : Prop where
  client : attempt.clientId = pointer.clientId
  epoch : attempt.epoch = pointer.epoch
  unrevoked : ∀ r, .revocation r ∈ history →
    r.epoch ≠ attempt.epoch ∧ (r.epoch ≤ attempt.epoch → r.revokedKeyId ≠ attempt.keyId)
  key : attempt.keyId = pointer.keyId ∨ ∃ r, .rotation r ∈ history ∧ r.epoch = pointer.epoch ∧
    attempt.keyId = r.previousKeyId ∧ calendarValid at' = true ∧
    utcInstant r.signedAt ≤ utcInstant at' ∧ utcInstant at' ≤ overlapEnd r.signedAt

theorem unrevoked_iff {pointer records} {attempt} :
    Unrevoked (ofRecords pointer records) attempt ↔
      ∀ r, .revocation r ∈ foldedRecords pointer records →
        r.epoch ≠ attempt.epoch ∧ (r.epoch ≤ attempt.epoch → r.revokedKeyId ≠ attempt.keyId) := by
  constructor
  · intro h r hr
    exact h r.epoch r.revokedKeyId (ofRecords_revocations.mpr ⟨r, hr, rfl, rfl⟩)
  · intro h epoch key hget
    obtain ⟨r, hr, rfl, rfl⟩ := ofRecords_revocations.mp hget
    exact h r hr

theorem overlaps_iff {pointer : LinkedClientPointer} {records key at'} :
    Overlaps (ofRecords pointer records) key at' ↔
      ∃ r, .rotation r ∈ foldedRecords pointer records ∧ r.epoch = pointer.epoch ∧
        key = r.previousKeyId ∧ calendarValid at' = true ∧
        utcInstant r.signedAt ≤ utcInstant at' ∧ utcInstant at' ≤ overlapEnd r.signedAt := by
  rw [Overlaps, ofRecords_pointer]
  constructor
  · rintro ⟨r, hget, hwindow, hkey⟩
    obtain ⟨hr, hepoch⟩ := ofRecords_rotations.mp hget
    exact ⟨r, hr, hepoch, hkey, RotationRecord.windowCovers_iff.mp hwindow⟩
  · rintro ⟨r, hr, hepoch, hkey, hwindow⟩
    exact ⟨r, ofRecords_rotations.mpr ⟨hr, hepoch⟩, RotationRecord.windowCovers_iff.mpr hwindow, hkey⟩

theorem accepts_iff {pointer records attempt at'} :
    (ofRecords pointer records).evaluateAt attempt at' = .ok () ↔
      Accepts pointer (foldedRecords pointer records) attempt at' := by
  rw [evaluateAt_ok, standing_ok, unrevoked_iff, overlaps_iff, ofRecords_pointer]
  constructor
  · intro ⟨⟨hclient, hepoch, hunrevoked⟩, hkey⟩
    exact ⟨hclient, hepoch, hunrevoked, hkey⟩
  · intro h
    exact ⟨⟨h.client, h.epoch, h.unrevoked⟩, h.key⟩

/-- Further revocations only take attempts away. -/
theorem standing_run {view : ClientTrustView} {more : List RevocationRecord} {attempt}
    (h : (run record view (more.map .revocation)).standing attempt = .ok ()) :
    view.standing attempt = .ok () := by
  obtain ⟨hpointer, -, hkept⟩ := run_revocations view more
  rw [standing_ok, hpointer] at h
  exact standing_ok.mpr ⟨h.1, h.2.1, fun epoch key hget => h.2.2 epoch key (hkept epoch key hget)⟩

/-- The decision over every history of a client, the two evaluations, further revocations
and the order of records. -/
theorem trust_decision (pointer : LinkedClientPointer) (records : List TrustRecord) :
    (∀ attempt at', (ofRecords pointer records).evaluateAt attempt at' = .ok () ↔
      Accepts pointer (foldedRecords pointer records) attempt at') ∧
    (∀ attempt at', (ofRecords pointer records).evaluate attempt = .ok () →
      (ofRecords pointer records).evaluateAt attempt at' = .ok ()) ∧
    (∀ (more : List RevocationRecord) attempt at',
      ((ofRecords pointer (records ++ more.map .revocation)).evaluateAt attempt at' = .ok () →
        (ofRecords pointer records).evaluateAt attempt at' = .ok ()) ∧
      ((ofRecords pointer (records ++ more.map .revocation)).evaluate attempt = .ok () →
        (ofRecords pointer records).evaluate attempt = .ok ())) ∧
    ∀ view records', records.foldlM record (new pointer) = .ok view → records.Perm records' →
      records'.foldlM record (new pointer) = .ok view := by
  refine ⟨fun attempt at' => accepts_iff, ?_, ?_, fun view records' h hperm => record_laws.perm hperm h⟩
  · intro attempt at' h
    obtain ⟨hstanding, hkey⟩ := evaluate_ok.mp h
    exact evaluateAt_ok.mpr ⟨hstanding, .inl hkey⟩
  intro more attempt at'
  rw [ofRecords, run_append]
  obtain ⟨hpointer, hrotations, -⟩ := run_revocations (ofRecords pointer records) more
  refine ⟨fun h => ?_, fun h => ?_⟩
  · obtain ⟨hstanding, hkey⟩ := evaluateAt_ok.mp h
    refine evaluateAt_ok.mpr ⟨standing_run hstanding, hkey.imp (fun heq => ?_) fun hover => ?_⟩
    · exact heq.trans (congrArg LinkedClientPointer.keyId hpointer)
    · obtain ⟨r, hget, hr⟩ := hover
      exact ⟨r, by rw [← hget]; exact (hpointer ▸ hrotations ▸ rfl), hr⟩
  · obtain ⟨hstanding, hkey⟩ := evaluate_ok.mp h
    exact evaluate_ok.mpr
      ⟨standing_run hstanding, hkey.trans (congrArg LinkedClientPointer.keyId hpointer)⟩

/-! ## A rotated client -/

namespace Sample
open Auth.AuthorityPublication.Sample

/-- A client at its second epoch, under its second half. -/
def pointer : LinkedClientPointer := ⟨tenant, 2, KeyId.fromPublicKey second, by decide⟩

theorem first_epoch : 1 ≤ 1 := Nat.le_refl 1

/-- The rotation from the first half. -/
def toSecond : RotationRecord where
  tenantId := tenant
  clientId := tenant
  previousEpoch := 1
  previousPublicKey := first
  previousKeyId := KeyId.fromPublicKey first
  epoch := 2
  publicKey := second
  keyId := KeyId.fromPublicKey second
  signedAt := newYear
  positive := by decide
  adjacent := rfl
  previous_derived := rfl
  derived := rfl
  advances := first_ne_second
  calendar := newYear_calendar

/-- The first half died at its epoch. -/
def firstDead : RevocationRecord :=
  ⟨tenant, tenant, KeyId.fromPublicKey first, 1, newYear, by decide, newYear_calendar⟩

def attempt : AuthorizationAttempt := ⟨tenant, 2, KeyId.fromPublicKey second⟩

theorem rotation_fits : Fits pointer (.rotation toSecond) := ⟨rfl, Nat.le_refl 2, fun _ => rfl⟩

theorem revocation_fits : Fits pointer (.revocation firstDead) :=
  ⟨rfl, Nat.le_succ 1, fun h => absurd h (Nat.succ_ne_self 1).symm⟩

/-- Both records fold. -/
theorem history_folds :
    ∃ view, [.rotation toSecond, .revocation firstDead].foldlM record (new pointer) = .ok view := by
  have hfirst : ∃ view, (new pointer).record (.rotation toSecond) = .ok view :=
    record_laws.folds_iff.mpr ⟨rotation_fits, nofun⟩
  obtain ⟨view1, h1⟩ := hfirst
  have hsecond : ∃ view, view1.record (.revocation firstDead) = .ok view := by
    refine record_laws.folds_iff.mpr ⟨(record_laws.base_eq h1).symm ▸ revocation_fits, fun b hb => ?_⟩
    rw [record_laws.holds_eq h1] at hb
    cases hb
  obtain ⟨view2, h2⟩ := hsecond
  exact ⟨view2, Laws.foldlM_cons_ok.mpr ⟨view1, h1, Laws.foldlM_cons_ok.mpr ⟨view2, h2, rfl⟩⟩⟩

/-- The second half stands, whatever is folded of the two records. -/
theorem attempt_unrevoked (records : List TrustRecord)
    (h : ∀ r, .revocation r ∈ records → r = firstDead) :
    (ofRecords pointer records).standing attempt = .ok () := by
  rw [standing_ok, ofRecords_pointer, unrevoked_iff]
  refine ⟨rfl, rfl, fun r hr => ?_⟩
  rw [h r (mem_of_mem_folded hr)]
  exact ⟨(Nat.succ_ne_self 1).symm, fun _ => first_ne_second⟩

end Sample

open Sample AuthorityPublication.Sample in
/-- The decision for a client that rotated its key and revoked the old one. -/
theorem rotated_client_decided :
    (ofRecords pointer [.rotation toSecond]).evaluate attempt = .ok () ∧
    (ofRecords pointer [.rotation toSecond]).evaluateAt attempt newYear = .ok () ∧
    (ofRecords pointer ([.rotation toSecond] ++ [firstDead].map .revocation)).evaluateAt attempt newYear =
      .ok () ∧
    ∃ view, [.rotation toSecond, .revocation firstDead].foldlM record (new pointer) = .ok view ∧
      [.revocation firstDead, .rotation toSecond].foldlM record (new pointer) = .ok view := by
  have hnone : ∀ r, TrustRecord.revocation r ∈ [.rotation toSecond] → r = firstDead := by simp
  have hone : ∀ r, TrustRecord.revocation r ∈ [.rotation toSecond] ++ [firstDead].map .revocation →
      r = firstDead := by simp
  have heval : (ofRecords pointer [.rotation toSecond]).evaluate attempt = .ok () :=
    evaluate_ok.mpr ⟨attempt_unrevoked _ hnone, by rw [ofRecords_pointer]; rfl⟩
  have hmore : (ofRecords pointer ([.rotation toSecond] ++ [firstDead].map .revocation)).evaluateAt
      attempt newYear = .ok () :=
    evaluateAt_ok.mpr ⟨attempt_unrevoked _ hone, .inl (by rw [ofRecords_pointer]; rfl)⟩
  obtain ⟨view, h⟩ := history_folds
  obtain ⟨-, -, hgrow, -⟩ := trust_decision pointer [.rotation toSecond]
  have hbefore := (hgrow [firstDead] attempt newYear).1 hmore
  exact ⟨heval, hbefore, hmore, view, h,
    (trust_decision pointer _).2.2.2 view _ h (List.Perm.swap ..)⟩

end AgentArchivist.Auth.TrustView
