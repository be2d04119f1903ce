import AgentArchivist.Auth.TrustView

/-! # What an attempt with a revoked key reports

The revocations are scanned from the attempt's epoch downwards. A revocation of that epoch which names
another key stops the scan, and the revocations below it are not looked at. -/
namespace AgentArchivist.Auth.RevokedAttempts
open Lib Protocol
open Vocabulary TrustView TrustView.ClientTrustView WriteOnce

/-- A folded revocation at or below the attempt's epoch names its key. -/
def Named (pointer : LinkedClientPointer) (records : List TrustRecord)
    (attempt : AuthorizationAttempt) : Prop :=
  ∃ r, .revocation r ∈ foldedRecords pointer records ∧ r.epoch ≤ attempt.epoch ∧
    r.revokedKeyId = attempt.keyId

/-- The class that a verdict reports, for a key that is named or not. -/
structure Reports (named : Prop) (verdict : Except AttemptRejection Unit) : Prop where
  revoked : verdict = .error .revoked ↔ named
  stale : verdict = .error .staleEpoch → ¬ named
  mismatch : verdict = .error .keyEpochMismatch → ¬ named

/-- A folded revocation at the attempt's own epoch names another key. -/
def Shadowed (pointer : LinkedClientPointer) (records : List TrustRecord)
    (attempt : AuthorizationAttempt) : Prop :=
  ∃ r, .revocation r ∈ foldedRecords pointer records ∧ r.epoch = attempt.epoch ∧
    r.revokedKeyId ≠ attempt.keyId

section
variable {pointer : LinkedClientPointer} {records : List TrustRecord} {attempt : AuthorizationAttempt}

/-! ## The scan -/

/-- Along the descending epochs, the scan finds the key unless it meets another one at the attempt's
epoch first. -/
theorem scan_revoked {entries} (hdescends : entries.Pairwise (·.1 > ·.1))
    (hbound : ∀ e ∈ entries, e.1 ≤ attempt.epoch) : scan attempt entries = .error .revoked ↔
      (∃ e ∈ entries, e.2 = attempt.keyId) ∧
        ¬ ∃ e ∈ entries, e.1 = attempt.epoch ∧ e.2 ≠ attempt.keyId := by
  induction entries with
  | nil => simp [scan]
  | cons e entries ih =>
    obtain ⟨hbelow, hrest⟩ := List.pairwise_cons.mp hdescends
    obtain ⟨hfirst, hbound⟩ := List.forall_mem_cons.mp hbound
    rw [scan, List.exists_mem_cons_iff, List.exists_mem_cons_iff]
    by_cases hkey : e.2 = attempt.keyId
    · rw [if_pos hkey]
      refine iff_of_true rfl ⟨.inl hkey, ?_⟩
      rintro (⟨-, hother⟩ | ⟨e', he', hepoch, -⟩)
      · exact hother hkey
      · have := hbelow e' he'
        omega
    by_cases hepoch : e.1 = attempt.epoch
    · simp [hkey, hepoch]
    · simp [hkey, hepoch, ih hrest hbound]

theorem upToDescending_descends {β : Type} (m : OrderedMap β) (bound : Nat) :
    (m.upToDescending bound).Pairwise (·.1 > ·.1) := by
  refine List.pairwise_reverse.mpr ((m.sorted.filter _).imp fun h => ?_)
  exact Nat.compare_eq_lt.mp h

/-- What is scanned are the folded revocations up to the attempt's epoch. -/
theorem exists_scanned {P : Nat → KeyId → Prop} :
    (∃ e ∈ (ofRecords pointer records).revocations.upToDescending attempt.epoch, P e.1 e.2) ↔
      ∃ r, .revocation r ∈ foldedRecords pointer records ∧ r.epoch ≤ attempt.epoch ∧
        P r.epoch r.revokedKeyId := by
  constructor
  · rintro ⟨e, he, hP⟩
    obtain ⟨hget, hle⟩ := OrderedMap.mem_upToDescending.mp he
    obtain ⟨r, hr, hepoch, hkey⟩ := ofRecords_revocations.mp hget
    rw [← hepoch] at hle hP
    rw [← hkey] at hP
    exact ⟨r, hr, hle, hP⟩
  · rintro ⟨r, hr, hle, hP⟩
    have hget := ofRecords_revocations.mpr ⟨r, hr, rfl, rfl⟩
    exact ⟨(r.epoch, r.revokedKeyId), OrderedMap.mem_upToDescending.mpr ⟨hget, hle⟩, hP⟩

/-! ## The verdicts -/

variable (hclient : attempt.clientId = pointer.clientId) (hpos : 1 ≤ attempt.epoch)
  (hle : attempt.epoch ≤ pointer.epoch)
include hclient hpos hle

/-- Behind the checks that the evaluations share, nothing reports a revocation. -/
theorem reports_iff {next : Unit → Except AttemptRejection Unit} (hnext : next () ≠ .error .revoked) :
    Reports (Named pointer records attempt) ((ofRecords pointer records).standing attempt >>= next) ↔
      ¬ (Named pointer records attempt ∧ Shadowed pointer records attempt) := by
  have hnamed : Named pointer records attempt ↔ _ :=
    (exists_scanned (P := fun _ key => key = attempt.keyId)).symm
  have hshadowed : _ ↔ Shadowed pointer records attempt :=
    (exists_scanned (P := fun epoch key => epoch = attempt.epoch ∧ key ≠ attempt.keyId)).trans
      (exists_congr fun r => and_congr_right fun _ => and_iff_right_of_imp fun h => h.1.le)
  have hscan := scan_revoked (upToDescending_descends (ofRecords pointer records).revocations
    attempt.epoch) fun e he => (OrderedMap.mem_upToDescending.mp he).2
  rw [← hnamed, hshadowed] at hscan
  have hverdict : ((ofRecords pointer records).standing attempt >>= next) = .error .revoked ↔
      Named pointer records attempt ∧ ¬ Shadowed pointer records attempt := by
    rw [← hscan, standing, ofRecords_pointer, if_neg (not_not.mpr hclient), if_neg (by omega)]
    cases scan attempt _ with
    | error e => exact Iff.rfl
    | ok =>
      refine iff_of_false ?_ (by simp)
      show (if attempt.epoch < pointer.epoch then .error .staleEpoch else .ok ()) >>= next ≠ _
      split
      · rintro ⟨⟩
      · exact hnext
  constructor
  · intro h hboth
    exact (hverdict.mp (h.revoked.mpr hboth.1)).2 hboth.2
  · intro h
    have hrevoked := hverdict.trans (and_iff_left_of_imp fun hnamed hother => h ⟨hnamed, hother⟩)
    refine ⟨hrevoked, fun hstale hnamed => ?_, fun hmismatch hnamed => ?_⟩
    · cases hstale.symm.trans (hrevoked.mpr hnamed)
    · cases hmismatch.symm.trans (hrevoked.mpr hnamed)

end

/-- **A revoked key reports as revoked**, at every instant, exactly where no revocation of the
attempt's own epoch names another key. -/
theorem revoked_reported_iff (pointer : LinkedClientPointer) (records : List TrustRecord)
    (attempt : AuthorizationAttempt) (hclient : attempt.clientId = pointer.clientId)
    (hpos : 1 ≤ attempt.epoch) (hle : attempt.epoch ≤ pointer.epoch) :
    (Reports (Named pointer records attempt) ((ofRecords pointer records).evaluate attempt) ∧
      ∀ at', Reports (Named pointer records attempt)
        ((ofRecords pointer records).evaluateAt attempt at')) ↔
      ¬ (Named pointer records attempt ∧ Shadowed pointer records attempt) := by
  constructor
  · intro h
    refine (reports_iff hclient hpos hle ?_).mp h.1
    split <;> exact nofun
  · intro h
    refine ⟨(reports_iff hclient hpos hle ?_).mpr h, fun at' => (reports_iff hclient hpos hle ?_).mpr h⟩
    · split <;> exact nofun
    · split
      · exact nofun
      split
      · split <;> exact nofun
      · exact nofun

/-! ## Two keys of one client -/

namespace Sample
open AuthorityPublication.Sample TrustView.Sample

/-- The second half died at the second epoch. -/
def secondDead : RevocationRecord :=
  ⟨tenant, tenant, KeyId.fromPublicKey second, 2, newYear, Nat.le_succ 1, newYear_calendar⟩

def dead : List TrustRecord := [.revocation firstDead, .revocation secondDead]

/-- The first half at an epoch. -/
def presents (epoch : Nat) : AuthorizationAttempt := ⟨tenant, epoch, KeyId.fromPublicKey first⟩

theorem dead_folded : foldedRecords pointer dead = dead := by
  have hfirst : ∃ view, (new pointer).record (.revocation firstDead) = .ok view :=
    record_laws.folds_iff.mpr ⟨revocation_fits, nofun⟩
  obtain ⟨view1, h1⟩ := hfirst
  have hsecond : ∃ view, view1.record (.revocation secondDead) = .ok view := by
    refine record_laws.folds_iff.mpr ⟨?_, fun b hb => ?_⟩
    · rw [record_laws.base_eq h1]
      exact ⟨rfl, Nat.le_refl 2, fun _ => rfl⟩
    · rw [record_laws.holds_eq h1] at hb
      cases hb
  obtain ⟨view2, h2⟩ := hsecond
  simp [foldedRecords, dead, folded, h1, h2]

theorem mem_dead {r} : r ∈ dead ↔ r = .revocation firstDead ∨ r = .revocation secondDead := by
  simp [dead]

theorem dead_named {epoch} (h : 1 ≤ epoch) : Named pointer dead (presents epoch) :=
  ⟨firstDead, by simp [dead_folded, mem_dead], h, rfl⟩

end Sample

open Sample AuthorityPublication.Sample TrustView.Sample in
/-- Each half died at its epoch: at the second one, the first half is not reported as revoked. -/
theorem revoked_key_reported_mismatch : Named pointer dead (presents 2) ∧
    ¬ Reports (Named pointer dead (presents 2)) ((ofRecords pointer dead).evaluate (presents 2)) := by
  have hshadowed : Shadowed pointer dead (presents 2) :=
    ⟨secondDead, by simp [dead_folded, mem_dead], rfl, first_ne_second.symm⟩
  refine ⟨dead_named (by decide), fun h => ?_⟩
  refine (reports_iff rfl (by decide) (Nat.le_refl 2) ?_).mp h ⟨dead_named (by decide), hshadowed⟩
  split <;> exact nofun

open Sample AuthorityPublication.Sample TrustView.Sample in
/-- At its own epoch, the first half is reported as revoked. -/
theorem revoked_key_reported : (ofRecords pointer dead).evaluate (presents 1) = .error .revoked := by
  refine ((revoked_reported_iff pointer dead (presents 1) rfl (by decide) (by decide)).mpr
    ?_).1.revoked.mpr (dead_named (by decide))
  rintro ⟨-, r, hr, hepoch, hkey⟩
  rw [dead_folded, mem_dead] at hr
  rcases hr with hr | hr <;> cases hr
  · exact hkey rfl
  · cases hepoch

end AgentArchivist.Auth.RevokedAttempts
