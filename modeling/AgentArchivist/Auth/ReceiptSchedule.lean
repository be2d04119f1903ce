import AgentArchivist.Auth.ReceiptsVerify
import AgentArchivist.Lib.Runs

/-! # The schedule of receipt keys

The starts of the retained keys are thirty days apart and every window is thirty-seven days long,
so the windows cover the time from the first start to the last end, and no three of them meet. -/
namespace AgentArchivist.Auth.ReceiptSchedule
open Lib Lib.Runs Protocol List
open Authority ControlRecord ReceiptCertificate ReceiptKeys ReceiptSigning ReceiptsVerify ReceiptWindow
open ReceiptsVerify.Sample SortedMap Json Vocabulary

variable {scheme : SignatureScheme}

/-- A key is certified, or loaded with a certificate that was parsed. -/
inductive Constructed : CertifiedReceiptKey scheme → Prop
  | certified {key signingKey authority signedAt validFrom}
      (h : CertifiedReceiptKey.certify signingKey authority signedAt validFrom = .ok key) : Constructed key
  | loaded {key : CertifiedReceiptKey scheme} {value : Value}
      (h : ReceiptKeyCertificate.parse value = .ok key.certificate) : Constructed key

/-- The keys that there can be. -/
abbrev Key (scheme : SignatureScheme) := {key : CertifiedReceiptKey scheme // Constructed key}

def opens (key : CertifiedReceiptKey scheme) : Instant := instant key.certificate.validFrom

def closes (key : CertifiedReceiptKey scheme) : Instant := instant key.certificate.validUntil

/-- `rotate` on the schedule in place. -/
def rotateStep (schedule : ReceiptKeySchedule scheme) (next : Key scheme) :
    Except ReceiptKeyError Unit × ReceiptKeySchedule scheme :=
  match schedule.rotate next.1 with
  | .ok schedule' => (.ok (), schedule')
  | .error error => (.error error, schedule)

/-- Whether the window of a key holds the instant. -/
def validAt (at' : Timestamp) (key : CertifiedReceiptKey scheme) : Bool :=
  opens key ≤ instant at' && instant at' ≤ closes key

/-! ## Days -/

theorem later_later (a : Instant) (m n : Int) : later (later a m) n = later a (m + n) := by
  simp only [later, ofLex_toLex, Int.add_mul, Int.add_assoc]

theorem later_le {a : Instant} {m n : Int} : later a m ≤ later a n ↔ m ≤ n := by
  simp only [later, Prod.Lex.le_iff, ofLex_toLex, le_refl, and_true]
  omega

theorem later_mono {a b : Instant} {n : Int} (h : a ≤ b) : later a n ≤ later b n := by
  simp only [later, Prod.Lex.le_iff, ofLex_toLex] at h ⊢
  omega

theorem closes_eq {key : CertifiedReceiptKey scheme} (h : Constructed key) :
    closes key = later (opens key) 37 := by
  have hmade : WellMade key.certificate := by
    cases h with
    | certified h => exact (issued_of_certify h).1.wellMade
    | loaded h => exact wellMade_of_parse h
  exact window_of_validateWindow hmade.window

/-! ## The starts -/

/-- The retained keys in order: the starts are thirty days apart. -/
structure Spaced (schedule : ReceiptKeySchedule scheme) (first : Instant)
    (ordered : List (CertifiedReceiptKey scheme)) : Prop where
  perm : ordered.Perm schedule.values
  starts : ordered.map opens = (range ordered.length).map fun i : Nat => later first (30 * i)
  constructed : ∀ key ∈ ordered, Constructed key

variable {schedule schedule' : ReceiptKeySchedule scheme} {first : Instant}
  {ordered : List (CertifiedReceiptKey scheme)} {key : CertifiedReceiptKey scheme}

namespace Spaced

theorem opens_eq (h : Spaced schedule first ordered) (hkey : key ∈ ordered) :
    ∃ i < ordered.length, opens key = later first (30 * i) := by
  have hmem : opens key ∈ ordered.map opens := mem_map_of_mem hkey
  rw [h.starts, mem_map] at hmem
  obtain ⟨i, hi, heq⟩ := hmem
  exact ⟨i, mem_range.mp hi, heq.symm⟩

theorem exists_opens (h : Spaced schedule first ordered) {i : Nat} (hi : i < ordered.length) :
    ∃ key ∈ ordered, opens key = later first (30 * i) :=
  mem_map.mp (h.starts ▸ mem_map_of_mem (mem_range.mpr hi))

/-- One rotation. -/
theorem rotate (h : Spaced schedule first ordered) (hnext : Constructed key)
    (hrotate : schedule.rotate key = .ok schedule') : Spaced schedule' first (ordered ++ [key]) := by
  obtain ⟨hfresh, ⟨latest, expected, hlatest, hexpected, hstart⟩, hkeys⟩ :=
    ReceiptKeySchedule.rotate_ok hrotate
  obtain ⟨hmem, hle⟩ := maxBy_eq_some hlatest
  obtain ⟨i, hi, hopens⟩ : ∃ i < _, opens latest = _ := h.opens_eq (h.perm.mem_iff.mpr hmem)
  -- the latest start is the last of them
  have hlast : i + 1 = ordered.length := by
    by_contra hne
    obtain ⟨key', hkey', hopens'⟩ := h.exists_opens (i := i + 1) (by omega)
    have hlater : opens key' ≤ opens latest := hle key' (h.perm.mem_iff.mp hkey')
    rw [hopens, hopens', later_le] at hlater
    omega
  refine ⟨?_, ?_, forall_mem_append.mpr ⟨h.constructed, forall_mem_singleton.mpr hnext⟩⟩
  · have hkey : key.keyId ∉ schedule.keys.map Prod.fst := by
      intro hheld
      obtain ⟨⟨id, held⟩, hentry, rfl⟩ := mem_map.mp hheld
      rw [(lookup_eq_some schedule.sorted).mpr hentry] at hfresh
      cases hfresh
    rw [ReceiptKeySchedule.values, hkeys]
    exact (perm_append_singleton key ordered).trans ((h.perm.cons key).trans
      ((upsert_perm schedule.sorted hkey).map Prod.snd).symm)
  · have hopens' : opens key = later first (30 * ordered.length) := by
      have hadded : opens key = later (opens latest) 30 := hstart.trans (addDays_ok hexpected).1
      rw [hadded, hopens, later_later, ← hlast]
      congr 1
    simp [range_succ, h.starts, hopens']

/-- Some start is past and some end is not: a window holds the instant. -/
theorem covered (h : Spaced schedule first ordered) {a b} {at' : Timestamp} (ha : a ∈ ordered)
    (hopened : opens a ≤ instant at') (hb : b ∈ ordered) (hopen : instant at' ≤ closes b) :
    ∃ key ∈ ordered, validAt at' key = true := by
  obtain ⟨hnil, -⟩ | ⟨key, -, hmem, hle⟩ := @maxBy_cases _ _ _ opens
    (ordered.filter fun key => opens key ≤ instant at')
  · exact absurd (mem_filter.mpr ⟨ha, decide_eq_true hopened⟩) (by rw [hnil]; exact not_mem_nil)
  obtain ⟨hkey, hpast⟩ := mem_filter.mp hmem
  refine ⟨key, hkey, ?_⟩
  rw [validAt, Bool.and_eq_true, decide_eq_true_eq, decide_eq_true_eq]
  refine ⟨of_decide_eq_true hpast, not_lt.mp fun hclosed => ?_⟩
  obtain ⟨i, hi, hopens⟩ := h.opens_eq hkey
  obtain ⟨j, hj, hopens'⟩ := h.opens_eq hb
  rw [closes_eq (h.constructed key hkey), hopens, later_later] at hclosed
  rw [closes_eq (h.constructed b hb), hopens', later_later] at hopen
  have hij := lt_of_not_ge (mt later_le.mpr (not_le.mpr (hclosed.trans_le hopen)))
  obtain ⟨next, hnext, hopens''⟩ := h.exists_opens (i := i + 1) (by omega)
  have hearlier : opens next ≤ instant at' := by
    rw [hopens'']
    exact (later_le.mpr (by omega)).trans hclosed.le
  have hbeyond := hle next (mem_filter.mpr ⟨hnext, decide_eq_true hearlier⟩)
  rw [hopens, hopens'', later_le] at hbeyond
  omega

/-- No three windows meet. -/
theorem valid_le_two (h : Spaced schedule first ordered) (at' : Timestamp) :
    (schedule.values.filter (validAt at')).length ≤ 2 := by
  have hspaced : ordered.Pairwise fun a b => later (opens a) 30 ≤ opens b := by
    rw [← pairwise_map (f := opens) (R := fun s t => later s 30 ≤ t), h.starts, pairwise_map]
    refine pairwise_lt_range.imp fun hij => ?_
    rw [later_later, later_le]
    omega
  rw [← (h.perm.filter _).length_eq]
  have hvalid : ∀ key ∈ ordered.filter (validAt at'), opens key ≤ instant at' ∧
      instant at' ≤ later (opens key) 37 := by
    intro key hkey
    obtain ⟨hmem, hholds⟩ := mem_filter.mp hkey
    rw [← closes_eq (h.constructed key hmem)]
    simpa [validAt] using hholds
  have hfiltered := hspaced.sublist (filter_sublist (p := validAt at'))
  rcases hkeys : ordered.filter (validAt at') with _ | ⟨a, _ | ⟨b, _ | ⟨c, rest⟩⟩⟩
  · simp
  · simp
  · simp
  · rw [hkeys] at hfiltered hvalid
    simp only [pairwise_cons, mem_cons, forall_eq_or_imp] at hfiltered hvalid
    have hfar : later (opens a) 60 ≤ later (opens a) 37 := calc
      later (opens a) 60 ≤ later (opens b) 30 := by
        have htwice := later_mono (n := 30) hfiltered.1.1
        rwa [later_later] at htwice
      _ ≤ opens c := hfiltered.2.1.1
      _ ≤ instant at' := hvalid.2.2.1.1
      _ ≤ later (opens a) 37 := hvalid.1.2
    exact absurd (later_le.mp hfar) (by decide)

end Spaced

/-- Every run of rotations leaves a schedule whose keys follow each other. -/
theorem run_spaced (initial : Key scheme) (keys : List (Key scheme)) :
    ∃ ordered, Spaced (run rotateStep (.new initial.1) keys).2 (opens initial.1) ordered := by
  have hstep : ∀ s, ∀ next ∈ keys, (∃ ordered, Spaced s (opens initial.1) ordered) →
      ∃ ordered, Spaced (rotateStep s next).2 (opens initial.1) ordered := by
    rintro s next - ⟨ordered, h⟩
    unfold rotateStep
    split
    · rename_i hrotate
      exact ⟨_, h.rotate next.2 hrotate⟩
    · exact ⟨ordered, h⟩
  refine run_keeps keys hstep ⟨[initial.1], .refl _, ?_, forall_mem_singleton.mpr initial.2⟩
  simp [later]

/-- The starts are thirty days apart; a key signs from the first start to the last end, the newest
of at most two; and a rotation that fails changes nothing. -/
theorem receipt_schedule (initial : Key scheme) (keys : List (Key scheme)) :
    let schedule := (run rotateStep (.new initial.1) keys).2
    (∃ (first : Instant) (ordered : List (CertifiedReceiptKey scheme)), ordered.Perm schedule.values ∧
      ordered.map opens = (range ordered.length).map fun i : Nat => later first (30 * i)) ∧
    (∀ at', (∃ key, schedule.signingKeyAt at' = some key) ↔
      ∃ a ∈ schedule.values, ∃ b ∈ schedule.values, opens a ≤ instant at' ∧ instant at' ≤ closes b) ∧
    (∀ at', (schedule.values.filter (validAt at')).length ≤ 2 ∧
      ∀ key, schedule.signingKeyAt at' = some key → key ∈ schedule.values.filter (validAt at') ∧
        ∀ other ∈ schedule.values.filter (validAt at'), opens other ≤ opens key) ∧
    ∀ next error, (rotateStep schedule next).1 = .error error → (rotateStep schedule next).2 = schedule := by
  intro schedule
  obtain ⟨ordered, h⟩ := run_spaced initial keys
  have hsigning : ∀ at', schedule.signingKeyAt at' = maxBy opens (schedule.values.filter (validAt at')) :=
    fun _ => rfl
  refine ⟨⟨_, ordered, h.perm, h.starts⟩, fun at' => ?_, fun at' => ⟨h.valid_le_two at', ?_⟩, ?_⟩
  · rw [hsigning]
    obtain ⟨hnil, hnone⟩ | ⟨key, hkey, hmem, -⟩ :=
      @maxBy_cases _ _ _ opens (schedule.values.filter (validAt at'))
    · refine iff_of_false (by simp [hnone]) fun ⟨a, ha, b, hb, hopened, hopen⟩ => ?_
      obtain ⟨key, hkey, hvalid⟩ :=
        h.covered (h.perm.mem_iff.mpr ha) hopened (h.perm.mem_iff.mpr hb) hopen
      exact not_mem_nil (hnil ▸ mem_filter.mpr ⟨h.perm.mem_iff.mp hkey, hvalid⟩)
    · obtain ⟨hheld, hvalid⟩ := mem_filter.mp hmem
      rw [validAt, Bool.and_eq_true, decide_eq_true_eq, decide_eq_true_eq] at hvalid
      exact iff_of_true ⟨key, hkey⟩ ⟨key, hheld, key, hheld, hvalid⟩
  · exact fun key hkey => maxBy_eq_some ((hsigning at').symm.trans hkey)
  · intro next error herror
    unfold rotateStep at herror ⊢
    split at herror
    · cases herror
    · rfl

/-- One key: it signs within its window, and is not added again. -/
theorem ahead_key_schedule :
    aheadKey ∈ (ReceiptKeySchedule.new aheadKey).values.filter (validAt committed) ∧
    (rotateStep (ReceiptKeySchedule.new aheadKey) ⟨aheadKey, .certified aheadKey_certified⟩).2 =
      .new aheadKey := by
  obtain ⟨-, -, hnewest, hfailed⟩ := receipt_schedule ⟨aheadKey, .certified aheadKey_certified⟩ []
  refine ⟨((hnewest committed).2 aheadKey signs_at).1, hfailed _ .conflictingRecord ?_⟩
  have hheld : SortedMap.lookup cmpKeyId aheadKey.keyId (upsert cmpKeyId aheadKey.keyId aheadKey []) =
      some aheadKey := lookup_upsert_self .nil
  simp [rotateStep, ReceiptKeySchedule.rotate, ReceiptKeySchedule.new, run, hheld]

end AgentArchivist.Auth.ReceiptSchedule
