import Mathlib.Data.List.Chain
import AgentArchivist.Adapter.FileCapture
import AgentArchivist.Lib.Runs
import AgentArchivist.Protocol.DerivationInjective

/-! # Generations of a file source

What one pass acknowledged of a file, three digests and two lengths, is compared with what
the next pass observes: the generation continues or a new one opens with the cause that
was detected. Where the hash does not collide on what was observed, the digests stand for
the bytes, and the decision is the one that the documented table assigns to the complete
parts of the two snapshots. -/
namespace AgentArchivist.Adapter.FileGeneration
open List
open FileCapture FileCapture.RecordBoundary Lib.Runs
open Lib.Slices hiding completePrefix
open Protocol.Derivation hiding Slice
open Protocol.DerivationInjective
open Protocol.Vocabulary

/-- Why a generation started. -/
inductive GenerationCause where
  | initial
  | fileIdentityChange
  | digestChange
  | truncation
  | rewind
  | incompatibleRewrite
  | tailMismatch
deriving DecidableEq, Repr

def GenerationCause.isDetection : GenerationCause → Bool
  | .initial => false
  | _ => true

structure SourceGeneration where
  generation : GenerationId
  cause : GenerationCause
deriving DecidableEq

def SourceGeneration.initial (generation : GenerationId) : SourceGeneration := ⟨generation, .initial⟩

/-- A generation that a detection starts; only the initial cause is refused. -/
def SourceGeneration.detected (generation : GenerationId) (cause : GenerationCause)
    (_ : cause.isDetection = true) : SourceGeneration := ⟨generation, cause⟩

/-- Device and inode, as `stat` reports them. -/
structure FileIdentity where
  device : UInt64
  inode : UInt64
deriving DecidableEq, Repr

/-- The offset at which the last record of a complete prefix begins. -/
def lastRecordStart (region : List UInt8) : Nat :=
  match rposition isNewline region with
  | none => 0
  | some last =>
    match rposition isNewline (region.take last) with
    | some previous => measured (previous + 1)
    | none => 0

/-- The digest of a range; the bounds are measured lengths, within the region. -/
def digestRange (region : List UInt8) (start stop : Nat) : BlobDigest :=
  blobDigest (slice region start stop)

/-! ## What a pass acknowledges -/

structure AcknowledgedSource where
  identity : FileIdentity
  completeBytes : Nat
  content : BlobDigest
  head : BlobDigest
  tailStart : Nat
  tail : BlobDigest
deriving DecidableEq

def AcknowledgedSource.acknowledge (identity : FileIdentity) (snapshot : List UInt8) :
    AcknowledgedSource :=
  let boundary := select snapshot
  let region := completePrefix snapshot
  let tailStart := lastRecordStart region
  { identity := identity
    completeBytes := boundary.completeBytes
    content := digestRange region 0 boundary.completeBytes
    head := digestRange region 0 tailStart
    tailStart := tailStart
    tail := digestRange region tailStart boundary.completeBytes }

structure SourceObservation where
  identity : FileIdentity
  snapshot : List UInt8
  boundary : RecordBoundary

def SourceObservation.observe (identity : FileIdentity) (snapshot : List UInt8) : SourceObservation :=
  ⟨identity, snapshot, select snapshot⟩

/-! ## The decision -/

inductive GenerationDecision where
  | continue_
  | rotated (opened : SourceGeneration)
deriving DecidableEq

def GenerationDecision.cause : GenerationDecision → Option GenerationCause
  | .continue_ => none
  | .rotated opened => some opened.cause

theorem GenerationDecision.cause_eq_none {decision : GenerationDecision} :
    decision.cause = none ↔ decision = .continue_ := by
  cases decision <;> simp [cause]

section
variable (minted : GenerationId)

def rotated (cause : GenerationCause) (detection : cause.isDetection = true) : GenerationDecision :=
  .rotated (.detected minted cause detection)

/-- Compare an observation with what was acknowledged; `minted` is the identifier of the
generation that opens if one does. -/
def detectGeneration (acknowledged : AcknowledgedSource) (observed : SourceObservation) :
    GenerationDecision :=
  let region := completePrefix observed.snapshot
  let complete := observed.boundary.completeBytes
  if observed.identity ≠ acknowledged.identity then rotated minted .fileIdentityChange rfl
  else if complete < acknowledged.completeBytes then
    let headObservable := complete ≥ acknowledged.tailStart
    if headObservable ∧ digestRange region 0 acknowledged.tailStart ≠ acknowledged.head then
      rotated minted .rewind rfl
    else rotated minted .truncation rfl
  else if digestRange region 0 acknowledged.completeBytes = acknowledged.content then .continue_
  else if digestRange region 0 acknowledged.tailStart = acknowledged.head then
    rotated minted .tailMismatch rfl
  else if complete = acknowledged.completeBytes then rotated minted .incompatibleRewrite rfl
  else rotated minted .digestChange rfl

end

/-! ## The tracker -/

structure FileGenerationTracker where
  current : SourceGeneration
  acknowledged : AcknowledgedSource
  closed : List SourceGeneration
deriving DecidableEq

/-- One pass over the source, with the identifier that is minted if a generation opens. -/
structure Pass where
  identity : FileIdentity
  snapshot : Slice
  minted : GenerationId

namespace FileGenerationTracker

def begin (pass : Pass) : FileGenerationTracker where
  current := .initial pass.minted
  acknowledged := .acknowledge pass.identity pass.snapshot.bytes
  closed := []

def observe (tracker : FileGenerationTracker) (pass : Pass) :
    GenerationDecision × FileGenerationTracker :=
  let observed := SourceObservation.observe pass.identity pass.snapshot.bytes
  let decision := detectGeneration pass.minted tracker.acknowledged observed
  let acknowledged := AcknowledgedSource.acknowledge pass.identity pass.snapshot.bytes
  match decision with
  | .rotated opened =>
    (decision, { current := opened, acknowledged, closed := tracker.closed ++ [tracker.current] })
  | .continue_ => (decision, { tracker with acknowledged })

end FileGenerationTracker

/-! ## The documented table -/

/-- The records of a complete prefix before its last. -/
def headOf (region : List UInt8) : List UInt8 := (splitInclusive isNewline region).dropLast.flatten

/-- The cause that the table assigns to what a pass acknowledged and what the next observes. -/
def assigned (old new : Pass) : Option GenerationCause :=
  let acknowledged := completePrefix old.snapshot.bytes
  let complete := completePrefix new.snapshot.bytes
  if new.identity ≠ old.identity then some .fileIdentityChange
  else if complete.length < acknowledged.length then
    if (headOf acknowledged).length ≤ complete.length ∧ ¬ headOf acknowledged <+: complete then
      some .rewind
    else some .truncation
  else if acknowledged <+: complete then none
  else if headOf acknowledged <+: complete then some .tailMismatch
  else if complete.length = acknowledged.length then some .incompatibleRewrite
  else some .digestChange

/-- The table continues a generation exactly where the acknowledged bytes are still there. -/
theorem assigned_eq_none {old new} : assigned old new = none ↔
    new.identity = old.identity ∧
      completePrefix old.snapshot.bytes <+: completePrefix new.snapshot.bytes := by
  unfold assigned
  dsimp only
  constructor
  · intro h
    split at h
    · cases h
    rename_i hidentity
    split at h
    · split at h <;> cases h
    split at h
    · rename_i hkept
      exact ⟨not_not.mp hidentity, hkept⟩
    · split at h
      · cases h
      · split at h <;> cases h
  · intro ⟨hidentity, hkept⟩
    rw [if_neg (not_not.mpr hidentity), if_neg (Nat.not_lt.mpr hkept.length_le), if_pos hkept]

/-! ## Digests stand for bytes -/

/-- No two beginnings of complete parts that were observed collide. -/
def CollisionFree (passes : List Pass) : Prop :=
  ∀ s ∈ passes, ∀ t ∈ passes, ∀ a b, a <+: completePrefix s.snapshot.bytes →
    b <+: completePrefix t.snapshot.bytes → NoCollision a b

section
variable {region : List UInt8}

theorem headOf_initial (region : List UInt8) : headOf region <+: region := by
  have hle := (List.dropLast_prefix (splitInclusive isNewline region)).flatten
  rwa [splitInclusive_flatten] at hle

theorem lastRecordStart_eq (h : Terminated isNewline region) (hlen : region.length < 2 ^ 63) :
    lastRecordStart region = (headOf region).length := by
  have hmax : U64_MAX = 2 ^ 64 - 1 := rfl
  unfold lastRecordStart headOf
  rcases h.eq_nil_or_snoc with rfl | ⟨record, newline, rfl, hnewline⟩
  · rfl
  have hnone : ∀ y ∈ ([] : List UInt8), isNewline y = false := nofun
  rw [rposition_append_cons hnewline hnone]
  dsimp only
  rw [take_left' rfl]
  cases hprevious : rposition isNewline record with
  | none =>
    rw [splitInclusive_record (rposition_eq_none.mp hprevious) hnewline]
    rfl
  | some previous =>
    obtain ⟨before, terminator, after, rfl, rfl, hterminator, hafter⟩ := exists_of_rposition hprevious
    have hsplit : before ++ terminator :: after ++ [newline] =
        (before ++ [terminator]) ++ (after ++ [newline]) := by simp
    rw [hsplit, splitInclusive_append (terminated_snoc hterminator),
      splitInclusive_record hafter hnewline, dropLast_concat, splitInclusive_flatten]
    simp only [length_append, length_cons, length_nil] at hlen ⊢
    rw [measured, Nat.min_eq_left]
    omega

theorem slice_zero (region : List UInt8) (n : Nat) : slice region 0 n = region.take n := by
  simp [slice]

/-- A beginning of the region has the digest of another one exactly where it stands there. -/
theorem digest_take {a} (hc : NoCollision (region.take a.length) a) :
    blobDigest (region.take a.length) = blobDigest a ↔ a <+: region := by
  rw [prefix_iff_eq_take]
  constructor
  · intro h
    exact (hc (congrArg Digest.raw h)).symm
  · intro h
    rw [← h]

/-- The decision is the one of the table. -/
theorem detectGeneration_cause {old new} {passes} (hc : CollisionFree passes) (hold : old ∈ passes)
    (hnew : new ∈ passes) (minted : GenerationId) :
    (detectGeneration minted (.acknowledge old.identity old.snapshot.bytes)
      (.observe new.identity new.snapshot.bytes)).cause = assigned old new := by
  have hbound := old.snapshot.bound
  have hle := completePrefix_length_le old.snapshot.bytes
  have hterm : Terminated isNewline (completePrefix old.snapshot.bytes) :=
    completePrefix_terminated isNewline _
  have hstart := lastRecordStart_eq hterm (by omega)
  have htake := (prefix_iff_eq_take.mp (headOf_initial (completePrefix old.snapshot.bytes))).symm
  have hcollide : ∀ a, a <+: completePrefix old.snapshot.bytes →
      (blobDigest ((completePrefix new.snapshot.bytes).take a.length) = blobDigest a ↔
        a <+: completePrefix new.snapshot.bytes) := fun a ha =>
    digest_take (hc new hnew old hold _ _ (List.take_prefix _ _) ha)
  have hwhole := hcollide _ prefix_rfl
  have hpart := hcollide _ (headOf_initial _)
  unfold detectGeneration assigned
  simp only [SourceObservation.observe, AcknowledgedSource.acknowledge, select_eq new.snapshot.bound,
    select_eq hbound, hstart, htake, digestRange, slice_zero, take_length, ne_eq, hwhole, hpart, ge_iff_le]
  split
  · rfl
  split
  · split <;> rfl
  split
  · rfl
  split
  · rfl
  split <;> rfl

end

/-! ## Passes over a source -/

section
variable {rest : List Pass}

theorem observe_eq (tracker : FileGenerationTracker) (pass : Pass) :
    (tracker.observe pass).1 = detectGeneration pass.minted tracker.acknowledged
        (.observe pass.identity pass.snapshot.bytes) ∧
      (tracker.observe pass).2.acknowledged =
        AcknowledgedSource.acknowledge pass.identity pass.snapshot.bytes := by
  unfold FileGenerationTracker.observe
  dsimp only
  split <;> exact ⟨rfl, rfl⟩

variable {passes : List Pass}

/-- Each pass is compared with the one before it. -/
theorem run_causes (hc : CollisionFree passes) {tracker old} (hold : old ∈ passes)
    (hrest : ∀ pass ∈ rest, pass ∈ passes)
    (hacknowledged : tracker.acknowledged = .acknowledge old.identity old.snapshot.bytes) :
    (run FileGenerationTracker.observe tracker rest).1.map GenerationDecision.cause =
      List.zipWith assigned (old :: rest) rest := by
  induction rest generalizing tracker old with
  | nil => rfl
  | cons pass rest ih =>
    obtain ⟨hpass, hrest'⟩ := forall_mem_cons.mp hrest
    obtain ⟨hdecision, hnext⟩ := observe_eq tracker pass
    rw [run, map_cons, zipWith_cons_cons, hdecision, hacknowledged,
      detectGeneration_cause hc hold hpass, ih hpass hrest' hnext]

/-! ## The cursor over a run of continued passes -/

/-- The results of a cursor driven over some passes. -/
def captures (cursor : CaptureCursor) (passes : List Pass) :
    List (Except CaptureCursorError PassOutcome) :=
  (run (fun cursor pass => cursor.observe pass.snapshot.bytes) cursor passes).1

/-- Nothing shrank, and what was captured is the complete part of a snapshot, record by record. -/
def Captured (results : List (Except CaptureCursorError PassOutcome)) (snapshot : List UInt8) : Prop :=
  ∃ outcomes : List PassOutcome, results = outcomes.map .ok ∧
    outcomes.flatMap (·.captured) = completePrefix snapshot ∧
    outcomes.flatMap (fun outcome => splitInclusive isNewline outcome.captured) = records snapshot

theorem captures_continued {cursor old} {last} (hat : At cursor old)
    (hkeeps : (old :: passes.map (·.snapshot.bytes)).IsChain
      fun s t => completePrefix s <+: completePrefix t) (hlast : passes.getLast? = some last) :
    ∃ outcomes : List PassOutcome, captures cursor passes = outcomes.map .ok ∧
      completePrefix old ++ outcomes.flatMap (·.captured) = completePrefix last.snapshot.bytes ∧
      records old ++ outcomes.flatMap (fun outcome => splitInclusive isNewline outcome.captured) =
        records last.snapshot.bytes := by
  induction passes generalizing cursor old with
  | nil => cases hlast
  | cons pass passes ih =>
    rw [map_cons, isChain_cons_cons] at hkeeps
    obtain ⟨hkept, hkeeps⟩ := hkeeps
    obtain ⟨captured, boundary, cursor', hobserve, hinitial, hrecords, -, hat'⟩ :=
      observe_extends hat hkept
    have hcaptures : captures cursor (pass :: passes) =
        .ok ⟨captured, boundary⟩ :: captures cursor' passes := by
      simp [captures, run, hobserve]
    cases passes with
    | nil =>
      cases hlast
      refine ⟨[⟨captured, boundary⟩], hcaptures, ?_, ?_⟩
      · simp [hinitial]
      · simp [hrecords]
    | cons next passes =>
      obtain ⟨outcomes, hresults, hbytes, hall⟩ := ih hat' hkeeps hlast
      refine ⟨⟨captured, boundary⟩ :: outcomes, ?_, ?_, ?_⟩
      · rw [hcaptures, hresults]
        rfl
      · rw [← hbytes, hinitial, flatMap_cons, append_assoc]
      · rw [← hall, hrecords, flatMap_cons, append_assoc]

/-- A fresh cursor over passes each of which continues the one before. -/
theorem captured_of_continued {opening} {last}
    (hcontinued : (opening :: passes).IsChain fun old new => assigned old new = none)
    (hlast : (opening :: passes).getLast? = some last) :
    Captured (captures .new (opening :: passes)) last.snapshot.bytes := by
  have hkeeps : ([] :: (opening :: passes).map (·.snapshot.bytes)).IsChain
      fun s t => completePrefix s <+: completePrefix t := by
    have hkept : ((opening :: passes).map (·.snapshot.bytes)).IsChain
        fun s t => completePrefix s <+: completePrefix t :=
      (isChain_map _).mpr (hcontinued.imp fun old new h => (assigned_eq_none.mp h).2)
    exact isChain_cons_cons.mpr ⟨List.nil_prefix, hkept⟩
  exact captures_continued at_new hkeeps hlast

/-- Neighbours that the table continues are a chain of continued passes. -/
theorem isChain_of_causes {opening} {continued after}
    (h : ∀ cause ∈ (List.zipWith assigned (opening :: (continued ++ after))
      (continued ++ after)).take continued.length, cause = none) :
    (opening :: continued).IsChain fun old new => assigned old new = none := by
  induction continued generalizing opening with
  | nil => exact List.IsChain.singleton opening
  | cons pass continued ih =>
    rw [cons_append, zipWith_cons_cons, length_cons, take_succ_cons,
      forall_mem_cons] at h
    exact isChain_cons_cons.mpr ⟨h.1, ih h.2⟩

end

/-- Over every history of passes whose digests do not collide: each decision has the cause that
the table assigns, the generation continues exactly where the acknowledged bytes are still
there, and over passes that continue a generation, with its first pass or without it, a fresh
cursor captures the complete part of the last snapshot, record by record, and never finds
that the source shrank. -/
theorem file_capture_over_generations (first : Pass) (rest : List Pass)
    (h : CollisionFree (first :: rest)) :
    (run FileGenerationTracker.observe (.begin first) rest).1.map GenerationDecision.cause =
      List.zipWith assigned (first :: rest) rest ∧
    (∀ old new, assigned old new = none ↔ new.identity = old.identity ∧
      completePrefix old.snapshot.bytes <+: completePrefix new.snapshot.bytes) ∧
    ∀ before opening continued after last,
      first :: rest = before ++ opening :: (continued ++ after) →
      (∀ decision ∈ ((run FileGenerationTracker.observe (.begin first) rest).1.drop
        before.length).take continued.length, decision = .continue_) →
      (opening :: continued).getLast? = some last →
      Captured (captures .new (opening :: continued)) last.snapshot.bytes ∧
      (continued ≠ [] → Captured (captures .new continued) last.snapshot.bytes) := by
  have hcauses := run_causes h mem_cons_self
    (fun pass => mem_cons_of_mem first) (rfl : (FileGenerationTracker.begin first).acknowledged = _)
  refine ⟨hcauses, fun old new => assigned_eq_none, ?_⟩
  intro before opening continued after last hpasses hdecisions hlast
  have hfrom : (first :: rest).drop before.length = opening :: (continued ++ after) := by
    rw [hpasses, drop_left]
  have hafter : rest.drop before.length = continued ++ after := by
    have htail := congrArg List.tail hfrom
    rwa [tail_drop, drop_succ_cons] at htail
  have hnone : ∀ cause ∈ (List.zipWith assigned (opening :: (continued ++ after))
      (continued ++ after)).take continued.length, cause = none := by
    intro cause hcause
    rw [← hfrom, ← hafter, ← drop_zipWith, ← hcauses, ← map_drop, ← map_take] at hcause
    obtain ⟨decision, hmem, rfl⟩ := mem_map.mp hcause
    exact GenerationDecision.cause_eq_none.mpr (hdecisions decision hmem)
  have hchain := isChain_of_causes hnone
  refine ⟨captured_of_continued hchain hlast, fun hne => ?_⟩
  cases continued with
  | nil => exact absurd rfl hne
  | cons pass continued =>
    exact captured_of_continued (isChain_cons_cons.mp hchain).2 hlast

/-! ## Two passes -/

namespace Sample

def identity : FileIdentity := ⟨1, 7⟩
def generation : GenerationId := ⟨"01890a5d-ac96-774b-bcce-b302099a8057", by decide +kernel⟩

/-- A record and the beginning of another, then both. -/
def opening : Pass := ⟨identity, ⟨[0x61, 0x0a, 0x62], by decide⟩, generation⟩
def grown : Pass := ⟨identity, ⟨[0x61, 0x0a, 0x62, 0x0a], by decide⟩, generation⟩

theorem collisionFree : CollisionFree [opening, grown] := by
  have hall : ∀ a ∈ ([0x61, 0x0a, 0x62, 0x0a] : List UInt8).inits,
      ∀ b ∈ ([0x61, 0x0a, 0x62, 0x0a] : List UInt8).inits, NoCollision a b := by
    unfold NoCollision
    decide +kernel
  have hregion : ∀ pass ∈ [opening, grown],
      completePrefix pass.snapshot.bytes <+: [0x61, 0x0a, 0x62, 0x0a] := by decide
  intro s hs t ht a b ha hb
  exact hall a ((mem_inits _ _).mpr (ha.trans (hregion s hs))) b
    ((mem_inits _ _).mpr (hb.trans (hregion t ht)))

end Sample

theorem grown_file_captured :
    (run FileGenerationTracker.observe (.begin Sample.opening) [Sample.grown]).1.map
      GenerationDecision.cause = [none] ∧
    Captured (captures .new [Sample.opening, Sample.grown]) [0x61, 0x0a, 0x62, 0x0a] := by
  obtain ⟨hcauses, -, hcaptured⟩ :=
    file_capture_over_generations Sample.opening [Sample.grown] Sample.collisionFree
  have hcontinues : assigned Sample.opening Sample.grown = none := by decide
  have hnone : (run FileGenerationTracker.observe (.begin Sample.opening) [Sample.grown]).1.map
      GenerationDecision.cause = [none] := hcauses.trans (congrArg (fun cause => [cause]) hcontinues)
  refine ⟨hnone, (hcaptured [] Sample.opening [Sample.grown] [] Sample.grown rfl ?_ rfl).1⟩
  intro decision hmem
  have hcause := mem_map_of_mem (f := GenerationDecision.cause) (mem_of_mem_take hmem)
  rw [length_nil, drop_zero, hnone] at hcause
  exact GenerationDecision.cause_eq_none.mp (mem_singleton.mp hcause)

end AgentArchivist.Adapter.FileGeneration
