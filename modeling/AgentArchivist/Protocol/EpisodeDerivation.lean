import Mathlib.Algebra.BigOperators.Group.List.Lemmas
import AgentArchivist.Protocol.OccurrenceRedaction

/-! # Episodes

An episode is composed from the redactions of a tenant's occurrences. Composition forgets how
its input was presented: the records come out in the order of their ordinals, the occurrences
in the order of their identities, and the censuses are sums. -/
namespace AgentArchivist.Protocol.EpisodeDerivation
open Lib List
open Fallible Sorting Utf8 Derivation Document Json OccurrenceRedaction Vocabulary

def EPISODE_VERSION : Int64 := 1
def MAX_EPISODE_OCCURRENCES : Nat := 65536
def MAX_EPISODE_RECORDS : Nat := 65536

/-! ## The keyed pseudonyms -/

structure HmacSha256 where
  inner : Sha256.Hasher
  outer : Sha256.Hasher

namespace HmacSha256

def new (key : List UInt8) : HmacSha256 :=
  let short := if 64 < key.length then Sha256.digest key else key
  let block := short ++ List.replicate (64 - short.length) 0
  ⟨block.foldl (fun h byte => Sha256.update h [byte ^^^ 0x36]) Sha256.new,
   block.foldl (fun h byte => Sha256.update h [byte ^^^ 0x5c]) Sha256.new⟩

def update (mac : HmacSha256) (data : List UInt8) : HmacSha256 :=
  { mac with inner := Sha256.update mac.inner data }

def finish (mac : HmacSha256) : List UInt8 :=
  Sha256.finalize (Sha256.update mac.outer (Sha256.finalize mac.inner))

end HmacSha256

/-- The class as the rendering spells it. -/
def renderToken : PseudonymClass → String
  | .absolutePath => "path"
  | .hostname => "hostname"
  | .username => "user"
  | .emailAddress => "email"
  | .ipAddress => "ip"

structure PseudonymKey where
  bytes : List UInt8
deriving DecidableEq, Repr

namespace PseudonymKey

def keyId (key : PseudonymKey) : String :=
  Sha256.encodeHex ((HmacSha256.new key.bytes).update (utf8 "pseudonym-key-id-v1")).finish

def pseudonym (key : PseudonymKey) (c : PseudonymClass) (matched : String) : String :=
  let mac := ((HmacSha256.new key.bytes).update (utf8 (ClosedEnum.token c))).update [0]
  let hex := Sha256.encodeHex (mac.update (utf8 matched)).finish
  "ps_" ++ renderToken c ++ "_" ++ String.ofList (hex.toList.take 12)

end PseudonymKey

/-! ## Composition -/

structure OccurrenceInput where
  occurrenceId : OccurrenceId
  records : List SourceRecord
deriving DecidableEq

inductive EpisodeGap where
  | empty
  | malformed
  | oversized
  | occurrence (position : Nat) (gap : RedactionGap)
deriving DecidableEq, Repr

structure DerivedEpisode where
  record : List (String × Value)
  digest : String

namespace DerivedEpisode

def objectKey (e : DerivedEpisode) : String :=
  let tenant := match Object.get "tenant_id" e.record with
    | some (.text tenant) => tenant
    | _ => ""
  "tenants/" ++ tenant ++ "/v1/derived/redaction/1/episodes/"
    ++ String.ofList (e.digest.toList.take 2) ++ "/" ++ e.digest ++ ".json"

def serialized (e : DerivedEpisode) : List UInt8 := Json.canonicalBytes (.object e.record) ++ [0x0a]

end DerivedEpisode

def censusInt (sum : Nat) : Int64 := if sum < 0x8000000000000000 then Int64.ofNat sum else Int64.maxValue

/-- One census: a member for every class. -/
def census {c : Type} [ClosedEnum c] (sums : c → Nat) : Value :=
  .object (assembled ((ClosedEnum.variants : List c).map fun c =>
    (ClosedEnum.token c, .int (censusInt (sums c)))))

/-- The members before the digest. -/
def baseMembers (tenant : TenantId) (key : PseudonymKey) (ids : List OccurrenceId)
    (markerSums : MarkerClass → Nat) (pseudonymSums : PseudonymClass → Nat)
    (accepted : List RedactedOccurrence) : List (String × Value) :=
  [("detector_corpus_digest", .text corpusDigest),
   ("episode_version", .int EPISODE_VERSION),
   ("marker_counts", census markerSums),
   ("occurrence_ids", .array (ids.map fun id => .text id.toHex)),
   ("pipeline_id", .text "redaction"),
   ("pipeline_version", .text "1"),
   ("pseudonym_key_id", .text key.keyId),
   ("pseudonym_counts", census pseudonymSums),
   ("records", .array (accepted.map RedactedOccurrence.recordValue)),
   ("tenant_id", .text tenant.asStr)]

def byOrdinal (accepted : List RedactedOccurrence) : List RedactedOccurrence :=
  accepted.mergeSort fun a b => compare a.ordinal.toInt b.ordinal.toInt != .gt

def assemble (tenant : TenantId) (key : PseudonymKey) (ids : List OccurrenceId)
    (markerSums : MarkerClass → Nat) (pseudonymSums : PseudonymClass → Nat)
    (accepted : List RedactedOccurrence) : DerivedEpisode :=
  let base := assembled (baseMembers tenant key ids markerSums pseudonymSums (byOrdinal accepted))
  let bytes := Json.canonicalBytes (.object base)
  let frame := Sha256.update (Sha256.update (FrameBuilder.new "episode-v1").hasher
    (lengthBytes bytes.length)) bytes
  let digest := Sha256.encodeHex (Sha256.finalize frame)
  ⟨Object.set "episode_digest" (.text digest) base, digest⟩

/-- What the loop over the records has accepted and summed. -/
structure Progress where
  accepted : List RedactedOccurrence
  markerSums : MarkerClass → Nat
  pseudonymSums : PseudonymClass → Nat
  position : Nat

def Progress.push (p : Progress) (o : RedactedOccurrence) : Progress where
  accepted := p.accepted ++ [o]
  markerSums c := p.markerSums c + o.markerCounts c
  pseudonymSums c := p.pseudonymSums c + o.pseudonymCounts c
  position := p.position + 1

section
variable (scan : Scan) (key : PseudonymKey)

/-- The renderer the composition supplies is the keyed one. -/
def redacted (record : SourceRecord) : Except RedactionGap RedactedOccurrence :=
  redactOccurrence scan record key.pseudonym

def redactAll : Progress → List SourceRecord → Except EpisodeGap Progress
  | p, [] => .ok p
  | p, record :: rest => do
    let o ← (redacted scan key record).mapError (.occurrence p.position)
    redactAll (p.push o) rest

def sortIds (ids : List OccurrenceId) : List OccurrenceId :=
  ids.mergeSort fun a b => compare a.raw b.raw != .gt

def sortOrdinals (ordinals : List UInt64) : List UInt64 :=
  ordinals.mergeSort fun a b => compare a.toNat b.toNat != .gt

/-- The records of an input, in the order it gives them. -/
def flattened (occurrences : List OccurrenceInput) : List SourceRecord :=
  occurrences.flatMap (·.records)

def derive (tenant : TenantId) (occurrences : List OccurrenceInput) :
    Except EpisodeGap DerivedEpisode :=
  if MAX_EPISODE_OCCURRENCES < occurrences.length then .error .oversized
  else if MAX_EPISODE_RECORDS < (flattened occurrences).length then .error .oversized
  else if (flattened occurrences).length = 0 then .error .empty
  else
    let ids := sortIds (occurrences.map (·.occurrenceId))
    if hasDuplicates ids then .error .malformed
    else if (sortOrdinals ((flattened occurrences).map (·.ordinal))).zipIdx.any
        (fun p => p.1 != UInt64.ofNat p.2) then .error .malformed
    else do
      let p ← redactAll scan key ⟨[], fun _ => 0, fun _ => 0, 0⟩ (flattened occurrences)
      .ok (assemble tenant key ids p.markerSums p.pseudonymSums p.accepted)

end

/-! ## What the checks accept -/

theorem sortIds_eq_of_perm {ids ids'} (h : ids.Perm ids') : sortIds ids = sortIds ids' :=
  mergeSort_eq_of_perm (fun _ _ _ _ => Digest.ext) h

theorem hasDuplicates_sortIds {ids} : hasDuplicates (sortIds ids) = false ↔ ids.Nodup := by
  have hsorted := @mergeSort_sorted _ _ compare _ Digest.raw ids
  rw [sortIds, hasDuplicates_eq_false (fun _ _ => Digest.ext) hsorted]
  exact (mergeSort_perm ids _).nodup_iff

/-- The numbers from zero on. -/
def firstOrdinals (n : Nat) : List UInt64 := (List.range n).map UInt64.ofNat

theorem getElem_firstOrdinals {n i} (h : i < (firstOrdinals n).length) :
    (firstOrdinals n)[i] = UInt64.ofNat i := by
  simp [firstOrdinals]

theorem zipIdx_eq_firstOrdinals {xs} :
    xs.zipIdx.any (fun p => p.1 != UInt64.ofNat p.2) = false ↔ xs = firstOrdinals xs.length := by
  have hlen : (firstOrdinals xs.length).length = xs.length := by simp [firstOrdinals]
  simp only [List.any_eq_false, bne_iff_ne, ne_eq, not_not, Prod.forall, mem_zipIdx_iff_getElem?]
  constructor
  · intro h
    refine ext_getElem hlen.symm fun i hi hi' => ?_
    rw [getElem_firstOrdinals]
    exact h _ _ (getElem?_eq_getElem hi)
  · intro h x i hx
    obtain ⟨hi, rfl⟩ := List.getElem?_eq_some_iff.mp hx
    rw [getElem_of_eq h, getElem_firstOrdinals]

theorem toNat_of_mem_range {n i} (hn : n ≤ MAX_EPISODE_RECORDS) (hi : i ∈ List.range n) :
    (UInt64.ofNat i).toNat = i := by
  have hlt := mem_range.mp hi
  rw [UInt64.toNat_ofNat']
  unfold MAX_EPISODE_RECORDS at hn
  omega

theorem firstOrdinals_sorted {n} (hn : n ≤ MAX_EPISODE_RECORDS) :
    (firstOrdinals n).Pairwise fun a b => (compare a.toNat b.toNat != .gt) = true := by
  rw [firstOrdinals, pairwise_map]
  refine List.pairwise_lt_range.imp_of_mem fun {i j} hi hj hlt => ?_
  rw [toNat_of_mem_range hn hi, toNat_of_mem_range hn hj, bne_iff_ne, ne_eq, compare_gt_iff_gt]
  exact Nat.lt_asymm hlt

theorem sortOrdinals_eq {os n} (hn : n ≤ MAX_EPISODE_RECORDS) :
    sortOrdinals os = firstOrdinals n ↔ os.Perm (firstOrdinals n) := by
  constructor
  · intro h
    rw [← h]
    exact (mergeSort_perm os _).symm
  · intro h
    have hkey : ∀ a ∈ os, ∀ b ∈ os, a.toNat = b.toNat → a = b := fun _ _ _ _ => UInt64.toNat.inj
    exact (mergeSort_eq_of_perm hkey h).trans (mergeSort_of_pairwise (firstOrdinals_sorted hn))

/-! ## The loop over the records -/

section
variable {scan : Scan} {key : PseudonymKey} {records : List SourceRecord}
  {out : List RedactedOccurrence}

theorem redactAll_ok : ∀ {p p'}, redactAll scan key p records = .ok p' ↔
    ∃ out, List.Forall₂ (fun r o => redacted scan key r = .ok o) records out ∧
      p' = out.foldl Progress.push p := by
  induction records with
  | nil =>
    intro p p'
    simp [redactAll, eq_comm]
  | cons record rest ih =>
    intro p p'
    simp only [redactAll, bind_eq_ok, mapError_eq_ok, ih, forall₂_cons_left_iff]
    constructor
    · rintro ⟨o, ho, out, hout, rfl⟩
      exact ⟨o :: out, ⟨o, out, ho, hout, rfl⟩, rfl⟩
    · rintro ⟨_, ⟨o, out, ho, hout, rfl⟩, rfl⟩
      exact ⟨o, ho, out, hout, rfl⟩

/-- What the census counts under one class, over all records. -/
def total {c : Type} (counts : RedactedOccurrence → c → Nat) (out : List RedactedOccurrence) (k : c) :
    Nat := (out.map fun o => counts o k).sum

theorem foldl_push : ∀ {p : Progress}, (out.foldl Progress.push p).accepted = p.accepted ++ out ∧
    (out.foldl Progress.push p).markerSums
      = (fun c => p.markerSums c + total RedactedOccurrence.markerCounts out c) ∧
    (out.foldl Progress.push p).pseudonymSums
      = fun c => p.pseudonymSums c + total RedactedOccurrence.pseudonymCounts out c := by
  induction out with
  | nil =>
    intro p
    simp [total]
  | cons o out ih =>
    intro p
    obtain ⟨h1, h2, h3⟩ := @ih (p.push o)
    rw [foldl_cons, h1, h2, h3]
    simp [Progress.push, total, Nat.add_assoc]

/-- The episode of a list of redacted records. -/
def composed (tenant : TenantId) (key : PseudonymKey) (ids : List OccurrenceId)
    (out : List RedactedOccurrence) : DerivedEpisode :=
  assemble tenant key (sortIds ids) (total RedactedOccurrence.markerCounts out)
    (total RedactedOccurrence.pseudonymCounts out) out

/-- An input that is entirely acceptable. -/
structure Acceptable (scan : Scan) (key : PseudonymKey) (occurrences : List OccurrenceInput) : Prop
    where
  occurrences_le : occurrences.length ≤ MAX_EPISODE_OCCURRENCES
  records_le : (flattened occurrences).length ≤ MAX_EPISODE_RECORDS
  records_pos : 0 < (flattened occurrences).length
  distinct : (occurrences.map (·.occurrenceId)).Nodup
  contiguous : ((flattened occurrences).map (·.ordinal)).Perm
    (firstOrdinals (flattened occurrences).length)
  redacts : ∀ r ∈ flattened occurrences, ∃ o, redacted scan key r = .ok o

theorem exists_forall₂ {α β : Type} {R : α → β → Prop} {xs} :
    (∃ ys, List.Forall₂ R xs ys) ↔ ∀ x ∈ xs, ∃ y, R x y := by
  induction xs with
  | nil => simp
  | cons x xs ih =>
    rw [forall_mem_cons, ← ih]
    constructor
    · rintro ⟨_, h⟩
      obtain ⟨y, ys, hy, hys, rfl⟩ := forall₂_cons_left_iff.mp h
      exact ⟨⟨y, hy⟩, ys, hys⟩
    · rintro ⟨⟨y, hy⟩, ys, hys⟩
      exact ⟨y :: ys, .cons hy hys⟩

theorem composed_eq (tenant : TenantId) (ids : List OccurrenceId) :
    (let p := out.foldl Progress.push ⟨[], fun _ => 0, fun _ => 0, 0⟩
     assemble tenant key (sortIds ids) p.markerSums p.pseudonymSums p.accepted)
      = composed tenant key ids out := by
  obtain ⟨h1, h2, h3⟩ := @foldl_push out ⟨[], fun _ => 0, fun _ => 0, 0⟩
  simp [h1, h2, h3, composed]

theorem contiguous_iff {os} (hn : os.length ≤ MAX_EPISODE_RECORDS) :
    (sortOrdinals os).zipIdx.any (fun p => p.1 != UInt64.ofNat p.2) = false ↔
      os.Perm (firstOrdinals os.length) := by
  have hlen : (sortOrdinals os).length = os.length := length_mergeSort os
  rw [zipIdx_eq_firstOrdinals, hlen, sortOrdinals_eq hn]

variable {tenant : TenantId} {a b : List OccurrenceInput} {e : DerivedEpisode}

/-- `derive` composes what is entirely acceptable, and nothing else. -/
theorem derive_ok : derive scan key tenant a = .ok e ↔ Acceptable scan key a ∧ ∃ out,
    List.Forall₂ (fun r o => redacted scan key r = .ok o) (flattened a) out ∧
      e = composed tenant key (a.map (·.occurrenceId)) out := by
  have hmap : ((flattened a).map (·.ordinal)).length = (flattened a).length := length_map _
  simp only [derive, refuse_eq_ok, not_lt, Bool.not_eq_true, hasDuplicates_sortIds, bind_eq_ok,
    redactAll_ok]
  constructor
  · rintro ⟨hocc, hrecs, hpos, hdistinct, hcont, _, ⟨out, hout, rfl⟩, h⟩
    cases h
    rw [contiguous_iff (hmap.symm ▸ hrecs), hmap] at hcont
    exact ⟨⟨hocc, hrecs, Nat.pos_of_ne_zero hpos, hdistinct, hcont, exists_forall₂.mp ⟨out, hout⟩⟩,
      out, hout, composed_eq tenant _⟩
  · rintro ⟨ha, out, hout, rfl⟩
    refine ⟨ha.occurrences_le, ha.records_le, Nat.ne_of_gt ha.records_pos, ha.distinct, ?_,
      _, ⟨out, hout, rfl⟩, congrArg Except.ok (composed_eq tenant _)⟩
    rw [contiguous_iff (hmap.symm ▸ ha.records_le), hmap]
    exact ha.contiguous

/-! ## Presentation does not matter -/

/-- Redacted records stand where their sources do. -/
theorem ordinals_eq (h : List.Forall₂ (fun r o => redacted scan key r = .ok o) records out) :
    out.map (·.ordinal) = (records.map (·.ordinal)).map UInt64.toInt64 := by
  rw [map_map, eq_comm, ← forall₂_eq_eq_eq, forall₂_map_left_iff,
    forall₂_map_right_iff]
  exact h.imp fun r o ho => (redactOccurrence_ok ho).1.symm

theorem firstOrdinals_nodup {n} (hn : n ≤ MAX_EPISODE_RECORDS) : (firstOrdinals n).Nodup := by
  refine List.Nodup.map_on ?_ nodup_range
  intro i hi j hj h
  rw [← toNat_of_mem_range hn hi, h, toNat_of_mem_range hn hj]

theorem Acceptable.ordinals_nodup (ha : Acceptable scan key a)
    (hout : List.Forall₂ (fun r o => redacted scan key r = .ok o) (flattened a) out) :
    (out.map (·.ordinal)).Nodup := by
  have hinj : Function.Injective UInt64.toInt64 := fun _ _ h => congrArg Int64.toUInt64 h
  rw [ordinals_eq hout]
  exact (ha.contiguous.nodup_iff.mpr (firstOrdinals_nodup ha.records_le)).map hinj

/-- Redacted records with distinct places, in any order, compose one episode. -/
theorem composed_eq_of_perm {ids ids'} {out'} (hids : ids.Perm ids') (hout : out.Perm out')
    (hdistinct : (out.map (·.ordinal)).Nodup) :
    composed tenant key ids out = composed tenant key ids' out' := by
  have hkey : ∀ a ∈ out, ∀ b ∈ out, a.ordinal.toInt = b.ordinal.toInt → a = b :=
    fun a ha b hb h => inj_on_of_nodup_map hdistinct ha hb (Int64.toInt.inj h)
  have hsorted : byOrdinal out = byOrdinal out' := mergeSort_eq_of_perm hkey hout
  have htotal : ∀ {c : Type} (counts : RedactedOccurrence → c → Nat), total counts out = total counts out' :=
    fun counts => funext fun k => (hout.map _).sum_eq
  unfold composed assemble
  rw [sortIds_eq_of_perm hids, htotal, htotal, hsorted]

theorem Acceptable.of_perm (ha : Acceptable scan key a)
    (hids : (a.map (·.occurrenceId)).Perm (b.map (·.occurrenceId)))
    (hrecords : (flattened a).Perm (flattened b)) : Acceptable scan key b := by
  have hlen : b.length = a.length := by simpa using hids.length_eq.symm
  have hcount := hrecords.length_eq
  refine ⟨hlen ▸ ha.occurrences_le, hcount ▸ ha.records_le, hcount ▸ ha.records_pos,
    hids.nodup_iff.mp ha.distinct, ?_, fun r hr => ha.redacts r (hrecords.mem_iff.mpr hr)⟩
  rw [← hcount]
  exact (hrecords.map _).symm.trans ha.contiguous

theorem derive_of_perm (hids : (a.map (·.occurrenceId)).Perm (b.map (·.occurrenceId)))
    (hrecords : (flattened a).Perm (flattened b)) (h : derive scan key tenant a = .ok e) :
    derive scan key tenant b = .ok e := by
  obtain ⟨ha, out, hout, rfl⟩ := derive_ok.mp h
  obtain ⟨out', hout', hperm⟩ := perm_comp_forall₂ hrecords.symm hout
  exact derive_ok.mpr ⟨ha.of_perm hids hrecords, out', hout',
    composed_eq_of_perm hids hperm.symm (ha.ordinals_nodup hout)⟩

/-! ## What an episode carries -/

theorem toInt_toInt64 {n i} (hn : n ≤ MAX_EPISODE_RECORDS) (hi : i ∈ List.range n) :
    (UInt64.ofNat i).toInt64.toInt = i := by
  have hnat : (UInt64.ofNat i).toBitVec.toNat = i := toNat_of_mem_range hn hi
  have hlt := mem_range.mp hi
  have hint : (UInt64.ofNat i).toInt64.toInt = (UInt64.ofNat i).toBitVec.toInt := rfl
  unfold MAX_EPISODE_RECORDS at hn
  rw [hint, BitVec.toInt_eq_toNat_of_lt (by omega), hnat]

/-- Records in the order of their ordinals are left so. -/
theorem byOrdinal_eq {n} (hn : n ≤ MAX_EPISODE_RECORDS)
    (h : out.map (·.ordinal) = (firstOrdinals n).map UInt64.toInt64) : byOrdinal out = out := by
  refine mergeSort_of_pairwise ?_
  have hsorted : (out.map (·.ordinal)).Pairwise fun a b => (compare a.toInt b.toInt != .gt) = true := by
    rw [h, firstOrdinals, map_map, pairwise_map]
    refine List.pairwise_lt_range.imp_of_mem fun {i j} hi hj hlt => ?_
    simp only [Function.comp_apply, toInt_toInt64 hn hi, toInt_toInt64 hn hj, bne_iff_ne, ne_eq,
      compare_gt_iff_gt]
    omega
  exact pairwise_map.mp hsorted

/-- A census sums counts that each stay within the budget, so it does not saturate. -/
theorem censusInt_total {c : Type} {counts : RedactedOccurrence → c → Nat} {k}
    (hcounts : ∀ o ∈ out, counts o k ≤ MAX_REPLACEMENTS) (hlen : out.length ≤ MAX_EPISODE_RECORDS) :
    (censusInt (total counts out k)).toInt = total counts out k := by
  have hsum : total counts out k ≤ (out.map fun o => counts o k).length * MAX_REPLACEMENTS := by
    refine sum_le_card_nsmul _ _ fun n hn => ?_
    obtain ⟨o, ho, rfl⟩ := mem_map.mp hn
    exact hcounts o ho
  rw [length_map] at hsum
  unfold MAX_EPISODE_RECORDS at hlen
  unfold MAX_REPLACEMENTS at hsum
  have hlt : total counts out k < 0x8000000000000000 := by omega
  rw [censusInt, if_pos hlt, Int64.toInt_ofNat_of_lt hlt]

/-- The episode carries the redaction of every record once, in the order of their ordinals, and
both censuses are the sums over the records. -/
structure Carries (scan : Scan) (key : PseudonymKey) (records : List SourceRecord)
    (out : List RedactedOccurrence) (e : DerivedEpisode) : Prop where
  ordinals : records.map (·.ordinal) = firstOrdinals records.length
  redactions : List.Forall₂ (fun r o => redacted scan key r = .ok o) records out
  listed : Object.get "records" e.record = some (.array (out.map RedactedOccurrence.recordValue))
  markers : Object.get "marker_counts" e.record
    = some (census (total RedactedOccurrence.markerCounts out))
  pseudonyms : Object.get "pseudonym_counts" e.record
    = some (census (total RedactedOccurrence.pseudonymCounts out))
  markersExact : ∀ c, (censusInt (total RedactedOccurrence.markerCounts out c)).toInt
    = total RedactedOccurrence.markerCounts out c
  pseudonymsExact : ∀ c, (censusInt (total RedactedOccurrence.pseudonymCounts out c)).toInt
    = total RedactedOccurrence.pseudonymCounts out c

/-- A member set before the digest is found in the assembled record. -/
theorem get_assemble {ids markerSums pseudonymSums name v}
    (h : (name, v) ∈ baseMembers tenant key ids markerSums pseudonymSums (byOrdinal out)) :
    Object.get name (assemble tenant key ids markerSums pseudonymSums out).record = some v := by
  unfold assemble
  dsimp only
  rw [set_assembled]
  refine get_assembled ?_ (mem_append_left _ h)
  simp only [baseMembers, cons_append, nil_append, map_cons, map_nil]
  decide

theorem exists_sorted (ha : Acceptable scan key a) : ∃ records : List SourceRecord,
    records.Perm (flattened a) ∧
    records.map (·.ordinal) = firstOrdinals records.length := by
  have hperm := mergeSort_perm (flattened a)
    fun x y => compare x.ordinal.toNat y.ordinal.toNat != .gt
  refine ⟨_, hperm, ?_⟩
  rw [hperm.length_eq]
  have hkey : ∀ {xs : List UInt64}, ∀ x ∈ xs, ∀ y ∈ xs, x.toNat = y.toNat → x = y :=
    fun _ _ _ _ => UInt64.toNat.inj
  exact eq_of_perm hkey ((hperm.map _).trans ha.contiguous)
    (pairwise_map.mpr (mergeSort_sorted _)) (firstOrdinals_sorted ha.records_le)

theorem derive_carries (h : derive scan key tenant a = .ok e) :
    ∃ records out, List.Perm records (flattened a) ∧ Carries scan key records out e := by
  obtain ⟨ha, out, hout, rfl⟩ := derive_ok.mp h
  obtain ⟨records, hperm, hordinals⟩ := exists_sorted ha
  obtain ⟨out', hout', hperm'⟩ := perm_comp_forall₂ hperm hout
  have hle : records.length ≤ MAX_EPISODE_RECORDS := hperm.length_eq ▸ ha.records_le
  have hsorted : byOrdinal out' = out' := by
    refine byOrdinal_eq hle ?_
    rw [ordinals_eq hout', hordinals]
  have hlen : out'.length ≤ MAX_EPISODE_RECORDS := hout'.length_eq ▸ hle
  have hbudget : ∀ o ∈ out', (∀ c, o.markerCounts c ≤ MAX_REPLACEMENTS) ∧
      ∀ c, o.pseudonymCounts c ≤ MAX_REPLACEMENTS := by
    intro o ho
    obtain ⟨r, hr⟩ := exists_forall₂.mp ⟨records, hout'.flip⟩ o ho
    exact (redactOccurrence_ok hr).2
  rw [composed_eq_of_perm (.refl _) hperm'.symm (ha.ordinals_nodup hout)]
  refine ⟨records, out', hperm, hordinals, hout', ?_, ?_, ?_, fun c => ?_, fun c => ?_⟩
  · refine get_assemble ?_
    simp only [baseMembers, hsorted]
    simp
  · refine get_assemble ?_
    simp [baseMembers]
  · refine get_assemble ?_
    simp [baseMembers]
  · exact censusInt_total (fun o ho => (hbudget o ho).1 c) hlen
  · exact censusInt_total (fun o ho => (hbudget o ho).2 c) hlen

end

/-- A user's turn that no detector claims a part of. -/
def turn (ordinal : UInt64) : SourceRecord := ⟨"user", ordinal, none, [], "hello"⟩

def silent : Scan := fun _ _ probes => .ok ([], probes)

end AgentArchivist.Protocol.EpisodeDerivation
