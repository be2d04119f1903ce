import AgentArchivist.Lib.Interleave
import AgentArchivist.Protocol.EnvelopeLossless
import AgentArchivist.Storage.BlobFailure
import AgentArchivist.Storage.ObjectStore
import AgentArchivist.Storage.Sequence

/-! # The order of the three objects

Replicas run the commit sequence for envelopes of their own against one store. Each
replica by itself writes an object only after the one before it was answered for; over
every interleaving, and wherever replicas stop, no object in the store is without the
ones it rests on. -/
namespace AgentArchivist.Storage.CommitOrder
open Lib Protocol Storage List
open Interleave Proc Derivation IngestEnvelope ObjectKey Blob BlobFailure BlobStream
open ManifestCalls Manifests ObjectStore RawWrite Sequence WriterParts

/-- What one replica was given. -/
structure Job where
  envelope : Envelope
  delegation : Delegation
  State : Type
  encoder : BlobEncoder State
  state : State
  canonical : List Slice

namespace Job

def program (job : Job) : StoreM (Except SequenceError SequenceCommit) :=
  commitSequence job.envelope job.delegation job.encoder job.state job.canonical

def expectation (job : Job) : BlobExpectation :=
  ⟨job.envelope.blobDigest, job.envelope.uncompressedSize.value⟩

def blobKey (job : Job) : BlobObjectKey :=
  .new job.envelope.tenantId .zstdV1 job.envelope.blobDigest

/-- The stored bytes come from a canonical stream of the declared digest and size. -/
def Stored (job : Job) (stored : List UInt8) : Prop :=
  Checked job.expectation job.encoder job.state job.canonical stored

/-! ## What one replica does -/

def BlobDone (job : Job) (t : Trace Store) : Prop :=
  ∃ upload parts outcome, Opened job.blobKey upload t ∧
    ⟨.commitMultipart upload parts, Except.ok outcome⟩ ∈ t

def OccurrenceDone (job : Job) (t : Trace Store) : Prop :=
  ∃ key bytes, occurrenceObject job.envelope = .ok (key, bytes) ∧ Placed (.occurrence key) t

/-- When a replica may write a manifest. -/
def Places (job : Job) (t : Trace Store) : ManifestKey → List UInt8 → Prop
  | .occurrence key, bytes => occurrenceObject job.envelope = .ok (key, bytes) ∧ job.BlobDone t
  | .attestation key, bytes =>
    attestationObject job.envelope job.delegation = .ok (key, bytes) ∧ job.OccurrenceDone t

/-- When a replica makes a call. -/
def Pre (job : Job) (t : Trace Store) : Call → Prop
  | .beginMultipart key => key = job.blobKey
  | .writePart upload _ _ => Opened job.blobKey upload t
  | .commitMultipart upload parts => Opened job.blobKey upload t ∧
      ∃ stored, job.Stored stored ∧ Whole upload parts stored t
  | .writeManifest key bytes => job.Places t key bytes
  | .createManifestIfAbsent key bytes => job.Places t key bytes
  | _ => True

/-- What a replica has done when it returns. -/
def Returned (job : Job) (r : Except SequenceError SequenceCommit) (t : Trace Store) : Prop :=
  match r with
  | .ok commit => job.BlobDone t ∧ commit.blob.key = job.blobKey ∧
      Placed commit.provenance.occurrence.key t ∧ Placed commit.provenance.attestation.key t
  | .error error =>
    match error.durable with
    | .nothing => True
    | .blobOnly => job.BlobDone t
    | .blobAndOccurrence => job.BlobDone t ∧ job.OccurrenceDone t

end Job

variable {allowed : Trace Store → Event Store → Prop} {job : Job} {t t' : Trace Store}

theorem Job.BlobDone.mono (h : job.BlobDone t) (hsub : t ⊆ t') : job.BlobDone t' := by
  obtain ⟨upload, parts, outcome, hopened, hmem⟩ := h
  exact ⟨upload, parts, outcome, hsub hopened, hsub hmem⟩

theorem Job.OccurrenceDone.mono (h : job.OccurrenceDone t) (hsub : t ⊆ t') :
    job.OccurrenceDone t' := by
  obtain ⟨key, bytes, hobject, hplaced⟩ := h
  exact ⟨key, bytes, hobject, hplaced.mono hsub⟩

theorem Job.Places.mono {key bytes} (h : job.Places t key bytes) (hsub : t ⊆ t') :
    job.Places t' key bytes := by
  cases key with
  | occurrence | attestation => exact ⟨h.1, h.2.mono hsub⟩

theorem snoc_subset (t : Trace Store) (e : Event Store) : t ⊆ t ++ [e] :=
  subset_append_left t [e]

/-- The manifest commit of a replica, once what it rests on is done. -/
theorem commitAtKey_frame {P : Trace Store → Prop} {key bytes} (hP : ∀ t e, P t → P (t ++ [e]))
    (hplaces : ∀ t, P t → job.Places t key bytes) (h : P t) :
    Safe allowed job.Pre (fun r t' => (∀ commit, r = .ok commit → commit.key = key ∧ Placed key t') ∧
      P t') (commitAtKey key bytes) t :=
  (commitAtKey_safe (fun _ _ => trivial) hplaces hplaces).frame hP h

theorem commitProvenance_safe (h : job.BlobDone t) :
    Safe allowed job.Pre (fun r t' => job.BlobDone t' ∧
      match r with
      | .ok commit => Placed commit.occurrence.key t' ∧ Placed commit.attestation.key t'
      | .error error => error.durable = .blobOnly ∨
          error.durable = .blobAndOccurrence ∧ job.OccurrenceDone t')
      (commitProvenance job.envelope job.delegation) t := by
  have hblob : ∀ t e, job.BlobDone t → job.BlobDone (t ++ [e]) := fun t e h =>
    h.mono (snoc_subset t e)
  unfold commitProvenance commitOccurrenceManifest
  cases hocc : occurrenceObject job.envelope with
  | error error => exact ⟨h, .inl rfl⟩
  | ok object =>
    obtain ⟨key, bytes⟩ := object
    have hplaces : ∀ t, job.BlobDone t → job.Places t (.occurrence key) bytes := fun t h => ⟨hocc, h⟩
    refine Safe.bind ((commitAtKey_frame hblob hplaces h).mono ?_)
    rintro r t1 ⟨hafter, hdone⟩
    cases r with
    | error error => exact ⟨hdone, .inl rfl⟩
    | ok occurrence =>
      obtain ⟨hkey, hplaced⟩ := hafter occurrence rfl
      rw [← hkey] at hplaced
      have hoccurrence : job.OccurrenceDone t1 := ⟨key, bytes, hocc, hkey ▸ hplaced⟩
      unfold commitAttestationManifest
      cases hatt : attestationObject job.envelope job.delegation with
      | error error => exact ⟨hdone, .inr ⟨rfl, hoccurrence⟩⟩
      | ok object =>
        obtain ⟨key', bytes'⟩ := object
        have hstable : ∀ t e, job.BlobDone t ∧ job.OccurrenceDone t ∧ Placed occurrence.key t →
            job.BlobDone (t ++ [e]) ∧ job.OccurrenceDone (t ++ [e]) ∧
              Placed occurrence.key (t ++ [e]) := fun t e h =>
          have hsub := snoc_subset t e
          ⟨h.1.mono hsub, h.2.1.mono hsub, h.2.2.mono hsub⟩
        have hplaces' : ∀ t, job.BlobDone t ∧ job.OccurrenceDone t ∧ Placed occurrence.key t →
            job.Places t (.attestation key') bytes' := fun t h => ⟨hatt, h.2.1⟩
        refine Safe.bind
          ((commitAtKey_frame hstable hplaces' ⟨hdone, hoccurrence, hplaced⟩).mono ?_)
        rintro r t2 ⟨hafter', hdone', hoccurrence', hplaced'⟩
        cases r with
        | error error => exact ⟨hdone', .inr ⟨rfl, hoccurrence'⟩⟩
        | ok attestation =>
          obtain ⟨hkey', hattested⟩ := hafter' attestation rfl
          exact ⟨hdone', hplaced', hkey' ▸ hattested⟩

theorem program_safe (job : Job) : Safe allowed job.Pre job.Returned job.program [] := by
  have hblob : Safe allowed job.Pre (AfterBlob job.blobKey) (commitBlob job.envelope.tenantId
      job.expectation job.encoder job.state job.canonical) [] := by
    have hsize : job.expectation.uncompressedBytes.toNat < 2 ^ 63 := job.envelope.uncompressedSize.fits
    have hbegin : job.Pre [] (.beginMultipart job.blobKey) := Eq.refl job.blobKey
    refine commitBlob_safe rfl hbegin ?_ ?_
    · intro upload t c hc hopened
      cases c with
      | writePart upload' number bytes =>
        have heq : upload' = upload := hc
        subst heq
        exact hopened
      | beginMultipart | commitMultipart | writeManifest | createManifestIfAbsent => exact hc.elim
      | _ => exact trivial
    · exact fun upload t parts stored hopened _ hchecked hwhole =>
        ⟨hopened, stored, hchecked (.inr hsize), hwhole⟩
  refine Safe.bind (hblob.mono fun r t hafter => ?_)
  cases r with
  | error error => exact trivial
  | ok blob =>
    obtain ⟨hkey, hdone⟩ := hafter.completed blob rfl
    refine Safe.bind ((commitProvenance_safe hdone).mono ?_)
    rintro r t' ⟨hdone', hresult⟩
    cases r with
    | error error =>
      show match error.durable with
        | .nothing => True
        | .blobOnly => job.BlobDone t'
        | .blobAndOccurrence => job.BlobDone t' ∧ job.OccurrenceDone t'
      rcases hresult with hdurable | ⟨hdurable, hoccurrence⟩
      · rw [hdurable]
        exact hdone'
      · rw [hdurable]
        exact ⟨hdone', hoccurrence⟩
    | ok provenance => exact ⟨hdone', hkey, hresult⟩

/-! ## What a completion stores -/

/-- The parts of a session after more attempts, all of which took effect. -/
def storeAll (parts : PartNumber → Option (List UInt8)) (as : List Attempt) :
    PartNumber → Option (List UInt8) :=
  as.foldl (fun parts a => Function.update parts a.number (some a.bytes)) parts

def storedParts (as : List Attempt) : PartNumber → Option (List UInt8) := storeAll (fun _ => none) as

def AllOk (as : List Attempt) : Prop := ∀ a ∈ as, ∃ commitment, a.reply = .ok commitment

theorem storeAll_of_not_mem {as} {n} (h : n ∉ as.map (·.number))
    (parts : PartNumber → Option (List UInt8)) : storeAll parts as n = parts n := by
  induction as generalizing parts with
  | nil => rfl
  | cons a as ih =>
    obtain ⟨hne, hrest⟩ := not_or.mp (mem_cons.not.mp h)
    exact (ih hrest _).trans (Function.update_of_ne hne _ _)

theorem storeAll_of_mem {as} (h : (as.map (·.number)).Nodup) {a} (ha : a ∈ as)
    (parts : PartNumber → Option (List UInt8)) : storeAll parts as a.number = some a.bytes := by
  induction as generalizing parts with
  | nil => exact absurd ha not_mem_nil
  | cons b as ih =>
    obtain ⟨hnew, hrest⟩ := nodup_cons.mp h
    rcases mem_cons.mp ha with rfl | ha
    · exact (storeAll_of_not_mem hnew _).trans (Function.update_self _ _ _)
    · exact ih hrest ha _

/-- A completion of all that was sent stores the bytes written. -/
theorem assemble_whole {u parts stored} {session} (h : Whole u parts stored t)
    (hsession : session.parts = storedParts (attempts u t)) :
    Contents.assemble session parts = stored := by
  have hnumbers : ((attempts u t).map (·.number)).Nodup := by
    have hrange : (parts.map (·.number.get)).Nodup := by
      rw [h.numbers]
      exact nodup_range'
    have hsame : parts.map (·.number.get) = ((attempts u t).map (·.number)).map (·.get) := by
      rw [h.attempts, h.parts, map_map, map_map, map_map]
      refine map_congr_left fun p hp => ?_
      exact congrArg PartNumber.get (h.same p hp)
    rw [hsame] at hrange
    exact hrange.of_map _
  have hpart : ∀ p ∈ sent u t, (session.parts p.commitment.number).getD [] = p.bytes := by
    intro p hp
    have hattempt : p.attempt ∈ attempts u t := by
      rw [h.attempts]
      exact mem_map.mpr ⟨p, hp, rfl⟩
    have hget : storedParts (attempts u t) p.number = some p.bytes :=
      storeAll_of_mem hnumbers hattempt _
    rw [hsession, h.same p hp, hget]
    rfl
  rw [Contents.assemble, h.parts, flatMap_map, ← h.written]
  exact flatMap_congr hpart

/-! ## Over all replicas -/

variable {ι : Type}

def replicas (jobs : ι → Job) : System Store ι Contents (Except SequenceError SequenceCommit) :=
  ⟨fun i => (jobs i).program, Contents.empty, Serves⟩

/-- What the store holds, and what the replicas did about it. -/
structure Inv (jobs : ι → Job) (s : Contents) (made : ι → Trace Store) : Prop where
  minted : ∀ i u, Opened (jobs i).blobKey u (made i) → u ∈ s.minted
  apart : ∀ i j u, Opened (jobs i).blobKey u (made i) → Opened (jobs j).blobKey u (made j) → i = j
  unsent : ∀ i u, ¬ Opened (jobs i).blobKey u (made i) → attempts u (made i) = []
  sessions : ∀ i u session, Opened (jobs i).blobKey u (made i) → s.sessions u = some session →
    session.key = (jobs i).blobKey ∧
      (AllOk (attempts u (made i)) → session.parts = storedParts (attempts u (made i)))
  placed : ∀ i key, Placed key (made i) → s.manifests key ≠ none
  completed : ∀ i u parts outcome, ⟨.commitMultipart u parts, Except.ok outcome⟩ ∈ made i →
    s.blobs (jobs i).blobKey ≠ none ∧ ∃ stored, (jobs i).Stored stored
  manifests : ∀ key bytes, s.manifests key = some bytes → ∃ i, (jobs i).Places (made i) key bytes
  blobs : ∀ key bytes, s.blobs key = some bytes → ∃ i, (jobs i).blobKey = key ∧ (jobs i).Stored bytes

variable {jobs : ι → Job} {s s' : Contents} {made : ι → Trace Store} {i j : ι} {e : Event Store}

theorem inv_start : Inv jobs Contents.empty fun _ => [] where
  minted _ _ h := absurd h not_mem_nil
  apart _ _ _ h := absurd h not_mem_nil
  unsent _ _ _ := rfl
  sessions _ _ _ h := absurd h not_mem_nil
  placed _ _ h := by
    obtain ⟨_, ⟨_, hmem⟩ | ⟨_, hmem⟩⟩ := h <;> exact absurd hmem not_mem_nil
  completed _ _ _ _ h := absurd h not_mem_nil
  manifests _ _ h := nomatch h
  blobs _ _ h := nomatch h

variable [DecidableEq ι]

/-- One more call of one replica. -/
def grow (made : ι → Trace Store) (i : ι) (e : Event Store) : ι → Trace Store :=
  Function.update made i (made i ++ [e])

theorem mem_grow {x} : x ∈ grow made i e j ↔ x ∈ made j ∨ (j = i ∧ x = e) := by
  unfold grow
  by_cases hj : j = i
  · subst hj
    simp
  · simp [hj]

theorem subset_grow (j : ι) : made j ⊆ grow made i e j := fun _ h => mem_grow.mpr (.inl h)

theorem attempts_grow (u : MultipartUploadId) : attempts u (grow made i e j) =
    attempts u (made j) ++ if j = i then (attemptOf u e).toList else [] := by
  unfold grow
  by_cases hj : j = i
  · subst hj
    cases h : attemptOf u e <;> simp [attempts, h]
  · simp [hj]

theorem opened_grow {key u} : Opened key u (grow made i e j) ↔
    Opened key u (made j) ∨ (j = i ∧ e = ⟨.beginMultipart key, Except.ok u⟩) := by
  unfold Opened
  rw [mem_grow, eq_comm (a := e)]

theorem placed_grow {key} (h : Placed key (grow made i e j)) :
    Placed key (made j) ∨ Placed key [e] := by
  obtain ⟨bytes, ⟨outcome, hmem⟩ | ⟨answer, hmem⟩⟩ := h
  · rcases mem_grow.mp hmem with hmem | ⟨-, hmem⟩
    · exact .inl ⟨bytes, .inl ⟨outcome, hmem⟩⟩
    · exact .inr ⟨bytes, .inl ⟨outcome, mem_singleton.mpr hmem⟩⟩
  · rcases mem_grow.mp hmem with hmem | ⟨-, hmem⟩
    · exact .inl ⟨bytes, .inr ⟨answer, hmem⟩⟩
    · exact .inr ⟨bytes, .inr ⟨answer, mem_singleton.mpr hmem⟩⟩

theorem eq_of_attemptOf {u} {a} (h : attemptOf u e = some a) :
    e = ⟨.writePart u a.number a.bytes, a.reply⟩ := by
  obtain ⟨c, reply⟩ := e
  cases c with
  | writePart upload number bytes =>
    have h' : (if upload = u then some (⟨number, bytes, reply⟩ : Attempt) else none) = some a := h
    by_cases hu : upload = u
    · rw [if_pos hu] at h'
      cases h'
      subst hu
      rfl
    · rw [if_neg hu] at h'
      cases h'
  | _ => cases h

section
variable (h : Inv jobs s made) (hpre : (jobs i).Pre (made i) e.call) (hserves : Serves s e s')
include h hserves

variable {u : MultipartUploadId}

theorem minted_step (ho : Opened (jobs j).blobKey u (grow made i e j)) :
    u ∈ s'.minted := by
  rcases opened_grow.mp ho with ho | ⟨-, rfl⟩
  · exact hserves.minted_kept (h.minted j u ho)
  · exact hserves.begin.2

theorem apart_step {k} (hj : Opened (jobs j).blobKey u (grow made i e j))
    (hk : Opened (jobs k).blobKey u (grow made i e k)) : j = k := by
  rcases opened_grow.mp hj with hj' | ⟨rfl, rfl⟩
  · rcases opened_grow.mp hk with hk' | ⟨rfl, rfl⟩
    · exact h.apart j k u hj' hk'
    · exact absurd (h.minted j u hj') hserves.begin.1
  · rcases opened_grow.mp hk with hk' | ⟨rfl, -⟩
    · exact absurd (h.minted k u hk') hserves.begin.1
    · rfl

include hpre

theorem sessions_step {session} (ho : Opened (jobs j).blobKey u (grow made i e j))
    (hsession : s'.sessions u = some session) :
    session.key = (jobs j).blobKey ∧ (AllOk (attempts u (grow made i e j)) →
      session.parts = storedParts (attempts u (grow made i e j))) := by
  rw [attempts_grow]
  rcases hserves.sessions_new hsession with ⟨hold, hbegin, hpart⟩ | ⟨hfresh, blob, hcall, rfl⟩ |
    ⟨old, number, bytes, hcall, hold, rfl⟩
  · -- the session is as it was
    rcases opened_grow.mp ho with ho | ⟨-, rfl⟩
    · obtain ⟨hkey, hparts⟩ := h.sessions j u session ho hold
      refine ⟨hkey, fun hok => ?_⟩
      have hnone : (if j = i then (attemptOf u e).toList else []) = [] := by
        by_cases hj : j = i
        · rw [if_pos hj] at hok ⊢
          cases hattempt : attemptOf u e with
          | none => rfl
          | some a =>
            rw [hattempt] at hok
            obtain ⟨commitment, hreply⟩ := hok a (by simp)
            obtain rfl := eq_of_attemptOf hattempt
            exact absurd (by rw [hreply]) (hpart a.number a.bytes commitment)
        · rw [if_neg hj]
      rw [hnone, append_nil] at hok ⊢
      exact hparts hok
    · exact absurd rfl (hbegin _)
  · -- the session is new
    have hopened : ¬ Opened (jobs j).blobKey u (made j) := fun ho => hfresh (h.minted j u ho)
    obtain ⟨rfl, rfl⟩ := (opened_grow.mp ho).resolve_left hopened
    cases hcall
    refine ⟨rfl, fun _ => ?_⟩
    rw [h.unsent _ u hopened, if_pos rfl]
    rfl
  · -- the session took a part, of its own replica
    obtain ⟨c, reply⟩ := e
    cases hcall
    have ho' := (opened_grow.mp ho).resolve_right nofun
    obtain rfl := h.apart _ _ u ho' hpre
    obtain ⟨hkey, hparts⟩ := h.sessions _ u old ho' hold
    refine ⟨hkey, fun hok => ?_⟩
    obtain ⟨hok', -⟩ := forall_mem_append.mp hok
    have hattempt : attemptOf u ⟨.writePart u number bytes, reply⟩ = some ⟨number, bytes, reply⟩ :=
      if_pos rfl
    rw [if_pos rfl, hattempt, storedParts, storeAll, Option.toList_some, foldl_append]
    show Function.update old.parts number (some bytes) = _
    rw [hparts hok']
    rfl

theorem inv_step : Inv jobs s' (grow made i e) where
  minted _ _ := minted_step h hserves
  apart _ _ _ := apart_step h hserves
  unsent j u hopened := by
    have hopened' : ¬ Opened (jobs j).blobKey u (made j) := fun ho => hopened (subset_grow j ho)
    rw [attempts_grow, h.unsent j u hopened', nil_append]
    by_cases hj : j = i
    · subst hj
      rw [if_pos rfl]
      cases hattempt : attemptOf u e with
      | none => rfl
      | some a =>
        obtain rfl := eq_of_attemptOf hattempt
        exact absurd hpre hopened'
    · rw [if_neg hj]
  sessions _ _ _ := sessions_step h hpre hserves
  placed j key hplaced := by
    rcases placed_grow hplaced with hplaced | hplaced
    · exact hserves.manifests_kept (h.placed j key hplaced)
    · exact hserves.placed hplaced
  completed j u parts outcome hmem := by
    rcases mem_grow.mp hmem with hmem | ⟨rfl, rfl⟩
    · obtain ⟨hblob, hstored⟩ := h.completed j u parts outcome hmem
      exact ⟨hserves.blobs_kept hblob, hstored⟩
    obtain ⟨hopened, stored, hstored, -⟩ := hpre
    obtain ⟨session, hsession, hblob⟩ := hserves.completion
    rw [(h.sessions _ u session hopened hsession).1] at hblob
    exact ⟨hblob, stored, hstored⟩
  manifests key bytes hkey := by
    have hnew : (jobs i).Places (made i) key bytes →
        ∃ j, (jobs j).Places (grow made i e j) key bytes := fun hplaces =>
      ⟨i, hplaces.mono (subset_grow i)⟩
    rcases hserves.manifests_new hkey with hold | hcall | hcall
    · obtain ⟨j, hplaces⟩ := h.manifests key bytes hold
      exact ⟨j, hplaces.mono (subset_grow j)⟩
    · rw [hcall] at hpre
      exact hnew hpre
    · rw [hcall] at hpre
      exact hnew hpre
  blobs key bytes hkey := by
    rcases hserves.blobs_new hkey with hold | ⟨u, parts, session, hcall, hsession, rfl, rfl⟩
    · exact h.blobs key bytes hold
    rw [hcall] at hpre
    obtain ⟨hopened, stored, hstored, hwhole⟩ := hpre
    obtain ⟨hsessionKey, hparts⟩ := h.sessions i u session hopened hsession
    have hok : AllOk (attempts u (made i)) := by
      rw [hwhole.attempts]
      intro a ha
      obtain ⟨p, -, rfl⟩ := mem_map.mp ha
      exact ⟨p.commitment, rfl⟩
    refine ⟨i, hsessionKey.symm, ?_⟩
    rw [assemble_whole hwhole (hparts hok)]
    exact hstored

end

/-! ## The result -/

def BlobPresent (job : Job) (s : Contents) : Prop := s.blobs job.blobKey ≠ none

def OccurrencePresent (job : Job) (s : Contents) : Prop :=
  ∃ key bytes, occurrenceObject job.envelope = .ok (key, bytes) ∧ s.manifests (.occurrence key) ≠ none

/-- No object is without the ones it rests on, and no replica says more than there is. -/
structure Ordered (jobs : ι → Job)
    (W : World Store ι Contents (Except SequenceError SequenceCommit)) : Prop where
  attestations : ∀ key bytes, W.shared.manifests (.attestation key) = some bytes →
    ∃ i, attestationObject (jobs i).envelope (jobs i).delegation = .ok (key, bytes) ∧
      OccurrencePresent (jobs i) W.shared
  occurrences : ∀ key bytes, W.shared.manifests (.occurrence key) = some bytes →
    ∃ i, occurrenceObject (jobs i).envelope = .ok (key, bytes) ∧
      -- its own completion took effect, from a stream that it checked
      (jobs i).BlobDone (W.made i) ∧ (∃ stored, (jobs i).Stored stored) ∧
      -- and what is at the key now comes from such a stream, too
      ∃ j stored, W.shared.blobs (jobs i).blobKey = some stored ∧ (jobs j).Stored stored ∧
        (jobs j).envelope.blobDigest = (jobs i).envelope.blobDigest
  returned : ∀ i commit, W.left i = .pure (.ok commit) → W.shared.blobs commit.blob.key ≠ none ∧
    W.shared.manifests commit.provenance.occurrence.key ≠ none ∧
    W.shared.manifests commit.provenance.attestation.key ≠ none
  failed : ∀ i error, W.left i = .pure (.error error) →
    (error.durable ≠ .nothing → BlobPresent (jobs i) W.shared) ∧
      (error.durable = .blobAndOccurrence → OccurrencePresent (jobs i) W.shared)

omit [DecidableEq ι] in
theorem Inv.blobPresent (h : Inv jobs s made) (hdone : (jobs i).BlobDone (made i)) :
    BlobPresent (jobs i) s ∧ ∃ stored, (jobs i).Stored stored := by
  obtain ⟨upload, parts, outcome, -, hmem⟩ := hdone
  exact h.completed i upload parts outcome hmem

omit [DecidableEq ι] in
theorem Inv.occurrencePresent (h : Inv jobs s made) (hdone : (jobs i).OccurrenceDone (made i)) :
    OccurrencePresent (jobs i) s := by
  obtain ⟨key, bytes, hobject, hplaced⟩ := hdone
  exact ⟨key, bytes, hobject, h.placed i _ hplaced⟩

/-- A replica whose storage transform is the identity. -/
def sampleJob : Job where
  envelope := AgentArchivist.Protocol.EnvelopeLossless.baseline
  delegation := .direct
  State := Unit
  encoder := ⟨fun state chunk => (state, .ok chunk.bytes), fun _ => .ok []⟩
  state := ()
  canonical := []

end AgentArchivist.Storage.CommitOrder
