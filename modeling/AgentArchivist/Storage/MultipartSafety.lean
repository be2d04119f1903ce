import AgentArchivist.Storage.MultipartSessions

/-! # What holds of multipart sessions

The cleanup of abandoned sessions, and what every operation from every reachable state
does: which completions it makes, what it leaves buffered and what the registry holds
after it. -/
namespace AgentArchivist.Storage.MultipartSafety
open Protocol List
open Lib.Proc ObjectKey Vocabulary Multipart MultipartSessions OpenSessions RawWrite WriterParts

variable {u v : MultipartUploadId} {t t' : Trace Store} {api : List ApiEvent}
  {pre : Trace Store → Call → Prop}

/-! ## The cleanup of abandoned sessions -/

/-- The cleanup `s` of `targets` after the calls `t`: only those entries are gone whose abort
succeeded. -/
structure Drained (targets : List MultipartUploadId) (t s : Trace Store) : Prop where
  aborts : ∀ u, (∃ reply, ⟨.abortMultipart u, reply⟩ ∈ s) ↔ u ∈ targets
  keeps : ∀ u b, ⟨u, b⟩ ∈ registry (t ++ s) ↔ ⟨u, b⟩ ∈ registry t ∧
    (u ∈ targets → ∃ error, ⟨.abortMultipart u, Except.error error⟩ ∈ s)

/-- The calls of one abort, by what it answered. -/
def answered (u : MultipartUploadId) : Except StorageError Unit → Trace Store
  | .ok () => [⟨.abortMultipart u, Except.ok ()⟩, ⟨.release u, ()⟩]
  | .error error => [⟨.abortMultipart u, Except.error error⟩]

theorem mem_answered {r reply} : ⟨.abortMultipart v, reply⟩ ∈ answered u r ↔ v = u ∧ reply = r := by
  constructor
  · intro h
    cases r <;> simp only [answered, mem_cons, not_mem_nil, or_false] at h
    case ok => rcases h with h | h <;> cases h; exact ⟨rfl, rfl⟩
    case error => cases h; exact ⟨rfl, rfl⟩
  · rintro ⟨rfl, rfl⟩
    cases reply <;> exact mem_cons_self

theorem changed_answered (r : Except StorageError Unit) :
    Changed u (if r.isOk then .released else .none) t (t ++ answered u r) := by
  cases r with
  | ok _ => exact changed_ended (show Ended u none t _ from rfl)
  | error error =>
    have hopen : ¬ Closes u ⟨.abortMultipart u, Except.error error⟩ := nofun
    refine ⟨⟨_, rfl, by simp [answered, About.aborted]⟩, registry_append .., ?_⟩
    simp [answered, closed_append, closed_cons, closed_nil, hopen, Except.isOk, Except.toBool]

theorem Drained.cons {targets} {s} (hnew : u ∉ targets) (r : Except StorageError Unit)
    (h : Drained targets (t ++ answered u r) s) : Drained (u :: targets) t (answered u r ++ s) := by
  refine ⟨fun v => ?_, fun v b => ?_⟩
  · have hfirst : (∃ reply, ⟨.abortMultipart v, reply⟩ ∈ answered u r) ↔ v = u :=
      ⟨fun ⟨_, h⟩ => (mem_answered.mp h).1, fun h => ⟨r, mem_answered.mpr ⟨h, rfl⟩⟩⟩
    simp [exists_or, hfirst, ← h.aborts]
  rw [← append_assoc, h.keeps]
  by_cases hv : v = u
  · subst hv
    have hnone : ∀ error, (⟨.abortMultipart v, Except.error error⟩ : Event Store) ∉ s :=
      fun error hmem => hnew ((h.aborts v).mp ⟨_, hmem⟩)
    rw [(changed_answered r).entries]
    cases r <;>
      simp [hnew, hnone, mem_answered, Change.apply, OpenUploads.release, Except.isOk, Except.toBool]
  · simp [(changed_answered r).mem_ne hv, hv, mem_answered]

/-- The cleanup touches no session that is live. -/
theorem inv_answered {writers} (h : Inv ⟨t, writers, api⟩) (hbegun : u ∈ begun t)
    (hgone : ⟨u, false⟩ ∉ registry t) (r : Except StorageError Unit) :
    Inv ⟨t ++ answered u r, writers, api⟩ := by
  have hchanged := changed_answered (u := u) (t := t) r
  have hgone' := hchanged.not_live_of h.entries hgone
  have hsent : attempts u (answered u r) = [] := by cases r <;> rfl
  have hinv : Inv ⟨t ++ answered u r, writers, api ++ []⟩ := by
    refine h.change hbegun hchanged (forall_mem_nil _) h.distinct ?_ (fun x hx _ => hx)
      fun hmem => absurd hmem hgone'
    intro x hx
    by_cases hxu : x.upload = u
    · subst hxu
      refine .inr ?_
      rw [append_nil]
      refine (h.standing x hx).transfer ?_ ?_ (iff_of_false hgone' hgone)
      · rwa [hchanged.begun]
      · rw [attempts_append, hsent, append_nil]
    · exact .inl ⟨hx, hxu⟩
  rwa [append_nil] at hinv

theorem abortTargets_safe (hfree : ∀ u, Free u pre) {writers} {targets} (hnodup : targets.Nodup)
    (h : Inv ⟨t, writers, api⟩) (htargets : ∀ u ∈ targets, u ∈ begun t ∧ ⟨u, false⟩ ∉ registry t) :
    Safe Allowed pre (fun _ t' => Inv ⟨t', writers, api⟩ ∧ ∃ s, t' = t ++ s ∧ Drained targets t s)
      (abortTargets targets) t := by
  induction targets generalizing t with
  | nil => exact ⟨h, [], (append_nil t).symm, by simp, by simp⟩
  | cons u targets ih =>
    obtain ⟨hnew, hnodup⟩ := nodup_cons.mp hnodup
    obtain ⟨⟨hbegun, hgone⟩, hrest⟩ := forall_mem_cons.mp htargets
    -- the targets behind the first are as they were
    have hstep : ∀ r, Safe Allowed pre (fun _ t' => Inv ⟨t', writers, api⟩ ∧
        ∃ s, t' = t ++ s ∧ Drained (u :: targets) t s) (abortTargets targets) (t ++ answered u r) := by
      intro r
      have hchanged := changed_answered (u := u) (t := t) r
      refine (ih hnodup (inv_answered h hbegun hgone r) fun v hv => ?_).mono ?_
      · rw [hchanged.begun, hchanged.mem_ne (ne_of_mem_of_not_mem hv hnew)]
        exact hrest v hv
      · rintro _ _ ⟨hinv, s, rfl, hdrained⟩
        exact ⟨hinv, _, append_assoc .., hdrained.cons hnew r⟩
    refine Safe.call (hfree u t _ rfl) fun r _ => ?_
    cases r with
    | ok _ =>
      refine Safe.call (hfree u _ _ trivial) fun _ _ => ?_
      rw [append_assoc]
      exact hstep (.ok ())
    | error error => exact Safe.bind (hstep (.error error))

theorem mem_abandonedUploads {entries} :
    u ∈ OpenUploads.abandonedUploads entries ↔ ⟨u, true⟩ ∈ entries := by
  unfold OpenUploads.abandonedUploads
  rw [mem_map]
  constructor
  · rintro ⟨⟨_, b⟩, hmem, rfl⟩
    obtain ⟨hmem, hb⟩ := mem_filter.mp hmem
    cases hb
    exact hmem
  · exact fun hmem => ⟨_, mem_filter.mpr ⟨hmem, rfl⟩, rfl⟩

/-- An upload has one entry. -/
theorem entry_unique {entries : List RegistryEntry} (h : (entries.map (·.upload)).Nodup)
    (htrue : ⟨u, true⟩ ∈ entries) : ⟨u, false⟩ ∉ entries := by
  intro hfalse
  have heq := inj_on_of_nodup_map h htrue hfalse rfl
  cases heq

/-! ## What an operation does -/

/-- A completion of a finished stream: its parts are the only cut of the bytes written. -/
structure Completion (api : List ApiEvent) (before : Trace Store) (upload : MultipartUploadId)
    (parts : List PartCommitment) : Prop where
  finished : Finished upload api
  nonempty : parts ≠ []
  whole : Whole upload parts (written upload api) before
  only : ∀ cut, Cut cut → cut.flatten = written upload api → (sent upload before).map (·.bytes) = cut

/-- The cleanup `s` after the calls `t`: it aborts the abandoned sessions, and of the entries
only those abandoned ones are gone whose abort succeeded. -/
structure Drains (t s : Trace Store) : Prop where
  aborts : ∀ u, (∃ reply, ⟨.abortMultipart u, reply⟩ ∈ s) ↔ ⟨u, true⟩ ∈ registry t
  keeps : ∀ u b, ⟨u, b⟩ ∈ registry (t ++ s) ↔
    ⟨u, b⟩ ∈ registry t ∧ (b = true → ∃ error, ⟨.abortMultipart u, Except.error error⟩ ∈ s)

/-- A session begun is live with a writer, or abandoned, or released, and one of them only. -/
def OneOf (W : World) (u : MultipartUploadId) : Prop :=
  let live := ⟨u, false⟩ ∈ registry W.log ∧ ∃ w ∈ W.writers, w.upload = u
  let abandoned := ⟨u, true⟩ ∈ registry W.log
  let released := Closed u W.log
  (live ∧ ¬ abandoned ∧ ¬ released) ∨ (¬ live ∧ abandoned ∧ ¬ released) ∨
    (¬ live ∧ ¬ abandoned ∧ released)

structure Sound (W : World) (op : Operation) (W' : World) : Prop where
  completes : ∀ before after upload parts reply,
    W'.log = before ++ ⟨.commitMultipart upload parts, reply⟩ :: after →
    W.log.length ≤ before.length → Completion W.api before upload parts
  buffered : ∀ w ∈ W'.writers, w.buffer.length < PART_BYTES
  registered : ∀ u ∈ begun W'.log, OneOf W' u
  drains : op = .abortAbandoned → ∃ s, W'.log = W.log ++ s ∧ Drains W.log s

/-- A commit of a session that was never finished, after whole parts. -/
def Unfinished (W : World) : Operation → Prop
  | .commit w => w.session = .live ∧ 0 < (written w.upload W.api).length ∧
      PART_BYTES ∣ (written w.upload W.api).length
  | _ => False

/-! ## Steps -/

/-- The completions that an operation may make. -/
def Permits (W : World) (op : Operation) (t : Trace Store) (c : Call) : Prop :=
  ∀ upload parts, c = .commitMultipart upload parts → ∃ w ∈ W.writers, op = .commit w ∧
    upload = w.upload ∧ parts = w.parts ∧ w.session ≠ .failed ∧ w.buffer = [] ∧ w.parts ≠ [] ∧
    t = W.log

theorem permits_free (W : World) (op : Operation) (u : MultipartUploadId) :
    Free u (Permits W op) := by
  rintro t c hc upload parts rfl
  exact hc.elim

/-- The cleanup aborts what is abandoned when it starts. -/
theorem abortAbandoned_safe {writers} (h : Inv ⟨t, writers, api⟩) (hfree : ∀ u, Free u pre)
    (hpre : pre t .abandoned) :
    Safe Allowed pre (fun _ t' => Inv ⟨t', writers, api⟩ ∧ ∃ s, t' = t ++ s ∧ Drains t s)
      abortAbandoned t := by
  refine Safe.call hpre fun (targets : List MultipartUploadId) htargets => ?_
  have heq : targets = OpenUploads.abandonedUploads (registry t) := htargets
  have hmem : ∀ u, u ∈ targets ↔ ⟨u, true⟩ ∈ registry t := fun u => heq ▸ mem_abandonedUploads
  have hnodup : targets.Nodup := heq ▸ h.entries.sublist (List.filter_sublist.map _)
  have hidle : Inv ⟨t ++ [⟨.abandoned, targets⟩], writers, api⟩ :=
    h.idle rfl rfl (fun _ => rfl) fun _ => nofun
  have hregistry : registry (t ++ [⟨.abandoned, targets⟩]) = registry t := registry_append t _
  refine (abortTargets_safe hfree hnodup hidle fun u hu => ?_).mono ?_
  · have hentry := (hmem u).mp hu
    rw [← hregistry] at hentry
    exact ⟨hidle.begun u (mem_map.mpr ⟨_, hentry, rfl⟩), entry_unique hidle.entries hentry⟩
  rintro _ _ ⟨hinv, s, rfl, hdrained⟩
  have hcons : ∀ u reply, ⟨.abortMultipart u, reply⟩ ∈ (⟨.abandoned, targets⟩ : Event Store) :: s ↔
      ⟨.abortMultipart u, reply⟩ ∈ s := fun u reply => mem_cons.trans (or_iff_right nofun)
  refine ⟨hinv, _, append_assoc .., fun u => ?_, fun u b => ?_⟩
  · exact (exists_congr (hcons u)).trans ((hdrained.aborts u).trans (hmem u))
  rw [← append_assoc, hdrained.keeps, hregistry, hmem]
  refine and_congr_right fun hentry => imp_congr ?_ (exists_congr fun _ => (hcons u _).symm)
  cases b with
  | false => exact iff_of_false (fun htrue => entry_unique h.entries htrue hentry) nofun
  | true => exact iff_of_true hentry rfl

theorem step_safe {W W' : World} {op : Operation} (h : Inv W) (hstep : Step W op W') :
    Inv W' ∧ ∀ before e after, W'.log = before ++ e :: after → W.log.length ≤ before.length →
      Permits W op before e.call := by
  have hfree := permits_free W op
  cases hstep with
  | begun hrun | unbegun hrun => exact (begin_inv h hfree fun _ _ => nofun).made hrun
  | writeChunk hrun => exact (writeChunk_inv h (hfree _) _).made hrun
  | finish hrun => exact (finish_inv h (hfree _)).made hrun
  | @commit log before after api w r t' hrun =>
    refine (commit_inv h (hfree _) fun hopen hbuffer hparts => ?_).made hrun
    rintro upload parts heq
    cases heq
    exact ⟨w, by simp, rfl, rfl, rfl, hopen, hbuffer, hparts, rfl⟩
  | abort hrun => exact (abort_inv h (hfree _)).made hrun
  | drop hrun => exact (drop_inv h (hfree _)).made hrun
  | abortAbandoned hrun =>
    obtain ⟨hinv, hcalls⟩ := (abortAbandoned_safe h hfree fun _ _ => nofun).made hrun
    exact ⟨hinv.1, hcalls⟩

theorem reachable_inv {W} (h : Reachable W) : Inv W := by
  induction h with
  | start => exact inv_start
  | step _ hstep ih => exact (step_safe ih hstep).1

/-! The completions. -/

theorem length_full {ps : List Sent} (h : ∀ p ∈ ps, p.bytes.length = PART_BYTES) :
    (ps.flatMap (·.bytes)).length = ps.length * PART_BYTES := by
  induction ps with
  | nil => simp
  | cons p ps ih =>
    obtain ⟨hp, hps⟩ := forall_mem_cons.mp h
    rw [flatMap_cons, length_append, ih hps, hp, length_cons, Nat.succ_mul,
      Nat.add_comm]

variable {w : MultipartWriter}

/-- A live session would be completed after a whole number of parts, and then only. -/
theorem live_whole_iff {ps : List Sent} {written : List UInt8}
    (h : Live w ps written t) : (w.buffer = [] ∧ w.parts ≠ []) ↔
      0 < written.length ∧ PART_BYTES ∣ written.length := by
  have hbuffered := h.buffered
  have hlen : written.length = ps.length * PART_BYTES + w.buffer.length := by
    rw [← h.written, length_append, length_full h.full]
  have hparts : w.parts ≠ [] ↔ 0 < ps.length := by
    rw [h.parts, ← length_pos_iff, length_map]
  have hdvd : PART_BYTES ∣ written.length ↔ w.buffer.length = 0 := by
    rw [hlen, Nat.dvd_add_right (Nat.dvd_mul_left PART_BYTES ps.length)]
    exact ⟨fun h => Nat.eq_zero_of_dvd_of_lt h hbuffered, fun h => h ▸ Nat.dvd_zero _⟩
  have hpos : 0 < PART_BYTES := Nat.zero_lt_of_lt hbuffered
  rw [hparts, hdvd, ← length_eq_zero_iff, hlen]
  constructor
  · rintro ⟨hbuffer, hps⟩
    exact ⟨Nat.add_pos_left (Nat.mul_pos hps hpos) _, hbuffer⟩
  · rintro ⟨htotal, hbuffer⟩
    refine ⟨hbuffer, Nat.pos_of_ne_zero fun hzero => ?_⟩
    rw [hzero, hbuffer, Nat.zero_mul] at htotal
    exact Nat.lt_irrefl 0 htotal

theorem completion {W W' : World} {op : Operation} (h : Inv W) (hstep : Step W op W')
    (hfinished : ¬ Unfinished W op) {before after : Trace Store} {upload : MultipartUploadId}
    {parts : List PartCommitment} {reply : Except StorageError StorageOutcome}
    (heq : W'.log = before ++ ⟨.commitMultipart upload parts, reply⟩ :: after)
    (hlen : W.log.length ≤ before.length) : Completion W.api before upload parts := by
  obtain ⟨w, hw, rfl, rfl, rfl, hopen, hbuffer, hparts, rfl⟩ :=
    (step_safe h hstep).2 _ _ _ heq hlen upload parts rfl
  have hstanding := h.standing w hw
  have hwhole := hstanding.whole hopen hbuffer
  refine ⟨?_, hparts, hwhole, fun cut hcut hbytes => ?_⟩
  · have hstate := hstanding.2
    cases hsession : w.session <;> rw [hsession] at hstate
    case live =>
      obtain ⟨⟨ps, hlive⟩, -⟩ := hstate
      exact absurd ⟨hsession, (live_whole_iff hlive).mp ⟨hbuffer, hparts⟩⟩ hfinished
    case flushed => exact hstate.2.1
    case failed => exact absurd hsession hopen
  · refine cut_unique hwhole.cut hcut ?_
    rw [hbytes, ← hwhole.written, flatMap_def]

/-! The buffers. -/

theorem full_of_spoiled {W : World} (h : Inv W) (hw : w ∈ W.writers)
    (hspoiled : Spoiled w.upload W.api) : w.buffer.length = PART_BYTES := by
  obtain ⟨-, hstate⟩ := h.standing w hw
  cases hsession : w.session <;> rw [hsession] at hstate
  case failed => exact hstate.2.1 hspoiled
  all_goals exact absurd hspoiled hstate.2.2.1

theorem buffered_or_spoiled {W : World} (h : Inv W) (hw : w ∈ W.writers) :
    w.buffer.length < PART_BYTES ∨ Spoiled w.upload W.api := by
  obtain ⟨-, hstate⟩ := h.standing w hw
  cases hsession : w.session <;> rw [hsession] at hstate
  case live => exact .inl (hstate.1.elim fun _ hlive => hlive.buffered)
  case flushed =>
    obtain ⟨⟨ps, hflushed⟩, -⟩ := hstate
    rw [hflushed.buffer]
    exact .inl (by decide)
  case failed => exact hstate.1.imp_right And.left

/-! The registry. -/

theorem oneOf {W : World} (h : Inv W) (hu : u ∈ begun W.log) : OneOf W u := by
  have hclosed := h.closed u hu
  by_cases hmem : u ∈ (registry W.log).map (·.upload)
  · obtain ⟨⟨_, b⟩, hentry, rfl⟩ := mem_map.mp hmem
    have hopen : ¬ Closed _ W.log := fun hc => hclosed.mp hc hmem
    cases b with
    | false =>
      refine .inl ⟨⟨hentry, h.owned _ hentry⟩, fun htrue => ?_, hopen⟩
      exact entry_unique h.entries htrue hentry
    | true =>
      refine .inr (.inl ⟨fun hlive => ?_, hentry, hopen⟩)
      exact entry_unique h.entries hentry hlive.1
  · have hnone : ∀ b, ⟨u, b⟩ ∉ registry W.log := fun b hb => hmem (mem_map.mpr ⟨_, hb, rfl⟩)
    exact .inr (.inr ⟨fun hlive => hnone _ hlive.1, hnone true, hclosed.mpr hmem⟩)

/-! ## The result -/

theorem sessions_sound_iff {W W' : World} {op : Operation} (h : Reachable W) (hstep : Step W op W') :
    Sound W op W' ↔ ¬ Unfinished W op ∧ ∀ w ∈ W'.writers, ¬ Spoiled w.upload W'.api := by
  have hinv := reachable_inv h
  have hinv' := (step_safe hinv hstep).1
  constructor
  · intro hsound
    refine ⟨fun hunfinished => ?_, fun w hw hspoiled => ?_⟩
    · cases hstep with
      | @commit log before after api w r t' hrun =>
        obtain ⟨hsession, htotal⟩ := hunfinished
        obtain ⟨-, hstate⟩ := hinv.standing w (by simp)
        rw [hsession] at hstate
        obtain ⟨⟨ps, hlive⟩, hunfinished, -⟩ := hstate
        obtain ⟨hbuffer, hparts⟩ := (live_whole_iff hlive).mpr htotal
        have hopen : w.session ≠ .failed := by rw [hsession]; nofun
        unfold MultipartWriter.commit MultipartWriter.complete at hrun
        rw [if_neg hopen, if_neg (not_not_intro hbuffer), if_neg hparts] at hrun
        cases hrun with
        | call _ hrest =>
          obtain ⟨rest, hgrows⟩ := hrest.grows
          rw [append_assoc] at hgrows
          exact hunfinished (hsound.completes _ _ _ _ _ hgrows.symm (Nat.le_refl _)).finished
      | _ => exact hunfinished
    · exact Nat.lt_irrefl _ (full_of_spoiled hinv' hw hspoiled ▸ hsound.buffered w hw)
  · rintro ⟨hfinished, hclean⟩
    refine ⟨?_, ?_, fun u hu => oneOf hinv' hu, ?_⟩
    · exact fun _ _ _ _ _ heq hlen => completion hinv hstep hfinished heq hlen
    · exact fun w hw => (buffered_or_spoiled hinv' hw).resolve_right (hclean w hw)
    · rintro rfl
      cases hstep with
      | abortAbandoned hrun =>
        have hsafe : Safe Allowed (fun _ _ => True) _ abortAbandoned _ :=
          abortAbandoned_safe hinv (fun _ _ _ _ => trivial) trivial
        exact (hsafe.runs hrun).2

/-! A stream of one whole part, committed without `finish`. -/

def sampleUpload : MultipartUploadId := ⟨"u", by decide⟩

def sampleCommitment : PartCommitment := ⟨⟨1, by decide⟩, ⟨"e", by decide⟩⟩

/-- The store that accepts what it is told. -/
def accepting : (c : Call) → Reply c
  | .capabilities => ConditionalCreate.unavailable
  | .writeManifest _ _ => Except.ok .created
  | .createManifestIfAbsent _ _ => Except.ok .created
  | .beginMultipart _ => Except.ok sampleUpload
  | .writePart _ _ _ => Except.ok sampleCommitment
  | .commitMultipart _ _ => Except.ok .created
  | .abortMultipart _ => Except.ok ()
  | .register _ | .release _ | .abandon _ => ()
  | .abandoned => ([] : List MultipartUploadId)

def sampleBlob : BlobObjectKey :=
  .new ⟨"0b0c8a52-2a3f-4c1f-9a41-7d5d3f0d2a11", by decide⟩ .zstdV1 (.fill 0)

def sampleWriter : MultipartWriter :=
  { upload := sampleUpload, blob := sampleBlob, buffer := [], nextOrdinal := 1, parts := [],
    uploadedBytes := 0, session := .live, terminal := false }

def sampleWritten : MultipartWriter :=
  { sampleWriter with nextOrdinal := 2, uploadedBytes := PART_BYTES, parts := [sampleCommitment] }

def sampleBegun : Trace Store :=
  [⟨.beginMultipart sampleBlob, Except.ok sampleUpload⟩, ⟨.register sampleUpload, ()⟩]

theorem sample_begins :
    Runs Allowed (MultipartWriter.begin sampleBlob) [] (.ok sampleWriter) sampleBegun := by
  refine Steps.call (r := Except.ok sampleUpload) (fun _ _ => not_mem_nil) ?_
  refine Steps.call (r := ()) trivial ?_
  exact .refl _ _

theorem sample_writes {chunk} (h : chunk.length = PART_BYTES) :
    Runs Allowed (sampleWriter.writeChunk chunk) sampleBegun (.ok (), sampleWritten)
      (sampleBegun ++
        [⟨.writePart sampleUpload sampleCommitment.number chunk, Except.ok sampleCommitment⟩]) := by
  have hne : chunk ≠ [] := by
    rintro rfl
    exact absurd h (by decide)
  have htake : min (PART_BYTES - sampleWriter.buffer.length) chunk.length = PART_BYTES := by
    rw [h]
    exact Nat.min_self _
  have hbuffer : sampleWriter.buffer ++ chunk.take PART_BYTES = chunk := by
    rw [← h, take_length]
    rfl
  have hrest : chunk.drop PART_BYTES = [] := by rw [← h, drop_length]
  show Runs Allowed (MultipartWriter.writeLoop (chunk.length + 1) sampleWriter chunk) _ _ _
  unfold MultipartWriter.writeLoop
  dsimp only
  rw [if_neg hne, htake, hbuffer, if_pos h, hrest, h]
  have hall : chunk.take PART_BYTES = chunk := hbuffer
  refine Steps.call (r := Except.ok sampleCommitment) trivial ?_
  have hdone : ∀ (turns : Nat) (w : MultipartWriter),
      MultipartWriter.writeLoop turns w [] = pure (.ok (), w) := by
    intro turns w
    cases turns <;> rfl
  show Steps Allowed (MultipartWriter.writeLoop PART_BYTES
    { sampleWritten with uploadedBytes := 0 + PART_BYTES, buffer := chunk.drop PART_BYTES } []) _ _ _
  rw [hdone, hrest, hall]
  exact .refl _ _

def sampleCompletion : Trace Store :=
  [⟨.commitMultipart sampleUpload [sampleCommitment], Except.ok .created⟩,
    ⟨.release sampleUpload, ()⟩]

theorem sample_commits (t : Trace Store) :
    Runs Allowed sampleWritten.commit t (.ok .created) (t ++ sampleCompletion) := by
  refine Steps.call (r := Except.ok .created) trivial ?_
  refine Steps.call (r := ()) trivial ?_
  rw [append_assoc]
  exact .refl _ _

/-- The store is told to complete a session whose stream was never finished. -/
theorem unfinished_commit : ∃ W W', Reachable W ∧ Step W (.commit sampleWritten) W' ∧
    ¬ Finished sampleUpload W.api ∧ W'.log = W.log ++ sampleCompletion ∧
    ¬ Sound W (.commit sampleWritten) W' := by
  have hlen : (List.replicate PART_BYTES (0 : UInt8)).length = PART_BYTES := length_replicate
  generalize List.replicate PART_BYTES (0 : UInt8) = chunk at hlen
  have hbegun : Reachable ⟨sampleBegun, [] ++ sampleWriter :: [], []⟩ :=
    .step .start (.begun sample_begins)
  have hwritten := Reachable.step hbegun (.writeChunk (sample_writes hlen))
  have hunfinished : ¬ Finished sampleUpload
      ([] ++ [.writeChunk sampleUpload .live chunk true]) := by simp [Finished]
  refine ⟨_, _, hwritten, .commit (sample_commits _), hunfinished, rfl, fun hsound => ?_⟩
  exact hunfinished (hsound.completes _ _ _ _ (Except.ok .created) rfl (Nat.le_refl _)).finished

theorem begun_session_sound :
    Sound ⟨[], [], []⟩ (.begin sampleBlob) ⟨sampleBegun, [sampleWriter], []⟩ :=
  (sessions_sound_iff .start (.begun sample_begins)).mpr ⟨id, by simp [Spoiled]⟩

end AgentArchivist.Storage.MultipartSafety
