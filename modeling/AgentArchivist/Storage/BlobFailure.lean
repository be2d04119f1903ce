import AgentArchivist.Storage.BlobStream

/-! # How a blob commit ends

A session is completed only after the whole canonical stream was read and its digest
and size were found to be the declared ones; its parts are then the encoder's output
for that stream. A failure of the blob commit is the first thing that went wrong: an answer of the store, a
refusal of the writer, what the encoder said, or a declaration that the stream contradicts. It is
never what the abort behind it answered. And whatever went wrong, the session was completed,
aborted or abandoned when the commit returns. -/
namespace AgentArchivist.Storage.BlobFailure
open Protocol List
open Lib.Proc Derivation ObjectKey Vocabulary Blob BlobStream Multipart OpenSessions RawWrite
open WriterParts

/-- No call needs anything. -/
def Unrestricted (_ : Trace Store) (_ : Call) : Prop := True

theorem free_unrestricted (upload : MultipartUploadId) : Free upload Unrestricted :=
  fun _ _ _ => trivial

variable {ε : Type} {allowed : Trace Store → Event Store → Prop} {pre : Trace Store → Call → Prop}
  {w : MultipartWriter} {t t' : Trace Store} {u : MultipartUploadId}

/-! ## The stages -/

/-- What a stage leaves: where it goes on, what `P` says and the session as it was; else the session
aborted, for what `Cause` says. -/
def Leaving {α : Type} (u : MultipartUploadId) (P : α → Trace Store → Prop)
    (Cause : Trace Store → StorageError → Prop) (t : Trace Store) (r : Except BlobCommitError α)
    (t' : Trace Store) : Prop :=
  match r with
  | .ok a => P a t' ∧ Quiet u t t'
  | .error error => Aborted u error.cleanup t t' ∧ Cause t' error.failure

/-- What stops the stream before its end: a batch that could not be sent, or the encoder. -/
def Interrupts (encoder : BlobEncoder ε) (state : ε) (rest : List Slice) (t : Trace Store)
    (failure : StorageError) : Prop :=
  Blamed t failure ∨ encodeFrom encoder state rest = .error failure

section
variable (hfree : Free u pre)
include hfree

theorem abortWriter_safe (hupload : w.upload = u) (failure : StorageError) :
    Safe allowed pre (fun error t' => error.failure = failure ∧ Aborted u error.cleanup t t')
      (abortWriter w failure) t := by
  subst hupload
  refine Safe.bind ((abort_safe hfree).mono ?_)
  rintro _ t' ⟨cleanup, rfl, haborted⟩
  cases cleanup with
  | none | some => exact ⟨rfl, haborted⟩

section
variable {α : Type} {P : α → Trace Store → Prop} {Cause : Trace Store → StorageError → Prop}

/-- A stage that aborts for a cause. -/
theorem aborted_leaves {failure} (hupload : w.upload = u) (hcause : ∀ t', Cause t' failure) :
    Safe allowed pre (Leaving u P Cause t)
      (do let error ← abortWriter w failure; pure (.error error)) t := by
  refine Safe.bind ((abortWriter_safe hfree hupload failure).mono ?_)
  rintro error t' ⟨rfl, haborted⟩
  exact ⟨haborted, hcause t'⟩

/-- A stage that drops the writer of a session that failed. -/
theorem dropped_leaves {w' error} (hupload : w.upload = u) (hfailed : Failed w error w' t t')
    (hcause : ∀ t'', t' ⊆ t'' → Cause t'' error.failure) :
    Safe allowed pre (Leaving u P Cause t) (do w'.drop; pure (.error (.ofWriter error))) t' := by
  subst hupload
  exact Safe.bind ((failed_drop_safe hfree hfailed).mono fun _ t'' h => ⟨h.1, hcause t'' h.2⟩)

end

theorem drainEncoded_safe {read : List Slice} {out : List UInt8} {s : Streaming ε}
    (h : Streamed read out s u t) (encoded : List UInt8) :
    Safe allowed pre (Leaving u (fun s' t' => Streamed read (out ++ encoded) s' u t' ∧
      s'.encoder = s.encoder) Blamed t) (drainEncoded s encoded) t := by
  unfold drainEncoded
  by_cases hempty : encoded = []
  · rw [if_pos hempty, hempty, append_nil]
    exact ⟨⟨h, rfl⟩, Quiet.refl u t⟩
  rw [if_neg hempty]
  obtain ⟨ps, hlive⟩ := h.live
  refine Safe.bind ((writeChunk_safe (h.upload ▸ hfree) hlive encoded).mono ?_)
  rintro ⟨r, writer⟩ t' hafter
  cases r with
  | ok _ =>
    obtain ⟨hquiet, hupload, hlive'⟩ := hafter
    refine ⟨⟨⟨⟨hupload.trans h.upload, h.hasher, h.count⟩, hlive'⟩, rfl⟩, ?_⟩
    exact h.upload ▸ hquiet
  | error error => exact dropped_leaves hfree h.upload hafter.1 fun _ => hafter.2.1.mono

theorem streamChunks_safe (encoder : BlobEncoder ε) (rest : List Slice) :
    ∀ {read : List Slice} {out : List UInt8} {s : Streaming ε} {t : Trace Store},
      Streamed read out s u t →
      Safe allowed pre (Leaving u (fun s' t' => ∃ out', Streamed (read ++ rest) (out ++ out') s' u t' ∧
        encodeFrom encoder s.encoder rest = (encoder.finish s'.encoder).map (out' ++ ·))
        (Interrupts encoder s.encoder rest) t) (streamChunks encoder rest s) t := by
  induction rest with
  | nil =>
    intro read out s t h
    refine ⟨⟨[], ?_, ?_⟩, Quiet.refl _ _⟩
    · rwa [append_nil, append_nil]
    · show encoder.finish s.encoder = (encoder.finish s.encoder).map id
      rw [Except.map_id]
      rfl
  | cons chunk rest ih =>
    intro read out s t h
    unfold streamChunks
    cases hupdate : encoder.update s.encoder chunk with
    | mk state result =>
      cases result with
      | error failure =>
        refine aborted_leaves hfree h.upload fun t' => .inr ?_
        rw [encodeFrom, hupdate]
      | ok stored =>
        have hencode : encodeFrom encoder s.encoder (chunk :: rest) =
            (encodeFrom encoder state rest).map (stored ++ ·) := by
          rw [encodeFrom, hupdate]
        have hread : Streamed (read ++ [chunk]) out (s.read chunk state) u t :=
          ⟨h.toCounted.read chunk state, h.live⟩
        refine Safe.bind ((drainEncoded_safe hfree hread stored).mono fun r t' hafter => ?_)
        cases r with
        | error error => exact ⟨hafter.1, .inl hafter.2⟩
        | ok s' =>
          obtain ⟨⟨hstreamed, hencoder⟩, hquiet⟩ := hafter
          have hrest := ih hstreamed
          rw [show s'.encoder = state from hencoder] at hrest
          refine hrest.mono fun r t'' hafter => ?_
          cases r with
          | error error =>
            obtain ⟨haborted, hblamed | hstopped⟩ := hafter
            · exact ⟨haborted.after_quiet hquiet, .inl hblamed⟩
            refine ⟨haborted.after_quiet hquiet, .inr ?_⟩
            rw [hencode, hstopped]
            rfl
          | ok s'' =>
            obtain ⟨⟨out', hstreamed', hfinish⟩, hquiet'⟩ := hafter
            refine ⟨⟨stored ++ out', ?_, ?_⟩, hquiet.trans hquiet'⟩
            · rwa [append_assoc, append_assoc, singleton_append] at hstreamed'
            rw [hencode, hfinish]
            cases encoder.finish s''.encoder with
            | error _ => rfl
            | ok _ => simp [Except.map]

theorem finishStream_safe (encoder : BlobEncoder ε) {read out} {s} (h : Streamed read out s u t) :
    Safe allowed pre (Leaving u (fun s' t' => ∃ last, encoder.finish s.encoder = .ok last ∧
      Ready read (out ++ last) s' u t') (Interrupts encoder s.encoder []) t)
      (finishStream encoder s) t := by
  unfold finishStream
  cases hfinish : encoder.finish s.encoder with
  | error failure => exact aborted_leaves hfree h.upload fun _ => .inr hfinish
  | ok last =>
    refine Safe.bind ((drainEncoded_safe hfree h last).mono fun r t' hafter => ?_)
    cases r with
    | error error => exact ⟨hafter.1, .inl hafter.2⟩
    | ok s' =>
      obtain ⟨⟨hstreamed, -⟩, hquiet⟩ := hafter
      obtain ⟨ps, hlive⟩ := hstreamed.live
      refine Safe.bind ((finish_safe (hstreamed.upload ▸ hfree) hlive).mono ?_)
      rintro ⟨r, writer⟩ t'' hafter
      cases r with
      | ok _ =>
        obtain ⟨hquiet', hupload, hflushed⟩ := hafter
        refine ⟨⟨last, rfl, ⟨hupload.trans hstreamed.upload, hstreamed.hasher, hstreamed.count⟩,
          hflushed⟩, hquiet.trans ?_⟩
        exact hstreamed.upload ▸ hquiet'
      | error error =>
        rw [← hstreamed.upload] at hquiet
        exact dropped_leaves hfree hstreamed.upload (hafter.1.after_quiet hquiet)
          fun t3 hsub => .inl (hafter.2.1.mono hsub)

end

/-! ## Completion -/

/-- What stops a commit whose stream was taken to its end. -/
inductive Contradicts (expectation : BlobExpectation) (canonical : List UInt8) : StorageError → Prop
  | digest : digestOf canonical ≠ expectation.content →
      Contradicts expectation canonical digestMismatch
  | size : canonical.length ≠ expectation.uncompressedBytes.toNat →
      Contradicts expectation canonical sizeMismatch

/-- How the last stage ends: with a completion, or the session aborted. -/
def Finishes (key : BlobObjectKey) (expectation : BlobExpectation) (canonical : List Slice)
    (u : MultipartUploadId) (t : Trace Store) (r : Except BlobCommitError BlobCommit)
    (t' : Trace Store) : Prop :=
  match r with
  | .ok commit => Changed u .released t t' ∧ commit.key = key ∧
      ∃ parts outcome, ⟨.commitMultipart u parts, Except.ok outcome⟩ ∈ t'
  | .error error => Aborted u error.cleanup t t' ∧
      (Blamed t' error.failure ∨ Contradicts expectation (stream canonical) error.failure)

theorem validateAndCommit_safe {key : BlobObjectKey} {expectation : BlobExpectation}
    {canonical : List Slice} {stored : List UInt8} {s : Streaming ε} (hfree : Free u pre)
    (h : Ready canonical stored s u t)
    (hcommit : digestOf (stream canonical) = expectation.content →
      min (stream canonical).length (2 ^ 64 - 1) = expectation.uncompressedBytes.toNat →
      Whole u s.writer.parts stored t → pre t (.commitMultipart u s.writer.parts)) :
    Safe allowed pre (Finishes key expectation canonical u t) (validateAndCommit key expectation s) t := by
  obtain ⟨⟨rfl, hhasher, hcount⟩, ps, hflushed⟩ := h
  have hrefused : ∀ failure, Contradicts expectation (stream canonical) failure →
      Safe allowed pre (Finishes key expectation canonical s.writer.upload t)
      (do let error ← abortWriter s.writer failure; pure (.error error)) t := by
    intro failure hfailure
    refine Safe.bind ((abortWriter_safe hfree rfl failure).mono ?_)
    rintro error t' ⟨rfl, haborted⟩
    exact ⟨haborted, .inr hfailure⟩
  unfold validateAndCommit
  by_cases hdigest : Sha256.finalize s.canonicalHasher = expectation.content.raw
  · rw [if_neg (not_not_intro hdigest)]
    by_cases hbytes : s.canonicalBytes = expectation.uncompressedBytes
    · rw [if_neg (not_not_intro hbytes)]
      have hstream : digestOf (stream canonical) = expectation.content := by
        refine Digest.ext ?_
        rw [← hdigest, hhasher]
        rfl
      have hopen : s.writer.session ≠ .failed := by
        rw [hflushed.session]
        nofun
      have hpre := hcommit hstream (hcount.symm.trans (congrArg _ hbytes)) hflushed.whole
      refine Safe.bind ((commit_safe hfree hopen hflushed.terminal fun _ _ => hpre).mono
        fun r t' hafter => ?_)
      cases r with
      | ok outcome => exact ⟨hafter.1, rfl, s.writer.parts, outcome, hafter.2⟩
      | error error => exact ⟨hafter.1, .inl (hafter.2 hflushed.buffer)⟩
    · rw [if_pos hbytes]
      refine hrefused _ (.size fun hlength => hbytes (UInt64.toNat_inj.mp ?_))
      have hlt := expectation.uncompressedBytes.toNat_lt
      omega
  · rw [if_pos hdigest]
    refine hrefused _ (.digest fun hcontent => hdigest ?_)
    rw [← hcontent, hhasher]
    rfl

/-! ## The sessions of a replica -/

/-- Every session that was opened is closed, or registered as abandoned. -/
def Settled (t : Trace Store) : Prop :=
  ∀ upload ∈ begun t, Closed upload t ∨ ⟨upload, true⟩ ∈ registry t

section
variable {key : BlobObjectKey} {cleanup : Option StorageError}

theorem released_settled
    (h : Changed u .released [⟨.beginMultipart key, Except.ok u⟩, ⟨.register u, ()⟩] t) :
    Settled t := by
  intro upload hupload
  rw [h.begun] at hupload
  obtain rfl : upload = u := mem_singleton.mp hupload
  exact .inl (h.closed.mpr (.inr rfl))

theorem aborted_cleaned
    (h : Aborted u cleanup [⟨.beginMultipart key, Except.ok u⟩, ⟨.register u, ()⟩] t) :
    Cleaned cleanup t := by
  intro upload hupload
  rw [h.changed.begun] at hupload
  obtain rfl : upload = u := mem_singleton.mp hupload
  refine ⟨h.answered, ?_⟩
  cases cleanup with
  | none => exact .inl rfl
  | some _ =>
    rw [h.changed.entries]
    simp [closing, Change.apply, registry, registryStep, OpenUploads.register, OpenUploads.abandon]

theorem cleaned_settled (h : Cleaned cleanup t) : Settled t := by
  intro upload hupload
  obtain ⟨hanswered, hentry⟩ := h upload hupload
  cases cleanup with
  | none => exact .inl ⟨_, hanswered, .aborted⟩
  | some _ => exact .inr (hentry.resolve_left nofun)

end

/-! ## The whole commit -/

def completes : Call → Bool
  | .commitMultipart _ _ => true
  | _ => false

def Uncompleted (t : Trace Store) : Prop := ∀ e ∈ t, completes e.call = false

theorem not_completes {c} (h : Ungated u c) : completes c = false := by
  cases c with
  | commitMultipart => exact h.elim
  | _ => rfl

/-- A stage that makes no completion. -/
theorem stays_uncompleted {α : Type} {Q : α → Trace Store → Prop} {p}
    (h : Safe allowed (fun t c => completes c = false ∧ pre t c) Q p t) (ht : Uncompleted t) :
    Safe allowed pre (fun a t' => Q a t' ∧ Uncompleted t') p t := by
  refine Safe.weaken (fun _ _ hc => hc.2) (h.keeps (fun t c r hc ht => ?_) ht)
  exact forall_mem_append.mpr ⟨ht, forall_mem_singleton.mpr hc.1⟩

section
variable {canonical : List Slice} {expectation : BlobExpectation} {encoder : BlobEncoder ε}
  {key : BlobObjectKey}

/-- The count of the stream does not saturate, or not at the declared size. -/
def Countable (expectation : BlobExpectation) (canonical : List Slice) : Prop :=
  (stream canonical).length < 2 ^ 64 ∨ expectation.uncompressedBytes.toNat < 2 ^ 63

theorem stages_safe {s : Streaming ε} (hfree : Free u pre) (h : Streamed [] [] s u t)
    (ht : Uncompleted t)
    (hcommit : ∀ t parts stored, Uncompleted t → (Countable expectation canonical →
      Checked expectation encoder s.encoder canonical stored) → Whole u parts stored t →
      pre t (.commitMultipart u parts)) :
    Safe allowed pre (fun r t' => match r with
      | .ok commit => commit.key = key ∧
          ∃ parts outcome, ⟨.commitMultipart u parts, Except.ok outcome⟩ ∈ t'
      | .error error => Aborted u error.cleanup t t') (stages key expectation encoder canonical s) t := by
  have hopen : Free u fun t c => completes c = false ∧ pre t c := fun t c hc =>
    ⟨not_completes hc, hfree t c hc⟩
  refine Safe.bind ((stays_uncompleted (streamChunks_safe hopen encoder canonical h) ht).mono
    fun r t' hafter => ?_)
  cases r with
  | error error => exact hafter.1.1
  | ok s' =>
    obtain ⟨⟨⟨out, hstreamed, hencode⟩, hquiet⟩, ht'⟩ := hafter
    refine Safe.bind ((stays_uncompleted (finishStream_safe hopen encoder hstreamed) ht').mono
      fun r t'' hafter => ?_)
    cases r with
    | error error => exact hafter.1.1.after_quiet hquiet
    | ok s'' =>
      obtain ⟨⟨⟨last, hlast, hready⟩, hquiet'⟩, ht''⟩ := hafter
      rw [hlast] at hencode
      refine (validateAndCommit_safe hfree hready fun hdigest hlength hwhole => ?_).mono
        fun r _ hafter => ?_
      · rw [nil_append] at hlength
        refine hcommit _ _ _ ht'' (fun hsize => ⟨hencode, hdigest, ?_⟩) hwhole
        unfold Countable at hsize
        omega
      · cases r with
        | ok _ => exact hafter.2
        | error _ => exact hafter.1.after_quiet (hquiet.trans hquiet')

/-- The blob commit from the start of a replica: its one completion is checked, and succeeded where
the commit returns. -/
theorem commitBlob_safe {tenant state}
    (hkey : BlobObjectKey.new tenant .zstdV1 expectation.content = key)
    (hbegin : pre [] (.beginMultipart key))
    (hfree : ∀ upload t c, Ungated upload c → Opened key upload t → pre t c)
    (hcommit : ∀ upload t parts stored, Opened key upload t → Uncompleted t →
      (Countable expectation canonical →
        Checked expectation encoder state canonical stored) → Whole upload parts stored t →
      pre t (.commitMultipart upload parts)) :
    Safe allowed pre (AfterBlob key) (commitBlob tenant expectation encoder state canonical) [] := by
  unfold commitBlob
  rw [hkey]
  refine Safe.bind (Safe.call hbegin fun r _ => ?_)
  cases r with
  | error error => exact ⟨nofun, fun _ _ _ hmem => absurd hmem not_mem_nil⟩
  | ok upload =>
    have hopened : Opened key upload [⟨.beginMultipart key, Except.ok upload⟩] :=
      mem_singleton.mpr rfl
    refine Safe.call (hfree upload _ _ trivial hopened) fun _ _ => ?_
    -- the session is open from here on, which is what its calls need
    have hfree' : Free upload fun t c => Opened key upload t → pre t c := hfree upload
    have hstages : Safe allowed (fun t c => Opened key upload t → pre t c) _
        (stages key expectation encoder canonical _) _ :=
      stages_safe hfree' (streamed_start key upload state) (by simp [Uncompleted, completes])
        fun t parts stored ht hchecked hwhole hopened =>
          hcommit upload t parts stored hopened ht hchecked hwhole
    refine (hstages.frame Opened.snoc ?_).mono ?_
    · exact mem_append_left _ hopened
    · rintro r t' ⟨hafter, hopened'⟩
      refine ⟨?_, ?_⟩
      · rintro commit rfl
        obtain ⟨hkey, parts, outcome, hmem⟩ := hafter
        exact ⟨hkey, upload, parts, outcome, hopened', hmem⟩
      · rintro error rfl
        exact aborted_cleaned hafter

end

end AgentArchivist.Storage.BlobFailure
