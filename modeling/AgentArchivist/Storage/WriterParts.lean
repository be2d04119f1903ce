import AgentArchivist.Storage.Multipart

/-! # What a multipart writer sends

The parts that a session sent are read off the calls it made. While a session has
not failed, its commitments are those of the parts sent, numbered from one, and the
parts together with the buffer are the bytes written. -/
namespace AgentArchivist.Storage
open Lib.Proc Protocol.ObjectKey Protocol.Vocabulary Multipart RawWrite List

/-- A failure that a call other than an abort was answered with, or that the writer made of an
answer. -/
inductive BlobFailure.Blamed (t : Trace Store) : StorageError → Prop
  | opening {key : BlobObjectKey} {error : StorageError} :
      ⟨.beginMultipart key, Except.error error⟩ ∈ t → Blamed t error
  | part {upload : MultipartUploadId} {number : PartNumber} {bytes : List UInt8}
      {error : StorageError} : ⟨.writePart upload number bytes, Except.error error⟩ ∈ t →
      Blamed t error
  | completion {upload : MultipartUploadId} {parts : List PartCommitment} {error : StorageError} :
      ⟨.commitMultipart upload parts, Except.error error⟩ ∈ t → Blamed t error
  | number {upload : MultipartUploadId} {number : PartNumber} {bytes : List UInt8}
      {commitment : PartCommitment} :
      ⟨.writePart upload number bytes, Except.ok commitment⟩ ∈ t → commitment.number ≠ number →
      Blamed t wrongCommitment
  | bound : Blamed t partBound
  | empty : Blamed t emptyStream

theorem BlobFailure.Blamed.mono {t t' error} (h : Blamed t error) (hsub : t ⊆ t') : Blamed t' error := by
  cases h with
  | opening hmem => exact .opening (hsub hmem)
  | part hmem => exact .part (hsub hmem)
  | completion hmem => exact .completion (hsub hmem)
  | number hmem hne => exact .number (hsub hmem) hne
  | bound => exact .bound
  | empty => exact .empty

namespace WriterParts
open BlobFailure

/-- A call that sends a part, with its answer. -/
structure Attempt where
  number : PartNumber
  bytes : List UInt8
  reply : Except StorageError PartCommitment

def attemptOf (upload : MultipartUploadId) (e : Event Store) : Option Attempt :=
  match e with
  | ⟨.writePart upload' number bytes, reply⟩ =>
    if upload' = upload then some ⟨number, bytes, reply⟩ else none
  | _ => none

def attempts (upload : MultipartUploadId) (t : Trace Store) : List Attempt :=
  t.filterMap (attemptOf upload)

/-- A part that the store took. -/
structure Sent where
  number : PartNumber
  bytes : List UInt8
  commitment : PartCommitment

def Sent.attempt (p : Sent) : Attempt := ⟨p.number, p.bytes, .ok p.commitment⟩

def Attempt.sent (a : Attempt) : Option Sent :=
  match a.reply with
  | .ok commitment => some ⟨a.number, a.bytes, commitment⟩
  | .error _ => none

def sent (upload : MultipartUploadId) (t : Trace Store) : List Sent :=
  (attempts upload t).filterMap Attempt.sent

/-- A call on a session that leaves it open: a part, or a completion that failed. -/
inductive Inert (upload : MultipartUploadId) : Event Store → Prop
  | part (number : PartNumber) (bytes : List UInt8) (reply : Except StorageError PartCommitment) :
      Inert upload ⟨.writePart upload number bytes, reply⟩
  | completion (parts : List PartCommitment) (error : StorageError) :
      Inert upload ⟨.commitMultipart upload parts, Except.error error⟩

/-- From `t` to `t'` only such calls were made. -/
def Quiet (upload : MultipartUploadId) (t t' : Trace Store) : Prop :=
  ∃ s, t' = t ++ s ∧ ∀ e ∈ s, Inert upload e

/-- The two calls of an abort, and how it failed, if it did. -/
def Ended (upload : MultipartUploadId) (cleanup : Option StorageError) (t t' : Trace Store) : Prop :=
  match cleanup with
  | none => t' = t ++ [⟨.abortMultipart upload, Except.ok ()⟩, ⟨.release upload, ()⟩]
  | some error => t' = t ++ [⟨.abortMultipart upload, Except.error error⟩, ⟨.abandon upload, ()⟩]

/-- A session that failed on the way from `t` to `t'`, and was aborted. -/
structure Failed (w : MultipartWriter) (error : MultipartWriterError) (w' : MultipartWriter)
    (t t' : Trace Store) : Prop where
  session : w'.session = .failed
  upload : w'.upload = w.upload
  terminal : w'.terminal = error.cleanup.isNone
  aborted : ∃ t₁, Quiet w.upload t t₁ ∧ Ended w.upload error.cleanup t₁ t'

/-- The commitments of a writer and the parts behind them. -/
structure Uploaded (w : MultipartWriter) (ps : List Sent) (t : Trace Store) : Prop where
  sent : attempts w.upload t = ps.map Sent.attempt
  parts : w.parts = ps.map (·.commitment)
  same : ∀ p ∈ ps, p.commitment.number = p.number
  numbers : w.parts.map (·.number.get) = List.range' 1 ps.length
  next : w.nextOrdinal = ps.length + 1

/-- Calls that need no precondition in a session: all but those that open one, that make an
object visible, or that touch another session. -/
def Ungated (upload : MultipartUploadId) : Call → Prop
  | .beginMultipart _ => False
  | .commitMultipart _ _ => False
  | .writeManifest _ _ => False
  | .createManifestIfAbsent _ _ => False
  | .writePart upload' _ _ => upload' = upload
  | .abortMultipart upload' => upload' = upload
  | _ => True

def Free (upload : MultipartUploadId) (pre : Trace Store → Call → Prop) : Prop :=
  ∀ t c, Ungated upload c → pre t c

variable {allowed : Trace Store → Event Store → Prop} {pre : Trace Store → Call → Prop}
  {w w' : MultipartWriter} {error : MultipartWriterError} {ps : List Sent} {t t' t'' : Trace Store}

theorem Quiet.refl (upload : MultipartUploadId) (t : Trace Store) : Quiet upload t t :=
  ⟨[], (append_nil t).symm, forall_mem_nil _⟩

theorem Quiet.trans {upload} (h : Quiet upload t t') (h' : Quiet upload t' t'') :
    Quiet upload t t'' := by
  obtain ⟨s, rfl, hs⟩ := h
  obtain ⟨s', rfl, hs'⟩ := h'
  exact ⟨s ++ s', append_assoc .., forall_mem_append.mpr ⟨hs, hs'⟩⟩

theorem Inert.quiet {upload e} (h : Inert upload e) (t : Trace Store) :
    Quiet upload t (t ++ [e]) := ⟨_, rfl, forall_mem_singleton.mpr h⟩

/-! ## Aborting -/

theorem terminateByAbort_safe (hfree : Free w.upload pre) :
    Safe allowed pre (fun r t' => ∃ cleanup, r = (cleanup.elim (.ok ()) .error,
      { w with terminal := cleanup.isNone || w.terminal }) ∧ Ended w.upload cleanup t t')
      w.terminateByAbort t := by
  refine Safe.call (hfree t _ rfl) fun r _ => ?_
  cases r with
  | ok u =>
    refine Safe.call (hfree _ _ trivial) fun _ _ => ?_
    exact ⟨none, rfl, append_assoc ..⟩
  | error error =>
    refine Safe.call (hfree _ _ trivial) fun _ _ => ?_
    exact ⟨some error, rfl, append_assoc ..⟩

theorem refuse_safe {α : Type} (hfree : Free w.upload pre) (hterminal : w.terminal = false)
    (failure : StorageError) :
    Safe allowed pre (fun r t' => ∃ cleanup, r.1 = .error ⟨failure, cleanup⟩ ∧
      Failed w ⟨failure, cleanup⟩ r.2 t t' ∧ r.2.buffer = w.buffer)
      (w.refuse failure : StoreM (Except MultipartWriterError α × _)) t := by
  have habort : Safe allowed pre _ _ t :=
    terminateByAbort_safe (w := { w with session := .failed }) hfree
  refine Safe.bind (Safe.bind (habort.mono ?_))
  rintro _ t' ⟨cleanup, rfl, hended⟩
  have hfailed : Failed w ⟨failure, cleanup⟩
      { w with session := .failed, terminal := cleanup.isNone || w.terminal } t t' := by
    rw [hterminal, Bool.or_false]
    exact ⟨rfl, rfl, rfl, t, Quiet.refl _ _, hended⟩
  cases cleanup with
  | none | some => exact ⟨_, rfl, hfailed, rfl⟩

/-! ## Sending -/

theorem partOrdinal_eq {next} {number} (h : partOrdinal next = some number) :
    number.get = next := by
  unfold partOrdinal PartNumber.new at h
  split at h
  · split at h
    · cases h
    · cases h
      rfl
  · cases h

theorem Failed.after_quiet (h : Failed w error w' t' t'') (hq : Quiet w.upload t t') :
    Failed w error w' t t'' := by
  obtain ⟨t1, hquiet, hended⟩ := h.aborted
  exact ⟨h.session, h.upload, h.terminal, t1, hq.trans hquiet, hended⟩

theorem Failed.subset (h : Failed w error w' t t') : t ⊆ t' := by
  obtain ⟨_, ⟨s, rfl, -⟩, hended⟩ := h.aborted
  unfold Ended at hended
  split at hended <;> simp [hended]

theorem attempts_append {upload} :
    attempts upload (t ++ t') = attempts upload t ++ attempts upload t' := filterMap_append

/-- What `upload_part` of the whole buffer leaves. -/
def AfterUpload (w : MultipartWriter) (ps : List Sent) (t : Trace Store)
    (r : Except MultipartWriterError Unit × MultipartWriter) (t' : Trace Store) : Prop :=
  match r.1 with
  | .ok () => Quiet w.upload t t' ∧ r.2.upload = w.upload ∧ r.2.session = w.session ∧
      r.2.terminal = false ∧ r.2.buffer = [] ∧
      ∃ part, part.bytes = w.buffer ∧ Uploaded r.2 (ps ++ [part]) t'
  | .error error => Failed w error r.2 t t' ∧ Blamed t' error.failure ∧ r.2.buffer = w.buffer

theorem uploadPart_safe (hfree : Free w.upload pre) (hterminal : w.terminal = false) (h : Uploaded w ps t) :
    Safe allowed pre (AfterUpload w ps t) (w.uploadPart w.buffer.length) t := by
  have hrefuse : ∀ failure t1, Quiet w.upload t t1 → Blamed t1 failure →
      Safe allowed pre (AfterUpload w ps t) (w.refuse failure) t1 := by
    intro failure t1 hquiet hblamed
    refine (refuse_safe hfree hterminal failure).mono ?_
    rintro ⟨r, w'⟩ t' ⟨cleanup, rfl, hfailed, hbuffer⟩
    exact ⟨hfailed.after_quiet hquiet, hblamed.mono hfailed.subset, hbuffer⟩
  unfold MultipartWriter.uploadPart
  cases hnumber : partOrdinal w.nextOrdinal with
  | none => exact hrefuse _ t (Quiet.refl _ t) .bound
  | some number =>
    refine Safe.call (hfree t _ rfl) fun r _ => ?_
    rw [take_length, drop_length]
    have hquiet : Quiet w.upload t (t ++ [⟨.writePart w.upload number w.buffer, r⟩]) :=
      (Inert.part number w.buffer r).quiet t
    have hmem := mem_append_right t
      (mem_singleton_self (⟨.writePart w.upload number w.buffer, r⟩ : Event Store))
    cases r with
    | error failure => exact hrefuse _ _ hquiet (.part hmem)
    | ok commitment =>
      dsimp only
      by_cases hsame : commitment.number = number
      · rw [if_neg (not_not_intro hsame)]
        refine ⟨hquiet, rfl, rfl, hterminal, rfl, ⟨number, w.buffer, commitment⟩, rfl, ?_⟩
        have hget : commitment.number.get = ps.length + 1 := by
          rw [hsame, partOrdinal_eq hnumber, h.next]
        refine ⟨?_, ?_, ?_, ?_, ?_⟩
        · rw [attempts_append, h.sent]
          simp [attempts, attemptOf, Sent.attempt]
        · rw [map_append, ← h.parts]
          rfl
        · exact forall_mem_append.mpr ⟨h.same, forall_mem_singleton.mpr hsame⟩
        · rw [map_append, h.numbers, length_append, length_singleton,
            range'_1_concat, map_singleton, hget, Nat.add_comm 1]
        · rw [length_append, length_singleton, h.next]
      · rw [if_pos hsame]
        exact hrefuse _ _ hquiet (.number hmem hsame)

/-! ## The stream -/

/-- A live session after `written`: full parts, and a buffer that is not full. -/
structure Live (w : MultipartWriter) (ps : List Sent) (written : List UInt8) (t : Trace Store) : Prop
    extends Uploaded w ps t where
  session : w.session = .live
  terminal : w.terminal = false
  full : ∀ p ∈ ps, p.bytes.length = PART_BYTES
  buffered : w.buffer.length < PART_BYTES
  written : ps.flatMap (·.bytes) ++ w.buffer = written

/-- A session that was just begun. -/
theorem Live.start {upload blob} (h : attempts upload t = []) :
    Live ⟨upload, blob, [], 1, [], 0, .live, false⟩ [] [] t where
  sent := h
  parts := rfl
  same := forall_mem_nil _
  numbers := rfl
  next := rfl
  session := rfl
  terminal := rfl
  full := forall_mem_nil _
  buffered := show 0 < PART_BYTES by decide
  written := rfl

/-- What `write_chunk` on a live session leaves. -/
def AfterWrite (w : MultipartWriter) (written : List UInt8) (t : Trace Store)
    (r : Except MultipartWriterError Unit × MultipartWriter) (t' : Trace Store) : Prop :=
  match r.1 with
  | .ok () => Quiet w.upload t t' ∧ r.2.upload = w.upload ∧ ∃ ps, Live r.2 ps written t'
  | .error error => Failed w error r.2 t t' ∧ Blamed t' error.failure ∧
      r.2.buffer.length = PART_BYTES

theorem AfterWrite.after_quiet {written r w₁} (h : AfterWrite w₁ written t' r t'')
    (hupload : w₁.upload = w.upload) (hq : Quiet w.upload t t') : AfterWrite w written t r t'' := by
  unfold AfterWrite at h ⊢
  split at h
  · obtain ⟨hquiet, hup, hlive⟩ := h
    rw [hupload] at hquiet hup
    exact ⟨hq.trans hquiet, hup, hlive⟩
  · obtain ⟨⟨hsession, hup, hterminal, t1, hquiet, hended⟩, hblamed⟩ := h
    rw [hupload] at hup hquiet hended
    exact ⟨⟨hsession, hup, hterminal, t1, hq.trans hquiet, hended⟩, hblamed⟩

theorem writeLoop_safe : ∀ (turns : Nat) {w : MultipartWriter} {ps : List Sent}
    {written rest : List UInt8} {t : Trace Store}, Live w ps written t → Free w.upload pre →
    rest.length < turns →
    Safe allowed pre (AfterWrite w (written ++ rest) t) (MultipartWriter.writeLoop turns w rest) t
  | 0, _, _, _, _, _, _, _, hturns => absurd hturns (Nat.not_lt_zero _)
  | turns + 1, w, ps, written, rest, t, h, hfree, hturns => by
    unfold MultipartWriter.writeLoop
    by_cases hrest : rest = []
    · rw [if_pos hrest, hrest, append_nil]
      exact ⟨Quiet.refl _ _, rfl, ps, h⟩
    rw [if_neg hrest]
    dsimp only
    have hbuffered := h.buffered
    have hpos : 0 < rest.length := length_pos_iff.mpr hrest
    generalize htake : min (PART_BYTES - w.buffer.length) rest.length = take
    have hfewer : (rest.drop take).length < turns := by
      rw [length_drop]
      omega
    have hsplit : written ++ rest =
        ps.flatMap (·.bytes) ++ (w.buffer ++ rest.take take) ++ rest.drop take := by
      rw [← h.written, ← append_assoc, append_assoc (_ ++ _), take_append_drop]
    have hgrown : Uploaded { w with buffer := w.buffer ++ rest.take take } ps t :=
      ⟨h.sent, h.parts, h.same, h.numbers, h.next⟩
    by_cases hfull : (w.buffer ++ rest.take take).length = PART_BYTES
    · -- the part is full: it is sent, and the buffer starts again
      rw [if_pos hfull]
      have hpart : Safe allowed pre _ _ t :=
        uploadPart_safe (w := { w with buffer := w.buffer ++ rest.take take }) hfree h.terminal hgrown
      rw [hfull] at hpart
      refine Safe.bind (hpart.mono ?_)
      rintro ⟨r, w'⟩ t' hafter
      cases r with
      | error error =>
        obtain ⟨⟨hsession, hupload, hterminal, haborted⟩, hblamed, hbuffer⟩ := hafter
        exact ⟨⟨hsession, hupload, hterminal, haborted⟩, hblamed, by rw [hbuffer, hfull]⟩
      | ok u =>
        obtain ⟨hquiet, hupload, hsession, hterminal, hbuffer, part, hbytes, huploaded⟩ := hafter
        have hlive : Live w' (ps ++ [part]) (ps.flatMap (·.bytes) ++ (w.buffer ++ rest.take take)) t' :=
          { toUploaded := huploaded
            session := hsession.trans h.session
            terminal := hterminal
            full := forall_mem_append.mpr
              ⟨h.full, forall_mem_singleton.mpr (by rw [hbytes, hfull])⟩
            buffered := by
              rw [hbuffer]
              decide
            written := by
              rw [show w'.buffer = [] from hbuffer]
              simp [hbytes] }
        rw [hsplit]
        have hfree' : Free w'.upload pre := by
          rw [show w'.upload = w.upload from hupload]
          exact hfree
        refine (writeLoop_safe turns hlive hfree' hfewer).mono fun r t'' hafter => ?_
        exact hafter.after_quiet hupload hquiet
    · have hshort : (w.buffer ++ rest.take take).length ≤ PART_BYTES := by
        rw [length_append, length_take]
        omega
      have hlive : Live { w with buffer := w.buffer ++ rest.take take } ps
          (ps.flatMap (·.bytes) ++ (w.buffer ++ rest.take take)) t :=
        { toUploaded := hgrown
          session := h.session
          terminal := h.terminal
          full := h.full
          buffered := Nat.lt_of_le_of_ne hshort hfull
          written := rfl }
      rw [if_neg hfull, hsplit]
      refine (writeLoop_safe turns hlive hfree hfewer).mono fun r t'' hafter => ?_
      exact hafter.after_quiet rfl (Quiet.refl _ _)

theorem writeChunk_safe {written} (hfree : Free w.upload pre) (h : Live w ps written t)
    (chunk : List UInt8) :
    Safe allowed pre (AfterWrite w (written ++ chunk) t) (w.writeChunk chunk) t := by
  unfold MultipartWriter.writeChunk
  rw [h.session]
  exact writeLoop_safe _ h hfree (Nat.lt_succ_self _)

/-- Parts of a finished stream: all are full but the last, which is not empty. -/
def Cut (parts : List (List UInt8)) : Prop :=
  (∀ p ∈ parts.dropLast, p.length = PART_BYTES) ∧
    ∀ p ∈ parts.getLast?, 1 ≤ p.length ∧ p.length ≤ PART_BYTES

theorem cut_full {parts} (h : ∀ p ∈ parts, p.length = PART_BYTES) : Cut parts := by
  refine ⟨fun p hp => h p ((dropLast_sublist parts).subset hp), fun p hp => ?_⟩
  rw [h p (mem_of_getLast? hp)]
  decide

theorem cut_cons {p} {ps} (h : Cut (p :: ps)) :
    (ps = [] ∧ 1 ≤ p.length ∧ p.length ≤ PART_BYTES) ∨
      (ps ≠ [] ∧ p.length = PART_BYTES ∧ Cut ps) := by
  obtain ⟨hfull, hlast⟩ := h
  cases ps with
  | nil => exact .inl ⟨rfl, hlast p rfl⟩
  | cons q qs =>
    obtain ⟨hp, hrest⟩ := forall_mem_cons.mp hfull
    exact .inr ⟨nofun, hp, hrest, by simpa using hlast⟩

theorem cut_flatten_pos {ps} (h : Cut ps) (hps : ps ≠ []) : 0 < ps.flatten.length := by
  cases ps with
  | nil => exact absurd rfl hps
  | cons p ps =>
    rw [flatten_cons, length_append]
    have hpos : 0 < PART_BYTES := by decide
    rcases cut_cons h with ⟨-, hp, -⟩ | ⟨-, hp, -⟩ <;> omega

/-- Bytes are cut in one way. -/
theorem cut_unique {ps qs} (hps : Cut ps) (hqs : Cut qs) (heq : ps.flatten = qs.flatten) :
    ps = qs := by
  induction ps generalizing qs with
  | nil =>
    by_contra hne
    have hpos := cut_flatten_pos hqs (Ne.symm hne)
    rw [← heq] at hpos
    exact absurd hpos (Nat.lt_irrefl 0)
  | cons p ps ih =>
    cases qs with
    | nil =>
      have hpos := cut_flatten_pos hps nofun
      rw [heq] at hpos
      exact absurd hpos (Nat.lt_irrefl 0)
    | cons q qs =>
      rw [flatten_cons, flatten_cons] at heq
      have hlen := congrArg List.length heq
      rw [length_append, length_append] at hlen
      rcases cut_cons hps with ⟨rfl, -, hp⟩ | ⟨hne, hp, hps'⟩ <;>
        rcases cut_cons hqs with ⟨rfl, -, hq⟩ | ⟨hne', hq, hqs'⟩
      · simpa using heq
      · have := cut_flatten_pos hqs' hne'
        rw [flatten_nil, length_nil] at hlen
        omega
      · have := cut_flatten_pos hps' hne
        rw [flatten_nil, length_nil] at hlen
        omega
      · obtain ⟨rfl, hrest⟩ := append_inj heq (hp.trans hq.symm)
        rw [ih hps' hqs' hrest]

/-- A finished session after `written`: everything is sent. -/
structure Flushed (w : MultipartWriter) (ps : List Sent) (written : List UInt8) (t : Trace Store) :
    Prop extends Uploaded w ps t where
  session : w.session = .flushed
  terminal : w.terminal = false
  buffer : w.buffer = []
  cut : Cut (ps.map (·.bytes))
  written : ps.flatMap (·.bytes) = written

/-- What `finish` on a live session leaves. -/
def AfterFinish (w : MultipartWriter) (written : List UInt8) (t : Trace Store)
    (r : Except MultipartWriterError Unit × MultipartWriter) (t' : Trace Store) : Prop :=
  match r.1 with
  | .ok () => Quiet w.upload t t' ∧ r.2.upload = w.upload ∧ ∃ ps, Flushed r.2 ps written t'
  | .error error => Failed w error r.2 t t' ∧ Blamed t' error.failure ∧ r.2.buffer = w.buffer

theorem finish_safe {written} (hfree : Free w.upload pre) (h : Live w ps written t) :
    Safe allowed pre (AfterFinish w written t) w.finish t := by
  have hfull : ∀ p ∈ ps.map (·.bytes), p.length = PART_BYTES := by
    simpa using h.full
  unfold MultipartWriter.finish
  rw [h.session]
  by_cases htail : w.buffer.length > 0
  · rw [if_pos htail]
    refine Safe.bind ((uploadPart_safe hfree h.terminal h.toUploaded).mono ?_)
    rintro ⟨r, w'⟩ t' hafter
    cases r with
    | error error => exact hafter
    | ok u =>
      obtain ⟨hquiet, hupload, -, hterminal, hbuffer, part, hbytes, huploaded⟩ := hafter
      refine ⟨hquiet, hupload, ps ++ [part], ?_⟩
      exact
        { toUploaded := ⟨huploaded.sent, huploaded.parts, huploaded.same, huploaded.numbers, huploaded.next⟩
          session := rfl
          terminal := hterminal
          buffer := hbuffer
          cut := by
            rw [map_append, map_singleton, hbytes]
            refine ⟨by rwa [dropLast_concat], fun p hp => ?_⟩
            rw [getLast?_concat] at hp
            cases hp
            exact ⟨htail, Nat.le_of_lt h.buffered⟩
          written := by simp [hbytes, ← h.written] }
  · rw [if_neg htail]
    have hempty : w.buffer = [] := eq_nil_of_length_eq_zero (Nat.eq_zero_of_not_pos htail)
    refine ⟨Quiet.refl _ _, rfl, ps, ?_⟩
    exact
      { toUploaded := ⟨h.sent, h.parts, h.same, h.numbers, h.next⟩
        session := rfl
        terminal := h.terminal
        buffer := hempty
        cut := cut_full hfull
        written := by rw [← h.written, hempty, append_nil] }

/-! ## Completion -/

/-- The commitments are those of the parts sent, numbered from one and cut as they have to be,
and the parts are the bytes written. No part was sent in vain. -/
structure Whole (upload : MultipartUploadId) (parts : List PartCommitment) (written : List UInt8)
    (t : Trace Store) : Prop where
  numbers : parts.map (·.number.get) = List.range' 1 parts.length
  parts : parts = (sent upload t).map (·.commitment)
  same : ∀ p ∈ sent upload t, p.commitment.number = p.number
  attempts : attempts upload t = (sent upload t).map Sent.attempt
  cut : Cut ((sent upload t).map (·.bytes))
  written : (sent upload t).flatMap (·.bytes) = written

theorem Uploaded.whole {written} (h : Uploaded w ps t) (hcut : Cut (ps.map (·.bytes)))
    (hwritten : ps.flatMap (·.bytes) = written) : Whole w.upload w.parts written t := by
  have hsent : WriterParts.sent w.upload t = ps := by
    rw [WriterParts.sent, h.sent, filterMap_map]
    exact filterMap_some
  refine ⟨?_, ?_, ?_, ?_, ?_, ?_⟩
  · rw [h.numbers, h.parts, length_map]
  · rw [hsent, h.parts]
  · rw [hsent]
    exact h.same
  · rw [hsent, h.sent]
  · rwa [hsent]
  · rwa [hsent]

theorem Flushed.whole {written} (h : Flushed w ps written t) :
    Whole w.upload w.parts written t := h.toUploaded.whole h.cut h.written

/-- A live session without buffered bytes has sent everything, too. -/
theorem Live.whole {written} (h : Live w ps written t) (hbuffer : w.buffer = []) :
    Whole w.upload w.parts written t := by
  refine h.toUploaded.whole (cut_full (by simpa using h.full)) ?_
  rw [← h.written, hbuffer, append_nil]

/-- What the body of `commit` leaves. -/
def AfterComplete (w : MultipartWriter) (t : Trace Store)
    (r : Except MultipartWriterError StorageOutcome × MultipartWriter) (t' : Trace Store) : Prop :=
  match r.1 with
  | .ok outcome => r.2 = { w with terminal := true } ∧
      t' = t ++ [⟨.commitMultipart w.upload w.parts, Except.ok outcome⟩, ⟨.release w.upload, ()⟩]
  | .error error => Failed w error r.2 t t' ∧ (w.buffer = [] → Blamed t' error.failure)

theorem complete_safe (hfree : Free w.upload pre) (hopen : w.session ≠ .failed) (hterminal : w.terminal = false)
    (hcommit : w.buffer = [] → w.parts ≠ [] → pre t (.commitMultipart w.upload w.parts)) :
    Safe allowed pre (AfterComplete w t) w.complete t := by
  have hrefuse : ∀ failure t1, Quiet w.upload t t1 → (w.buffer = [] → Blamed t1 failure) →
      Safe allowed pre (AfterComplete w t) (w.refuse failure) t1 := by
    intro failure t1 hquiet hblamed
    refine (refuse_safe hfree hterminal failure).mono ?_
    rintro ⟨r, w'⟩ t' ⟨cleanup, rfl, hfailed, -⟩
    exact ⟨hfailed.after_quiet hquiet, fun hbuffer => (hblamed hbuffer).mono hfailed.subset⟩
  unfold MultipartWriter.complete
  rw [if_neg hopen]
  by_cases hbuffer : w.buffer = []
  · rw [if_neg (not_not_intro hbuffer)]
    by_cases hparts : w.parts = []
    · rw [if_pos hparts]
      exact hrefuse _ t (Quiet.refl _ t) fun _ => .empty
    rw [if_neg hparts]
    refine Safe.call (hcommit hbuffer hparts) fun r _ => ?_
    cases r with
    | error failure =>
      refine hrefuse _ _ ((Inert.completion w.parts failure).quiet t) fun _ => ?_
      exact .completion (mem_append_right _ (mem_singleton_self _))
    | ok outcome =>
      refine Safe.call (hfree _ _ trivial) fun _ _ => ?_
      exact ⟨rfl, append_assoc ..⟩
  · rw [if_pos hbuffer]
    exact hrefuse _ t (Quiet.refl _ t) fun hempty => absurd hempty hbuffer

end WriterParts

end AgentArchivist.Storage
