import AgentArchivist.Storage.OpenSessions
import Mathlib.Data.List.Nodup

/-! # Sessions that share a registry

Any number of writers over one registry, their operations in any order, with a store
that may answer anything to any call and only mints every session id once. `Inv` ties
the writers to the registry and to what was written; every operation keeps it. -/
namespace AgentArchivist.Storage.MultipartSessions
open Protocol List
open Lib.Proc ObjectKey Multipart OpenSessions RawWrite WriterParts

/-- Session ids are minted once, and the registry answers with what it holds. -/
def Allowed (t : Trace Store) (e : Event Store) : Prop :=
  match e with
  | ⟨.beginMultipart _, reply⟩ =>
    ∀ upload, (reply : Except StorageError MultipartUploadId) = .ok upload → upload ∉ begun t
  | ⟨.abandoned, reply⟩ =>
    (reply : List MultipartUploadId) = OpenUploads.abandonedUploads (registry t)
  | _ => True

/-- What the methods that borrow a writer returned. -/
inductive ApiEvent where
  | writeChunk (upload : MultipartUploadId) (session : Session) (chunk : List UInt8) (ok : Bool)
  | finish (upload : MultipartUploadId) (ok : Bool)

def ApiEvent.upload : ApiEvent → MultipartUploadId
  | .writeChunk upload _ _ _ => upload
  | .finish upload _ => upload

def acceptedOf (upload : MultipartUploadId) : ApiEvent → List UInt8
  | .writeChunk upload' _ chunk true => if upload' = upload then chunk else []
  | _ => []

/-- All the chunks that a session accepted. -/
def written (upload : MultipartUploadId) (api : List ApiEvent) : List UInt8 :=
  api.flatMap (acceptedOf upload)

def Finished (upload : MultipartUploadId) (api : List ApiEvent) : Prop := .finish upload true ∈ api

/-- A chunk failed while the session was live. -/
def Spoiled (upload : MultipartUploadId) (api : List ApiEvent) : Prop :=
  ∃ chunk, .writeChunk upload .live chunk false ∈ api

structure World where
  log : Trace Store
  writers : List MultipartWriter
  api : List ApiEvent

inductive Operation where
  | begin (blob : BlobObjectKey)
  | writeChunk (w : MultipartWriter) (chunk : List UInt8)
  | finish (w : MultipartWriter)
  | commit (w : MultipartWriter)
  | abort (w : MultipartWriter)
  | drop (w : MultipartWriter)
  | abortAbandoned

/-- One operation, run to its end. `commit`, `abort` and `drop` consume the writer. -/
inductive Step : World → Operation → World → Prop
  | begun {log : Trace Store} {writers api} {blob : BlobObjectKey} {w : MultipartWriter} {t'} :
      Runs Allowed (MultipartWriter.begin blob) log (.ok w) t' →
      Step ⟨log, writers, api⟩ (.begin blob) ⟨t', writers ++ [w], api⟩
  | unbegun {log : Trace Store} {writers api} {blob : BlobObjectKey} {error t'} :
      Runs Allowed (MultipartWriter.begin blob) log (.error error) t' →
      Step ⟨log, writers, api⟩ (.begin blob) ⟨t', writers, api⟩
  | writeChunk {log : Trace Store} {before after api} {w w' : MultipartWriter} {chunk r t'} :
      Runs Allowed (w.writeChunk chunk) log (r, w') t' →
      Step ⟨log, before ++ w :: after, api⟩ (.writeChunk w chunk)
        ⟨t', before ++ w' :: after, api ++ [.writeChunk w.upload w.session chunk r.isOk]⟩
  | finish {log : Trace Store} {before after api} {w w' : MultipartWriter} {r t'} :
      Runs Allowed w.finish log (r, w') t' →
      Step ⟨log, before ++ w :: after, api⟩ (.finish w)
        ⟨t', before ++ w' :: after, api ++ [.finish w.upload r.isOk]⟩
  | commit {log : Trace Store} {before after api} {w : MultipartWriter} {r t'} :
      Runs Allowed w.commit log r t' →
      Step ⟨log, before ++ w :: after, api⟩ (.commit w) ⟨t', before ++ after, api⟩
  | abort {log : Trace Store} {before after api} {w : MultipartWriter} {r t'} :
      Runs Allowed w.abort log r t' →
      Step ⟨log, before ++ w :: after, api⟩ (.abort w) ⟨t', before ++ after, api⟩
  | drop {log : Trace Store} {before after api} {w : MultipartWriter} {t'} :
      Runs Allowed w.drop log () t' →
      Step ⟨log, before ++ w :: after, api⟩ (.drop w) ⟨t', before ++ after, api⟩
  | abortAbandoned {log : Trace Store} {writers api failures t'} :
      Runs Allowed abortAbandoned log failures t' →
      Step ⟨log, writers, api⟩ .abortAbandoned ⟨t', writers, api⟩

inductive Reachable : World → Prop
  | start : Reachable ⟨[], [], []⟩
  | step {W W' : World} {op : Operation} : Reachable W → Step W op W' → Reachable W'

/-! ## The invariant -/

/-- Where an existing writer stands. -/
def Standing (log : Trace Store) (api : List ApiEvent) (w : MultipartWriter) : Prop :=
  w.upload ∈ begun log ∧
  match w.session with
  | .live => (∃ ps, Live w ps (written w.upload api) log) ∧ ¬ Finished w.upload api ∧
      ¬ Spoiled w.upload api ∧ ⟨w.upload, false⟩ ∈ registry log
  | .flushed => (∃ ps, Flushed w ps (written w.upload api) log) ∧ Finished w.upload api ∧
      ¬ Spoiled w.upload api ∧ ⟨w.upload, false⟩ ∈ registry log
  | .failed => (w.buffer.length < PART_BYTES ∨ Spoiled w.upload api ∧ w.buffer.length = PART_BYTES) ∧
      (Spoiled w.upload api → w.buffer.length = PART_BYTES) ∧ ⟨w.upload, false⟩ ∉ registry log

structure Inv (W : World) : Prop where
  distinct : (W.writers.map (·.upload)).Nodup
  standing : ∀ w ∈ W.writers, Standing W.log W.api w
  entries : ((registry W.log).map (·.upload)).Nodup
  owned : ∀ u, ⟨u, false⟩ ∈ registry W.log → ∃ w ∈ W.writers, w.upload = u
  begun : ∀ u ∈ (registry W.log).map (·.upload), u ∈ begun W.log
  closed : ∀ u ∈ OpenSessions.begun W.log,
    Closed u W.log ↔ u ∉ (registry W.log).map (·.upload)
  fresh : ∀ u, u ∉ OpenSessions.begun W.log →
    attempts u W.log = [] ∧ ¬ Closed u W.log ∧ ∀ e ∈ W.api, e.upload ≠ u

theorem inv_start : Inv ⟨[], [], []⟩ where
  distinct := nodup_nil
  standing := forall_mem_nil _
  entries := nodup_nil
  owned _ h := absurd h not_mem_nil
  begun _ h := absurd h not_mem_nil
  closed _ h := absurd h not_mem_nil
  fresh _ _ := ⟨rfl, closed_nil, forall_mem_nil _⟩

/-! What other uploads keep. -/

section
variable {u v : MultipartUploadId} {c : Change} {t t' : Trace Store} {api evs : List ApiEvent}
  {w : MultipartWriter}

theorem written_ne (h : ∀ e ∈ evs, e.upload ≠ u) : written u evs = [] := by
  refine flatMap_eq_nil_iff.mpr fun e he => ?_
  have hne := h e he
  cases e with
  | writeChunk upload session chunk ok =>
    cases ok with
    | true => exact if_neg hne
    | false => rfl
  | finish upload ok => rfl

theorem finished_append_ne (h : ∀ e ∈ evs, e.upload ≠ u) :
    Finished u (api ++ evs) ↔ Finished u api := by
  unfold Finished
  rw [mem_append, or_iff_left]
  exact fun hmem => h _ hmem rfl

theorem spoiled_append_ne (h : ∀ e ∈ evs, e.upload ≠ u) :
    Spoiled u (api ++ evs) ↔ Spoiled u api := by
  unfold Spoiled
  simp only [mem_append]
  refine exists_congr fun chunk => or_iff_left ?_
  exact fun hmem => h _ hmem rfl

theorem Standing.congr {api'} (h : Standing t api w)
    (hwritten : written w.upload api' = written w.upload api)
    (hfinished : Finished w.upload api' ↔ Finished w.upload api)
    (hspoiled : Spoiled w.upload api' ↔ Spoiled w.upload api) : Standing t api' w := by
  unfold Standing at h ⊢
  rwa [hwritten, hfinished, hspoiled]

/-- A writer stands as it did while its own parts and its entry are the same. -/
theorem Standing.transfer (h : Standing t api w) (hbegun : w.upload ∈ begun t')
    (hsent : attempts w.upload t' = attempts w.upload t)
    (hentry : ⟨w.upload, false⟩ ∈ registry t' ↔ ⟨w.upload, false⟩ ∈ registry t) :
    Standing t' api w := by
  obtain ⟨-, hstate⟩ := h
  refine ⟨hbegun, ?_⟩
  rw [hentry]
  cases hsession : w.session <;> rw [hsession] at hstate
  case live =>
    obtain ⟨⟨ps, hlive⟩, hrest⟩ := hstate
    exact ⟨⟨ps, { hlive with sent := hsent.trans hlive.sent }⟩, hrest⟩
  case flushed =>
    obtain ⟨⟨ps, hflushed⟩, hrest⟩ := hstate
    exact ⟨⟨ps, { hflushed with sent := hsent.trans hflushed.sent }⟩, hrest⟩
  case failed => exact hstate

theorem Standing.frame (h : Standing t api w) (hchanged : Changed u c t t') (hw : w.upload ≠ u)
    (hevs : ∀ e ∈ evs, e.upload = u) : Standing t' (api ++ evs) w := by
  have hother : ∀ e ∈ evs, e.upload ≠ w.upload := fun e he heq => hw (heq ▸ hevs e he)
  have hsame : Standing t' api w :=
    h.transfer (hchanged.begun ▸ h.1) (hchanged.attempts_ne hw) (hchanged.mem_ne hw)
  refine hsame.congr ?_ (finished_append_ne hother) (spoiled_append_ne hother)
  exact flatMap_append.trans ((congrArg _ (written_ne hother)).trans (append_nil _))

/-- Calls about one upload keep the invariant, where the writer of that upload does. -/
theorem Inv.change {writers writers'} (h : Inv ⟨t, writers, api⟩)
    (hbegun : u ∈ OpenSessions.begun t) (hchanged : Changed u c t t')
    (hevs : ∀ e ∈ evs, e.upload = u) (hdistinct : (writers'.map (·.upload)).Nodup)
    (hnew : ∀ x ∈ writers', (x ∈ writers ∧ x.upload ≠ u) ∨ Standing t' (api ++ evs) x)
    (hold : ∀ x ∈ writers, x.upload ≠ u → x ∈ writers')
    (hown : ⟨u, false⟩ ∈ registry t' → ∃ x ∈ writers', x.upload = u) :
    Inv ⟨t', writers', api ++ evs⟩ := by
  refine ⟨hdistinct, ?_, h.entries.sublist hchanged.uploads, ?_, ?_, ?_, ?_⟩
  · intro x hx
    rcases hnew x hx with ⟨hx, hne⟩ | hstanding
    · exact (h.standing x hx).frame hchanged hne hevs
    · exact hstanding
  · intro v hv
    by_cases hvu : v = u
    · subst hvu
      exact hown hv
    · obtain ⟨x, hx, rfl⟩ := h.owned v ((hchanged.mem_ne hvu).mp hv)
      exact ⟨x, hold x hx hvu, rfl⟩
  · intro v hv
    rw [hchanged.begun]
    exact h.begun v (hchanged.uploads.subset hv)
  · intro v hv
    rw [hchanged.begun] at hv
    have hclosed := h.closed v hv
    by_cases hvu : v = u
    · subst hvu
      rw [hchanged.closed, hchanged.mem_uploads, hclosed]
      tauto
    have hmem : v ∈ (registry t').map (·.upload) ↔ v ∈ (registry t).map (·.upload) := by
      simp only [mem_map]
      constructor
      · rintro ⟨⟨_, b⟩, he, rfl⟩
        exact ⟨_, (hchanged.mem_ne hvu).mp he, rfl⟩
      · rintro ⟨⟨_, b⟩, he, rfl⟩
        exact ⟨_, (hchanged.mem_ne hvu).mpr he, rfl⟩
    rw [hchanged.closed_ne hvu, hmem]
    exact hclosed
  · intro v hv
    rw [hchanged.begun] at hv
    have hvu : v ≠ u := fun heq => hv (heq ▸ hbegun)
    obtain ⟨hsent, hopen, hapi⟩ := h.fresh v hv
    refine ⟨(hchanged.attempts_ne hvu).trans hsent, fun hclosed => hopen ?_, ?_⟩
    · exact (hchanged.closed_ne hvu).mp hclosed
    · exact forall_mem_append.mpr ⟨hapi, fun e he heq => hvu (heq ▸ hevs e he)⟩

/-- In a list without repeated uploads the others differ from the one in the middle. -/
theorem upload_ne {before after} (h : ((before ++ w :: after).map (·.upload)).Nodup) :
    ∀ x ∈ before ++ after, x.upload ≠ w.upload := by
  rw [map_append, map_cons, nodup_middle, ← map_append] at h
  intro x hx heq
  exact (nodup_cons.mp h).1 (heq ▸ mem_map.mpr ⟨x, hx, rfl⟩)

/-! ## The operations keep it -/

variable {before after : List MultipartWriter} {w' : MultipartWriter}
  {pre : Trace Store → Call → Prop}

theorem mem_middle {x} : x ∈ before ++ w :: after ↔ x = w ∨ x ∈ before ++ after :=
  List.perm_middle.mem_iff.trans mem_cons

section
variable (h : Inv ⟨t, before ++ w :: after, api⟩)
include h

theorem Inv.update (hchanged : Changed w.upload c t t') {e} (he : e.upload = w.upload)
    (hupload : w'.upload = w.upload) (hstanding : Standing t' (api ++ [e]) w') :
    Inv ⟨t', before ++ w' :: after, api ++ [e]⟩ := by
  have hne := upload_ne h.distinct
  refine h.change (h.standing w (by simp)).1 hchanged (forall_mem_singleton.mpr he) ?_ ?_ ?_ ?_
  · have hnodup := h.distinct
    rw [map_append, map_cons] at hnodup ⊢
    rwa [hupload]
  · intro x hx
    rcases mem_middle.mp hx with rfl | hx
    · exact .inr hstanding
    · exact .inl ⟨mem_middle.mpr (.inr hx), hne x hx⟩
  · intro x hx hxu
    exact mem_middle.mpr (.inr ((mem_middle.mp hx).resolve_left fun heq => hxu (heq ▸ rfl)))
  · exact fun _ => ⟨w', mem_middle.mpr (.inl rfl), hupload⟩

theorem Inv.remove (hchanged : Changed w.upload c t t')
    (hgone : ⟨w.upload, false⟩ ∉ registry t') : Inv ⟨t', before ++ after, api⟩ := by
  have hsub : (before ++ after).Sublist (before ++ w :: after) :=
    List.Sublist.append_left (sublist_cons_self w after) before
  have hinv : Inv ⟨t', before ++ after, api ++ []⟩ := by
    refine h.change (h.standing w (by simp)).1 hchanged (forall_mem_nil _)
      (h.distinct.sublist (hsub.map _)) ?_ ?_ fun hmem => absurd hmem hgone
    · exact fun x hx => .inl ⟨hsub.subset hx, upload_ne h.distinct x hx⟩
    · exact fun x hx hxu => (mem_middle.mp hx).resolve_left fun heq => hxu (heq ▸ rfl)
  rwa [append_nil] at hinv

end

/-- A session that failed has left the live ones. -/
theorem Standing.of_failed {error} (hfailed : Failed w error w' t t') (hbegun : w.upload ∈ begun t)
    (hnodup : ((registry t).map (·.upload)).Nodup)
    (hbuffer : w'.buffer.length < PART_BYTES ∨
      Spoiled w.upload api ∧ w'.buffer.length = PART_BYTES)
    (hspoiled : Spoiled w.upload api → w'.buffer.length = PART_BYTES) : Standing t' api w' := by
  have haborted := aborted_failed hfailed
  unfold Standing
  rw [hfailed.session, hfailed.upload, haborted.changed.begun]
  exact ⟨hbegun, hbuffer, hspoiled, haborted.not_live hnodup⟩

/-- An open session is not terminal and has a live entry; a failed one has none. -/
theorem Standing.open_or_failed (h : Standing t api w) :
    (w.session ≠ .failed ∧ w.terminal = false) ∨
      (w.session = .failed ∧ ⟨w.upload, false⟩ ∉ registry t) := by
  obtain ⟨-, hstate⟩ := h
  cases hsession : w.session <;> rw [hsession] at hstate
  case live => exact .inl ⟨nofun, hstate.1.elim fun _ hlive => hlive.terminal⟩
  case flushed => exact .inl ⟨nofun, hstate.1.elim fun _ hflushed => hflushed.terminal⟩
  case failed => exact .inr ⟨rfl, hstate.2.2⟩

/-- What an open session without buffered bytes would complete. -/
theorem Standing.whole (h : Standing t api w) (hopen : w.session ≠ .failed) (hbuffer : w.buffer = []) :
    Whole w.upload w.parts (written w.upload api) t := by
  obtain ⟨-, hstate⟩ := h
  cases hsession : w.session <;> rw [hsession] at hstate
  case live => exact hstate.1.elim fun _ hlive => hlive.whole hbuffer
  case flushed => exact hstate.1.elim fun _ hflushed => hflushed.whole
  case failed => exact absurd hsession hopen

section
variable (h : Inv ⟨t, before ++ w :: after, api⟩) (hfree : Free w.upload pre)
include h hfree

theorem writeChunk_inv (chunk : List UInt8) :
    Safe Allowed pre (fun r t' => Inv ⟨t', before ++ r.2 :: after,
      api ++ [.writeChunk w.upload w.session chunk r.1.isOk]⟩) (w.writeChunk chunk) t := by
  have hstanding := h.standing w (by simp)
  have hfinished : ∀ ok, Finished w.upload (api ++ [.writeChunk w.upload w.session chunk ok]) ↔
      Finished w.upload api := by simp [Finished]
  have hdead : w.session ≠ .live → Inv ⟨t, before ++ w :: after,
      api ++ [.writeChunk w.upload w.session chunk false]⟩ := by
    intro hsession
    refine h.update (changed_quiet (Quiet.refl _ t)) rfl rfl (hstanding.congr ?_ ?_ ?_)
    · simp [written, acceptedOf]
    · exact hfinished false
    · simp [Spoiled, hsession.symm]
  cases hsession : w.session with
  | live =>
    obtain ⟨hbegun, hstate⟩ := hstanding
    rw [hsession] at hstate hfinished
    obtain ⟨⟨ps, hlive⟩, hunfinished, hclean, hentry⟩ := hstate
    refine (writeChunk_safe hfree hlive chunk).mono ?_
    rintro ⟨r, w'⟩ t' hafter
    cases r with
    | ok u =>
      obtain ⟨hquiet, hupload, ps', hlive'⟩ := hafter
      have hchanged := changed_quiet hquiet
      have hwritten : written w.upload (api ++ [.writeChunk w.upload .live chunk true]) =
          written w.upload api ++ chunk := by
        simp [written, acceptedOf]
      have hspoiled : ¬ Spoiled w.upload (api ++ [.writeChunk w.upload .live chunk true]) := by
        simpa [Spoiled] using hclean
      refine h.update hchanged rfl hupload ?_
      show Standing t' (api ++ [.writeChunk w.upload .live chunk true]) w'
      unfold Standing
      rw [hlive'.session, show w'.upload = w.upload from hupload, hchanged.begun, hchanged.entries,
        hwritten, hfinished]
      exact ⟨hbegun, ⟨ps', hlive'⟩, hunfinished, hspoiled, hentry⟩
    | error error =>
      obtain ⟨hfailed, -, hbuffer⟩ := hafter
      have hspoiled : Spoiled w.upload (api ++ [.writeChunk w.upload .live chunk false]) :=
        ⟨chunk, by simp⟩
      exact h.update (aborted_failed hfailed).changed rfl hfailed.upload
        (Standing.of_failed hfailed hbegun h.entries (.inr ⟨hspoiled, hbuffer⟩) fun _ => hbuffer)
  | flushed | failed =>
    unfold MultipartWriter.writeChunk
    rw [hsession] at hdead ⊢
    exact hdead nofun

theorem finish_inv :
    Safe Allowed pre (fun r t' => Inv ⟨t', before ++ r.2 :: after,
      api ++ [.finish w.upload r.1.isOk]⟩) w.finish t := by
  have hstanding := h.standing w (by simp)
  have hwritten : ∀ ok, written w.upload (api ++ [.finish w.upload ok]) = written w.upload api := by
    simp [written, acceptedOf]
  have hspoiled : ∀ ok, Spoiled w.upload (api ++ [.finish w.upload ok]) ↔ Spoiled w.upload api := by
    simp [Spoiled]
  have hdone : Finished w.upload (api ++ [.finish w.upload true]) := by simp [Finished]
  have hundone : Finished w.upload (api ++ [.finish w.upload false]) ↔ Finished w.upload api := by
    simp [Finished]
  cases hsession : w.session with
  | live =>
    obtain ⟨hbegun, hstate⟩ := hstanding
    rw [hsession] at hstate
    obtain ⟨⟨ps, hlive⟩, -, hclean, hentry⟩ := hstate
    refine (finish_safe hfree hlive).mono ?_
    rintro ⟨r, w'⟩ t' hafter
    cases r with
    | ok u =>
      obtain ⟨hquiet, hupload, ps', hflushed⟩ := hafter
      have hchanged := changed_quiet hquiet
      refine h.update hchanged rfl hupload ?_
      show Standing t' (api ++ [.finish w.upload true]) w'
      unfold Standing
      rw [hflushed.session, show w'.upload = w.upload from hupload, hchanged.begun, hchanged.entries,
        hwritten, hspoiled]
      exact ⟨hbegun, ⟨ps', hflushed⟩, hdone, hclean, hentry⟩
    | error error =>
      obtain ⟨hfailed, -, hbuffer⟩ := hafter
      have hshort : w'.buffer.length < PART_BYTES := by
        rw [show w'.buffer = w.buffer from hbuffer]
        exact hlive.buffered
      refine h.update (aborted_failed hfailed).changed rfl hfailed.upload ?_
      refine Standing.of_failed hfailed hbegun h.entries (.inl hshort) fun hspoil => ?_
      exact absurd ((hspoiled false).mp hspoil) hclean
  | flushed =>
    unfold MultipartWriter.finish
    rw [hsession]
    have hfinished : Finished w.upload api := by
      have hstate := hstanding.2
      rw [hsession] at hstate
      exact hstate.2.1
    exact h.update (changed_quiet (Quiet.refl _ t)) rfl rfl
      (hstanding.congr (hwritten true) (iff_of_true hdone hfinished) (hspoiled true))
  | failed =>
    unfold MultipartWriter.finish
    rw [hsession]
    exact h.update (changed_quiet (Quiet.refl _ t)) rfl rfl
      (hstanding.congr (hwritten false) hundone (hspoiled false))

theorem commit_inv (hcommit : w.session ≠ .failed → w.buffer = [] → w.parts ≠ [] →
      pre t (.commitMultipart w.upload w.parts)) :
    Safe Allowed pre (fun _ t' => Inv ⟨t', before ++ after, api⟩) w.commit t := by
  rcases (h.standing w (by simp)).open_or_failed with ⟨hopen, hterminal⟩ | ⟨hfailed, hgone⟩
  · refine (commit_safe hfree hopen hterminal (hcommit hopen)).mono fun r t' hafter => ?_
    cases r with
    | ok _ => exact h.remove hafter.1 (hafter.1.not_live nofun h.entries)
    | error _ => exact h.remove hafter.1.changed (hafter.1.not_live h.entries)
  · refine (commit_failed_safe hfree hfailed).mono fun _ t' hafter => ?_
    obtain ⟨c, hchanged⟩ := hafter
    exact h.remove hchanged (hchanged.not_live_of h.entries hgone)

theorem abort_inv :
    Safe Allowed pre (fun _ t' => Inv ⟨t', before ++ after, api⟩) w.abort t := by
  refine (abort_safe hfree).mono ?_
  rintro _ t' ⟨cleanup, -, haborted⟩
  exact h.remove haborted.changed (haborted.not_live h.entries)

theorem drop_inv :
    Safe Allowed pre (fun _ t' => Inv ⟨t', before ++ after, api⟩) w.drop t := by
  refine (drop_safe hfree).mono fun _ t' hchanged => h.remove hchanged ?_
  rcases (h.standing w (by simp)).open_or_failed with ⟨-, hterminal⟩ | ⟨-, hgone⟩
  · rw [hterminal] at hchanged
    exact hchanged.not_live nofun h.entries
  · exact hchanged.not_live_of h.entries hgone

end

/-! Opening a session. -/

variable {writers : List MultipartWriter}

/-- Calls that say nothing of any session keep the invariant. -/
theorem Inv.idle {e} (h : Inv ⟨t, writers, api⟩)
    (hregistry : registryStep (registry t) e = registry t) (hbegun : begunOf e = none)
    (hsent : ∀ u, attemptOf u e = none) (hopen : ∀ u, ¬ Closes u e) :
    Inv ⟨t ++ [e], writers, api⟩ := by
  have hregistry' : registry (t ++ [e]) = registry t := (registry_append t [e]).trans hregistry
  have hbegun' : OpenSessions.begun (t ++ [e]) = OpenSessions.begun t := by
    simp [OpenSessions.begun, hbegun]
  have hsent' : ∀ u, attempts u (t ++ [e]) = attempts u t := fun u => by
    simp [attempts, hsent u]
  have hclosed : ∀ u, Closed u (t ++ [e]) ↔ Closed u t := fun u => by
    simp [closed_append, closed_cons, closed_nil, hopen u]
  obtain ⟨hdistinct, hstanding, hrest⟩ := h
  refine ⟨hdistinct, fun w hw => ?_, ?_, ?_, ?_, ?_, ?_⟩
  · exact (hstanding w hw).transfer (hbegun' ▸ (hstanding w hw).1) (hsent' _) (by rw [hregistry'])
  all_goals simpa only [hregistry', hbegun', hsent', hclosed]

/-- A session that was minted and registered has its writer. -/
theorem Inv.opened {upload} (h : Inv ⟨t, writers, api⟩) (hfresh : upload ∉ OpenSessions.begun t)
    (blob : BlobObjectKey) :
    Inv ⟨t ++ [⟨.beginMultipart blob, Except.ok upload⟩, ⟨.register upload, ()⟩],
      writers ++ [{ upload, blob, buffer := [], nextOrdinal := 1, parts := [], uploadedBytes := 0,
                    session := .live, terminal := false }], api⟩ := by
  generalize ht : t ++ [⟨.beginMultipart blob, Except.ok upload⟩, ⟨.register upload, ()⟩] = t'
  have hregistry : registry t' = registry t ++ [⟨upload, false⟩] := by
    rw [← ht, registry_append]
    rfl
  have hbegun : OpenSessions.begun t' = OpenSessions.begun t ++ [upload] := by
    rw [← ht, OpenSessions.begun, filterMap_append]
    rfl
  have hsent : ∀ u, attempts u t' = attempts u t := fun u => by
    rw [← ht, attempts_append]
    exact append_nil _
  have hclosed : ∀ u, Closed u t' ↔ Closed u t := fun u => by
    have hbegin : ¬ Closes u ⟨.beginMultipart blob, Except.ok upload⟩ := fun h => by cases h
    have hregister : ¬ Closes u ⟨.register upload, ()⟩ := fun h => by cases h
    simp [← ht, closed_append, closed_cons, closed_nil, hbegin, hregister]
  have hunknown : upload ∉ (registry t).map (·.upload) := fun hmem => hfresh (h.begun upload hmem)
  have hother : ∀ w ∈ writers, w.upload ≠ upload := fun w hw heq =>
    hfresh (heq ▸ (h.standing w hw).1)
  have hunheld : upload ∉ writers.map (·.upload) := by simpa using hother
  obtain ⟨hnone, hopen, hapi⟩ := h.fresh upload hfresh
  refine ⟨?_, ?_, ?_, ?_, ?_, ?_, ?_⟩
  · rw [map_append]
    exact h.distinct.append (nodup_singleton _) (disjoint_singleton.mpr hunheld)
  · refine forall_mem_append.mpr ⟨fun w hw => ?_, forall_mem_singleton.mpr ?_⟩
    · have hstanding := h.standing w hw
      refine hstanding.transfer ?_ (hsent _) ?_
      · rw [hbegun]
        exact mem_append_left _ hstanding.1
      · rw [hregistry]
        simp [hother w hw]
    · have hunfinished : ¬ Finished upload api := fun hmem => hapi _ hmem rfl
      have hclean : ¬ Spoiled upload api := fun h => h.elim fun _ hmem => hapi _ hmem rfl
      refine ⟨by simp [hbegun], ⟨[], ?_⟩, hunfinished, hclean, by simp [hregistry]⟩
      rw [written_ne hapi]
      exact Live.start ((hsent upload).trans hnone)
  · show ((registry t').map (·.upload)).Nodup
    rw [hregistry, map_append]
    exact h.entries.append (nodup_singleton _) (disjoint_singleton.mpr hunknown)
  · intro u hu
    rw [hregistry, mem_append, mem_singleton] at hu
    rcases hu with hu | hu
    · obtain ⟨w, hw, hupload⟩ := h.owned u hu
      exact ⟨w, mem_append_left _ hw, hupload⟩
    · cases hu
      exact ⟨_, mem_append_right _ (mem_singleton.mpr rfl), rfl⟩
  · intro u hu
    rw [hregistry, map_append, mem_append] at hu
    rw [hbegun]
    refine mem_append.mpr (hu.imp (h.begun u) ?_)
    exact id
  · intro u hu
    rw [hbegun] at hu
    rw [hclosed, hregistry, map_append, mem_append, not_or]
    rcases mem_append.mp hu with hu | hu
    · have hne : u ≠ upload := fun heq => hfresh (heq ▸ hu)
      rw [h.closed u hu]
      simp [hne]
    · rw [mem_singleton.mp hu]
      simp [hopen]
  · intro u hu
    rw [hbegun, mem_append, not_or] at hu
    rw [hsent, hclosed]
    exact h.fresh u hu.1

theorem begin_inv (h : Inv ⟨t, writers, api⟩) (hfree : ∀ u, Free u pre) {blob}
    (hbegin : pre t (.beginMultipart blob)) :
    Safe Allowed pre (fun r t' => match r with
      | .ok w => Inv ⟨t', writers ++ [w], api⟩
      | .error _ => Inv ⟨t', writers, api⟩) (MultipartWriter.begin blob) t := by
  refine Safe.call hbegin fun r hr => ?_
  cases r with
  | error failure => exact h.idle rfl rfl (fun _ => rfl) fun _ => nofun
  | ok upload =>
    refine Safe.call (hfree upload _ _ trivial) fun _ _ => ?_
    rw [append_assoc]
    exact h.opened (hr upload rfl) blob

end

end AgentArchivist.Storage.MultipartSessions
