import AgentArchivist.Storage.WriterParts

/-! # The registry over the calls made

The entries of the registry are what the registry calls left, in the order they were
made. A call sequence about one upload changes the entry of that upload only, in one
of three ways: not at all, by releasing it, or by flagging it as abandoned. -/
namespace AgentArchivist.Storage.OpenSessions
open List
open Lib.Proc Protocol.Vocabulary BlobFailure Multipart RawWrite WriterParts

def registryStep (entries : List RegistryEntry) (e : Event Store) : List RegistryEntry :=
  match e.call with
  | .register upload => OpenUploads.register entries upload
  | .release upload => OpenUploads.release entries upload
  | .abandon upload => OpenUploads.abandon entries upload
  | _ => entries

def registry (t : Trace Store) : List RegistryEntry := t.foldl registryStep []

/-- The session that a call opened. -/
def begunOf (e : Event Store) : Option MultipartUploadId :=
  match e with
  | ⟨.beginMultipart _, reply⟩ => (reply : Except StorageError MultipartUploadId).toOption
  | _ => none

def begun (t : Trace Store) : List MultipartUploadId := t.filterMap begunOf

/-- The store completed a session, or aborted it. -/
inductive Closes (upload : MultipartUploadId) : Event Store → Prop
  | completed (parts : List PartCommitment) (outcome : StorageOutcome) :
      Closes upload ⟨.commitMultipart upload parts, Except.ok outcome⟩
  | aborted : Closes upload ⟨.abortMultipart upload, Except.ok ()⟩

def Closed (upload : MultipartUploadId) (t : Trace Store) : Prop := ∃ e ∈ t, Closes upload e

/-! ## Entries -/

variable {entries : List RegistryEntry} {u v : MultipartUploadId} {b : Bool} {t t' t'' : Trace Store}

theorem registry_append (t s : Trace Store) : registry (t ++ s) = s.foldl registryStep (registry t) :=
  foldl_append

theorem abandon_uploads (entries : List RegistryEntry) (u : MultipartUploadId) :
    (OpenUploads.abandon entries u).map (·.upload) = entries.map (·.upload) := by
  fun_induction OpenUploads.abandon entries u with
  | case1 | case2 => rfl
  | case3 entry rest u hu ih => rw [map_cons, ih, map_cons]

theorem mem_abandon_ne (h : v ≠ u) : ⟨v, b⟩ ∈ OpenUploads.abandon entries u ↔ ⟨v, b⟩ ∈ entries := by
  fun_induction OpenUploads.abandon entries u with
  | case1 => rfl
  | case2 entry rest =>
    have hne : ∀ flag, (⟨v, b⟩ : RegistryEntry) ≠ ⟨entry.upload, flag⟩ := fun flag heq => by
      cases heq
      exact h rfl
    rw [mem_cons, mem_cons]
    exact or_congr_left (iff_of_false (hne _) (hne _))
  | case3 entry rest u hu ih => rw [mem_cons, mem_cons, ih h]

theorem not_live_abandon (h : (entries.map (·.upload)).Nodup) :
    ⟨u, false⟩ ∉ OpenUploads.abandon entries u := by
  fun_induction OpenUploads.abandon entries u with
  | case1 => exact not_mem_nil
  | case2 entry rest =>
    rw [mem_cons, not_or]
    exact ⟨by simp, fun hmem => (nodup_cons.mp h).1 (mem_map.mpr ⟨_, hmem, rfl⟩)⟩
  | case3 entry rest u hu ih =>
    rw [mem_cons, not_or]
    exact ⟨fun heq => hu (by rw [← heq]), ih (nodup_cons.mp h).2⟩

theorem not_mem_release : ⟨u, b⟩ ∉ OpenUploads.release entries u := by
  simp [OpenUploads.release]

/-! ## Changes -/

/-- What a call sequence did to the entry of its upload. -/
inductive Change where
  | none
  | released
  | abandoned
deriving DecidableEq

def Change.apply (entries : List RegistryEntry) (upload : MultipartUploadId) :
    Change → List RegistryEntry
  | .none => entries
  | .released => OpenUploads.release entries upload
  | .abandoned => OpenUploads.abandon entries upload

/-- A call about one upload, other than registering it. -/
inductive About (upload : MultipartUploadId) : Event Store → Prop
  | inert {e : Event Store} : Inert upload e → About upload e
  | completed (parts : List PartCommitment) (outcome : StorageOutcome) :
      About upload ⟨.commitMultipart upload parts, Except.ok outcome⟩
  | aborted (reply : Except StorageError Unit) : About upload ⟨.abortMultipart upload, reply⟩
  | released : About upload ⟨.release upload, ()⟩
  | abandoned : About upload ⟨.abandon upload, ()⟩

/-- Calls about one upload were made, and changed its entry. -/
structure Changed (upload : MultipartUploadId) (change : Change) (t t' : Trace Store) : Prop where
  only : ∃ s, t' = t ++ s ∧ ∀ e ∈ s, About upload e
  entries : registry t' = change.apply (registry t) upload
  closed : Closed upload t' ↔ Closed upload t ∨ change = .released

def Change.andThen : Change → Change → Change
  | .released, _ => .released
  | .none, later => later
  | .abandoned, .released => .released
  | .abandoned, _ => .abandoned

theorem abandon_release : OpenUploads.abandon (OpenUploads.release entries u) u =
    OpenUploads.release entries u := by
  induction entries with
  | nil => rfl
  | cons entry rest ih =>
    unfold OpenUploads.release at ih ⊢
    by_cases hu : entry.upload = u <;> simpa [OpenUploads.abandon, hu] using ih

theorem release_release : OpenUploads.release (OpenUploads.release entries u) u =
    OpenUploads.release entries u := by
  simp [OpenUploads.release]

theorem release_abandon : OpenUploads.release (OpenUploads.abandon entries u) u =
    OpenUploads.release entries u := by
  fun_induction OpenUploads.abandon entries u with
  | case1 => rfl
  | case2 => simp [OpenUploads.release]
  | case3 entry rest u hu ih => simpa [OpenUploads.release, hu] using ih

theorem abandon_abandon : OpenUploads.abandon (OpenUploads.abandon entries u) u =
    OpenUploads.abandon entries u := by
  induction entries with
  | nil => rfl
  | cons entry rest ih =>
    by_cases hu : entry.upload = u <;> simp [OpenUploads.abandon, hu, ih]

theorem Change.apply_andThen (c c' : Change) :
    c'.apply (c.apply entries u) u = (c.andThen c').apply entries u := by
  cases c <;> cases c' <;>
    simp [Change.apply, Change.andThen, abandon_release, release_release, release_abandon,
      abandon_abandon]

theorem Changed.trans {c c'} (h : Changed u c t t') (h' : Changed u c' t' t'') :
    Changed u (c.andThen c') t t'' := by
  obtain ⟨s, rfl, hs⟩ := h.only
  obtain ⟨s', rfl, hs'⟩ := h'.only
  refine ⟨⟨s ++ s', append_assoc .., forall_mem_append.mpr ⟨hs, hs'⟩⟩, ?_, ?_⟩
  · rw [h'.entries, h.entries, Change.apply_andThen]
  · rw [h'.closed, h.closed, or_assoc]
    cases c <;> cases c' <;> simp [Change.andThen]

/-! The changes of the single calls. -/

theorem closed_append : Closed u (t ++ t') ↔ Closed u t ∨ Closed u t' := by
  unfold Closed
  simp [or_and_right, exists_or]

variable {e : Event Store}

theorem closed_cons : Closed u (e :: t) ↔ Closes u e ∨ Closed u t := by
  unfold Closed
  simp [or_and_right, exists_or]

theorem closed_nil : ¬ Closed u [] := by simp [Closed]

theorem changed_quiet (h : Quiet u t t') : Changed u .none t t' := by
  obtain ⟨s, rfl, hs⟩ := h
  refine ⟨⟨s, rfl, fun e he => .inert (hs e he)⟩, ?_, ?_⟩
  · rw [registry_append]
    show s.foldl registryStep (registry t) = registry t
    generalize registry t = entries
    induction s with
    | nil => rfl
    | cons e s ih =>
      obtain ⟨he, hs⟩ := forall_mem_cons.mp hs
      have hsame : registryStep entries e = entries := by cases he <;> rfl
      rw [foldl_cons, hsame, ih hs]
  · have hopen : ¬ Closed u s := by
      rintro ⟨e, he, hcloses⟩
      have hinert := hs e he
      cases hcloses <;> cases hinert
    rw [closed_append]
    simp [hopen]

/-- What an abort does to the entry. -/
def closing : Option StorageError → Change
  | none => .released
  | some _ => .abandoned

theorem changed_ended {cleanup} (h : Ended u cleanup t t') : Changed u (closing cleanup) t t' := by
  cases cleanup with
  | none =>
    have ht : t' = t ++ [⟨.abortMultipart u, Except.ok ()⟩, ⟨.release u, ()⟩] := h
    subst ht
    refine ⟨⟨_, rfl, by simp [About.aborted, About.released]⟩, registry_append .., ?_⟩
    simp [closing, closed_append, closed_cons, Closes.aborted]
  | some error =>
    have ht : t' = t ++ [⟨.abortMultipart u, Except.error error⟩, ⟨.abandon u, ()⟩] := h
    subst ht
    have hfailed : ¬ Closes u ⟨.abortMultipart u, Except.error error⟩ := nofun
    have habandon : ¬ Closes u ⟨.abandon u, ()⟩ := nofun
    refine ⟨⟨_, rfl, by simp [About.aborted, About.abandoned]⟩, registry_append .., ?_⟩
    simp [closing, closed_append, closed_cons, closed_nil, hfailed, habandon]

theorem changed_abandon (u : MultipartUploadId) (t : Trace Store) :
    Changed u .abandoned t (t ++ [⟨.abandon u, ()⟩]) := by
  have habandon : ¬ Closes u ⟨.abandon u, ()⟩ := nofun
  refine ⟨⟨_, rfl, by simp [About.abandoned]⟩, registry_append .., ?_⟩
  simp [closed_append, closed_cons, closed_nil, habandon]

theorem changed_completed (parts : List PartCommitment) (outcome : StorageOutcome) :
    Changed u .released t
      (t ++ [⟨.commitMultipart u parts, Except.ok outcome⟩, ⟨.release u, ()⟩]) := by
  refine ⟨⟨_, rfl, by simp [About.completed, About.released]⟩, registry_append .., ?_⟩
  simp [closed_append, closed_cons, Closes.completed]

/-! ## Other uploads -/

theorem About.attemptOf_ne (h : About u e) (hv : v ≠ u) : attemptOf v e = none := by
  cases h with
  | inert hinert =>
    cases hinert with
    | part number bytes reply => exact if_neg hv.symm
    | completion => rfl
  | _ => rfl

theorem About.begunOf (h : About u e) : begunOf e = none := by
  cases h with
  | inert hinert => cases hinert <;> rfl
  | _ => rfl

theorem About.not_closes (h : About u e) (hv : v ≠ u) : ¬ Closes v e := by
  intro hcloses
  cases hcloses with
  | completed =>
    cases h with
    | inert hinert => cases hinert
    | completed => exact hv rfl
  | aborted =>
    cases h with
    | inert hinert => cases hinert
    | aborted => exact hv rfl

variable {c : Change}

section
variable (h : Changed u c t t')
include h

theorem Changed.attempts_ne (hv : v ≠ u) : attempts v t' = attempts v t := by
  obtain ⟨s, rfl, hs⟩ := h.only
  have hnone : attempts v s = [] :=
    filterMap_eq_nil_iff.mpr fun e he => (hs e he).attemptOf_ne hv
  rw [attempts_append, hnone, append_nil]

theorem Changed.begun : begun t' = begun t := by
  obtain ⟨s, rfl, hs⟩ := h.only
  have hnone : s.filterMap begunOf = [] := filterMap_eq_nil_iff.mpr fun e he => (hs e he).begunOf
  rw [OpenSessions.begun, filterMap_append, hnone, append_nil]
  rfl

theorem Changed.closed_ne (hv : v ≠ u) : Closed v t' ↔ Closed v t := by
  obtain ⟨s, rfl, hs⟩ := h.only
  have hopen : ¬ Closed v s := fun ⟨e, he, hcloses⟩ => (hs e he).not_closes hv hcloses
  rw [closed_append]
  simp [hopen]

theorem Changed.mem_ne (hv : v ≠ u) : ⟨v, b⟩ ∈ registry t' ↔ ⟨v, b⟩ ∈ registry t := by
  rw [h.entries]
  cases c with
  | none => rfl
  | released => simp [Change.apply, OpenUploads.release, hv]
  | abandoned => exact mem_abandon_ne hv

theorem Changed.uploads : ((registry t').map (·.upload)).Sublist ((registry t).map (·.upload)) := by
  rw [h.entries]
  cases c with
  | none => exact List.Sublist.refl _
  | released => exact List.filter_sublist.map _
  | abandoned =>
    show ((OpenUploads.abandon (registry t) u).map (·.upload)).Sublist _
    rw [abandon_uploads]

theorem Changed.mem_uploads :
    u ∈ (registry t').map (·.upload) ↔ u ∈ (registry t).map (·.upload) ∧ c ≠ .released := by
  rw [h.entries]
  cases c with
  | none => simp [Change.apply]
  | released => simp [Change.apply, OpenUploads.release]
  | abandoned =>
    show u ∈ (OpenUploads.abandon (registry t) u).map (·.upload) ↔ _
    rw [abandon_uploads]
    simp

theorem Changed.not_live (hc : c ≠ .none)
    (hnodup : ((registry t).map (·.upload)).Nodup) : ⟨u, false⟩ ∉ registry t' := by
  rw [h.entries]
  cases c with
  | none => exact absurd rfl hc
  | released => exact not_mem_release
  | abandoned => exact not_live_abandon hnodup

/-- An entry that is not live does not become so. -/
theorem Changed.not_live_of (hnodup : ((registry t).map (·.upload)).Nodup)
    (hgone : ⟨u, false⟩ ∉ registry t) : ⟨u, false⟩ ∉ registry t' := by
  by_cases hc : c = .none
  · rw [h.entries, hc]
    exact hgone
  · exact h.not_live hc hnodup

end

/-! ## The operations that end a session -/

variable {allowed : Trace Store → Event Store → Prop} {pre : Trace Store → Call → Prop}
  {w w' : MultipartWriter}

/-- The session was aborted with this answer, and released or abandoned. -/
structure Aborted (u : MultipartUploadId) (cleanup : Option StorageError) (t t' : Trace Store) :
    Prop where
  changed : Changed u (closing cleanup) t t'
  answered : ⟨.abortMultipart u, cleanup.elim (Except.ok ()) Except.error⟩ ∈ t'

theorem Aborted.not_live {cleanup} (h : Aborted u cleanup t t')
    (hnodup : ((registry t).map (·.upload)).Nodup) : ⟨u, false⟩ ∉ registry t' :=
  h.changed.not_live (by cases cleanup <;> nofun) hnodup

theorem Aborted.after_quiet {cleanup} (h : Aborted u cleanup t' t'') (hquiet : Quiet u t t') :
    Aborted u cleanup t t'' := ⟨(changed_quiet hquiet).trans h.changed, h.answered⟩

theorem aborted_ended {cleanup} (h : Ended u cleanup t t') : Aborted u cleanup t t' := by
  refine ⟨changed_ended h, ?_⟩
  unfold Ended at h
  split at h <;> exact h ▸ mem_append_right _ mem_cons_self

theorem aborted_failed {error} (h : Failed w error w' t t') :
    Aborted w.upload error.cleanup t t' := by
  obtain ⟨t1, hquiet, hended⟩ := h.aborted
  exact (aborted_ended hended).after_quiet hquiet

section
variable (hfree : Free w.upload pre)
include hfree

theorem drop_safe :
    Safe allowed pre (fun _ t' => Changed w.upload (if w.terminal then .none else .abandoned) t t')
      w.drop t := by
  unfold MultipartWriter.drop
  cases hterminal : w.terminal with
  | true => exact changed_quiet (Quiet.refl _ t)
  | false => exact ⟨hfree t _ trivial, fun _ _ => changed_abandon w.upload t⟩

/-- A session that was aborted stays so when its writer is dropped. -/
theorem aborted_drop_safe {cleanup} (hupload : w'.upload = w.upload)
    (hterminal : cleanup.isNone → w'.terminal) (h : Aborted w.upload cleanup t t') :
    Safe allowed pre (fun _ t'' => Aborted w.upload cleanup t t'' ∧ t' ⊆ t'') w'.drop t' := by
  refine (drop_safe (hupload ▸ hfree)).mono fun _ t'' hdrop => ?_
  rw [hupload] at hdrop
  obtain ⟨s, rfl, -⟩ := hdrop.only
  have hchanged := h.changed.trans hdrop
  refine ⟨⟨?_, mem_append_left _ h.answered⟩, subset_append_left _ _⟩
  cases cleanup with
  | none => rwa [hterminal rfl] at hchanged
  | some error =>
    cases hw : w'.terminal <;> rw [hw] at hchanged <;> exact hchanged

theorem failed_drop_safe {error} (h : Failed w error w' t t') :
    Safe allowed pre (fun _ t'' => Aborted w.upload error.cleanup t t'' ∧ t' ⊆ t'') w'.drop t' :=
  aborted_drop_safe hfree h.upload (fun hnone => h.terminal.trans hnone) (aborted_failed h)

theorem abort_safe :
    Safe allowed pre (fun r t' => ∃ cleanup, r = cleanup.elim (.ok ()) .error ∧
      Aborted w.upload cleanup t t') w.abort t := by
  refine Safe.bind ((terminateByAbort_safe hfree).mono ?_)
  rintro _ t' ⟨cleanup, rfl, hended⟩
  have hdrop : Safe allowed pre _
      (MultipartWriter.drop { w with terminal := cleanup.isNone || w.terminal }) t' :=
    aborted_drop_safe hfree rfl (fun hnone => by simp [hnone]) (aborted_ended hended)
  exact Safe.bind (hdrop.mono fun _ _ haborted => ⟨cleanup, rfl, haborted.1⟩)

/-- What `commit` leaves: the completion made, or the session aborted. -/
def AfterCommit (w : MultipartWriter) (t : Trace Store)
    (r : Except MultipartWriterError StorageOutcome) (t' : Trace Store) : Prop :=
  match r with
  | .ok outcome => Changed w.upload .released t t' ∧
      ⟨.commitMultipart w.upload w.parts, Except.ok outcome⟩ ∈ t'
  | .error error => Aborted w.upload error.cleanup t t' ∧ (w.buffer = [] → Blamed t' error.failure)

theorem commit_safe (hopen : w.session ≠ .failed) (hterminal : w.terminal = false)
    (hcommit : w.buffer = [] → w.parts ≠ [] → pre t (.commitMultipart w.upload w.parts)) :
    Safe allowed pre (AfterCommit w t) w.commit t := by
  refine Safe.bind ((complete_safe hfree hopen hterminal hcommit).mono ?_)
  rintro ⟨r, w'⟩ t' hafter
  cases r with
  | ok outcome =>
    obtain ⟨hw, rfl⟩ := hafter
    cases hw
    exact ⟨changed_completed w.parts outcome, by simp⟩
  | error error =>
    obtain ⟨hfailed, hblamed⟩ := hafter
    refine Safe.bind ((failed_drop_safe hfree hfailed).mono fun _ _ hafter => ?_)
    exact ⟨hafter.1, fun hbuffer => (hblamed hbuffer).mono hafter.2⟩

/-- A session that failed is not completed any more. -/
theorem commit_failed_safe (hfailed : w.session = .failed) :
    Safe allowed pre (fun _ t' => ∃ c, Changed w.upload c t t') w.commit t := by
  unfold MultipartWriter.commit MultipartWriter.complete
  rw [if_pos hfailed]
  have hdrop : Safe allowed pre _ w.drop t := drop_safe hfree
  exact Safe.bind (Safe.bind (hdrop.mono fun _ t' hchanged => ⟨_, hchanged⟩))

end

end AgentArchivist.Storage.OpenSessions
