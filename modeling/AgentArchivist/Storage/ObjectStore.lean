import AgentArchivist.Storage.ManifestCalls

/-! # A store whose calls are atomic

What the replicas share: manifests and blobs at their keys, and open multipart
sessions. Every call takes effect as a whole or not at all, and a call that took
effect may still be answered with an error. A session id is minted once, and a
completion takes the bytes last stored under the part numbers that it names. -/
namespace AgentArchivist.Storage.ObjectStore
open Protocol
open Lib.Proc ObjectKey Vocabulary ManifestCalls RawWrite

structure OpenSession where
  key : BlobObjectKey
  parts : PartNumber → Option (List UInt8)

structure Contents where
  manifests : ManifestKey → Option (List UInt8)
  blobs : BlobObjectKey → Option (List UInt8)
  sessions : MultipartUploadId → Option OpenSession
  minted : List MultipartUploadId

namespace Contents

def empty : Contents := ⟨fun _ => none, fun _ => none, fun _ => none, []⟩

def put (s : Contents) (key : ManifestKey) (bytes : List UInt8) : Contents :=
  { s with manifests := Function.update s.manifests key (some bytes) }

def mint (s : Contents) (upload : MultipartUploadId) (key : BlobObjectKey) : Contents :=
  { s with
    sessions := Function.update s.sessions upload (some ⟨key, fun _ => none⟩)
    minted := s.minted ++ [upload] }

def storePart (s : Contents) (upload : MultipartUploadId) (session : OpenSession)
    (number : PartNumber) (bytes : List UInt8) : Contents :=
  { s with
    sessions := Function.update s.sessions upload
      (some { session with parts := Function.update session.parts number (some bytes) }) }

/-- The bytes of the parts that a completion names. -/
def assemble (session : OpenSession) (parts : List PartCommitment) : List UInt8 :=
  parts.flatMap fun commitment => (session.parts commitment.number).getD []

def complete (s : Contents) (upload : MultipartUploadId) (session : OpenSession)
    (parts : List PartCommitment) : Contents :=
  { s with
    blobs := Function.update s.blobs session.key (some (assemble session parts))
    sessions := Function.update s.sessions upload none }

def discard (s : Contents) (upload : MultipartUploadId) : Contents :=
  { s with sessions := Function.update s.sessions upload none }

end Contents

/-- What the store may answer to a call, and what the call does. Calls of the process itself
(the registry, the capability report) leave the store as it is. -/
inductive Serves (s : Contents) : Event Store → Contents → Prop
  | written {key bytes} (reply : Except StorageError StorageOutcome) :
      Serves s ⟨.writeManifest key bytes, reply⟩ (s.put key bytes)
  | unwritten {key bytes} (error : StorageError) :
      Serves s ⟨.writeManifest key bytes, Except.error error⟩ s
  | created {key bytes} : s.manifests key = none →
      Serves s ⟨.createManifestIfAbsent key bytes, Except.ok .created⟩ (s.put key bytes)
  | createdUnheard {key bytes} (error : StorageError) : s.manifests key = none →
      Serves s ⟨.createManifestIfAbsent key bytes, Except.error error⟩ (s.put key bytes)
  | present {key bytes} (existing : ExistingObject) : s.manifests key ≠ none →
      Serves s ⟨.createManifestIfAbsent key bytes, Except.ok (.alreadyExists existing)⟩ s
  | uncreated {key bytes} (error : StorageError) :
      Serves s ⟨.createManifestIfAbsent key bytes, Except.error error⟩ s
  | begun {blob upload} : upload ∉ s.minted →
      Serves s ⟨.beginMultipart blob, Except.ok upload⟩ (s.mint upload blob)
  | begunUnheard {blob upload} (error : StorageError) : upload ∉ s.minted →
      Serves s ⟨.beginMultipart blob, Except.error error⟩ (s.mint upload blob)
  | unbegun {blob} (error : StorageError) : Serves s ⟨.beginMultipart blob, Except.error error⟩ s
  | stored {upload number bytes session} (reply : Except StorageError PartCommitment) :
      s.sessions upload = some session →
      Serves s ⟨.writePart upload number bytes, reply⟩ (s.storePart upload session number bytes)
  | unstored {upload number bytes} (error : StorageError) :
      Serves s ⟨.writePart upload number bytes, Except.error error⟩ s
  | completed {upload parts session} (reply : Except StorageError StorageOutcome) :
      s.sessions upload = some session →
      Serves s ⟨.commitMultipart upload parts, reply⟩ (s.complete upload session parts)
  | uncompleted {upload parts} (error : StorageError) :
      Serves s ⟨.commitMultipart upload parts, Except.error error⟩ s
  | aborted {upload} (reply : Except StorageError Unit) :
      Serves s ⟨.abortMultipart upload, reply⟩ (s.discard upload)
  | unaborted {upload} (error : StorageError) :
      Serves s ⟨.abortMultipart upload, Except.error error⟩ s
  | capabilities (reply : ConditionalCreate) : Serves s ⟨.capabilities, reply⟩ s
  | registered {upload} : Serves s ⟨.register upload, ()⟩ s
  | released {upload} : Serves s ⟨.release upload, ()⟩ s
  | abandoned {upload} : Serves s ⟨.abandon upload, ()⟩ s
  | drained (reply : List MultipartUploadId) : Serves s ⟨.abandoned, reply⟩ s

/-! ## What a call can do -/

variable {s s' : Contents} {e : Event Store}

theorem put_ne_none {key key' bytes} (h : s.manifests key' ≠ none) :
    (s.put key bytes).manifests key' ≠ none := by
  unfold Contents.put
  by_cases heq : key' = key
  · simp [heq]
  · simpa [heq] using h

theorem Serves.manifests_kept (h : Serves s e s') {key} (hkey : s.manifests key ≠ none) :
    s'.manifests key ≠ none := by
  cases h with
  | written | created | createdUnheard => exact put_ne_none hkey
  | _ => exact hkey

/-- A new object at a manifest key is that of the call. -/
theorem Serves.manifests_new (h : Serves s e s') {key : ManifestKey} {bytes : List UInt8}
    (hkey : s'.manifests key = some bytes) : s.manifests key = some bytes ∨
      e.call = .writeManifest key bytes ∨ e.call = .createManifestIfAbsent key bytes := by
  have hput : ∀ key' bytes', (s.put key' bytes').manifests key = some bytes →
      s.manifests key = some bytes ∨ (key' = key ∧ bytes' = bytes) := by
    intro key' bytes' hput
    unfold Contents.put at hput
    by_cases heq : key = key'
    · subst heq
      exact .inr ⟨rfl, by simpa using hput⟩
    · exact .inl (by simpa [heq] using hput)
  cases h with
  | written =>
    rcases hput _ _ hkey with hold | ⟨rfl, rfl⟩
    · exact .inl hold
    · exact .inr (.inl rfl)
  | created | createdUnheard =>
    rcases hput _ _ hkey with hold | ⟨rfl, rfl⟩
    · exact .inl hold
    · exact .inr (.inr rfl)
  | _ => exact .inl hkey

theorem Serves.placed (h : Serves s e s') {key} (hplaced : Placed key [e]) :
    s'.manifests key ≠ none := by
  have hput : ∀ bytes, (s.put key bytes).manifests key ≠ none := by simp [Contents.put]
  obtain ⟨bytes, ⟨outcome, hmem⟩ | ⟨answer, hmem⟩⟩ := hplaced
  · cases List.mem_singleton.mp hmem
    cases h with
    | written => exact hput bytes
  · cases List.mem_singleton.mp hmem
    cases h with
    | created => exact hput bytes
    | present _ hkey => exact hkey

theorem Serves.blobs_kept (h : Serves s e s') {key} (hkey : s.blobs key ≠ none) :
    s'.blobs key ≠ none := by
  cases h with
  | @completed upload parts session reply hsession =>
    by_cases heq : key = session.key
    · simp [Contents.complete, heq]
    · simpa [Contents.complete, heq] using hkey
  | _ => exact hkey

theorem Serves.blobs_new (h : Serves s e s') {key bytes} (hkey : s'.blobs key = some bytes) :
    s.blobs key = some bytes ∨
      ∃ upload parts session, e.call = .commitMultipart upload parts ∧
        s.sessions upload = some session ∧ session.key = key ∧
        Contents.assemble session parts = bytes := by
  cases h with
  | @completed upload parts session reply hsession =>
    by_cases heq : key = session.key
    · refine .inr ⟨upload, parts, session, rfl, hsession, heq.symm, ?_⟩
      simpa [Contents.complete, heq] using hkey
    · exact .inl (by simpa [Contents.complete, heq] using hkey)
  | _ => exact .inl hkey

theorem Serves.completion {upload parts outcome}
    (h : Serves s ⟨.commitMultipart upload parts, Except.ok outcome⟩ s') :
    ∃ session, s.sessions upload = some session ∧ s'.blobs session.key ≠ none := by
  cases h with
  | @completed _ _ session _ hsession => exact ⟨session, hsession, by simp [Contents.complete]⟩

theorem Serves.minted_kept (h : Serves s e s') {upload} (hu : upload ∈ s.minted) :
    upload ∈ s'.minted := by
  cases h with
  | begun | begunUnheard => exact List.mem_append_left _ hu
  | _ => exact hu

theorem Serves.begin {blob upload} (h : Serves s ⟨.beginMultipart blob, Except.ok upload⟩ s') :
    upload ∉ s.minted ∧ upload ∈ s'.minted := by
  cases h with
  | begun hfresh => exact ⟨hfresh, by simp [Contents.mint]⟩

/-- An open session is as it was, or new, or has taken the part of the call. -/
theorem Serves.sessions_new (h : Serves s e s') {upload session}
    (hsession : s'.sessions upload = some session) :
    (s.sessions upload = some session ∧ (∀ blob, e ≠ ⟨.beginMultipart blob, Except.ok upload⟩) ∧
      ∀ number bytes commitment, e ≠ ⟨.writePart upload number bytes, Except.ok commitment⟩) ∨
    (upload ∉ s.minted ∧ ∃ blob, e.call = .beginMultipart blob ∧ session = ⟨blob, fun _ => none⟩) ∨
    ∃ old number bytes, e.call = .writePart upload number bytes ∧ s.sessions upload = some old ∧
      session = { old with parts := Function.update old.parts number (some bytes) } := by
  cases h with
  | @begun blob upload' hfresh =>
    by_cases heq : upload = upload'
    · subst heq
      exact .inr (.inl ⟨hfresh, blob, rfl, by simpa [Contents.mint] using hsession.symm⟩)
    refine .inl ⟨by simpa [Contents.mint, heq] using hsession, ?_, nofun⟩
    intro _ hevent
    cases hevent
    exact heq rfl
  | @begunUnheard blob upload' error hfresh =>
    by_cases heq : upload = upload'
    · subst heq
      exact .inr (.inl ⟨hfresh, blob, rfl, by simpa [Contents.mint] using hsession.symm⟩)
    · exact .inl ⟨by simpa [Contents.mint, heq] using hsession, nofun, nofun⟩
  | @stored upload' number bytes old reply hold =>
    by_cases heq : upload = upload'
    · subst heq
      refine .inr (.inr ⟨old, number, bytes, rfl, hold, ?_⟩)
      simpa [Contents.storePart] using hsession.symm
    · refine .inl ⟨by simpa [Contents.storePart, heq] using hsession, nofun, ?_⟩
      intro _ _ _ hevent
      cases hevent
      exact heq rfl
  | @completed upload' parts old reply hold =>
    have hne : upload ≠ upload' := fun heq => by simp [Contents.complete, heq] at hsession
    exact .inl ⟨by simpa [Contents.complete, hne] using hsession, nofun, nofun⟩
  | @aborted upload' reply =>
    have hne : upload ≠ upload' := fun heq => by simp [Contents.discard, heq] at hsession
    exact .inl ⟨by simpa [Contents.discard, hne] using hsession, nofun, nofun⟩
  | _ => exact .inl ⟨hsession, nofun, nofun⟩

end AgentArchivist.Storage.ObjectStore
