import AgentArchivist.Storage.BlobFailure
import AgentArchivist.Storage.MultipartSafety

/-! # The raw writer over S3

The store checks a call against its session table and makes a request of the backend. What the
backend says is any function of the calls before, so that nothing is assumed of the server. A
completion is taken on the status of its answer; the body is not read. -/
namespace AgentArchivist.Storage.S3RawWrite
open Lib Protocol
open Proc Utf8 Derivation ObjectKey Vocabulary Blob BlobFailure BlobStream Multipart RawWrite

structure HttpResponse where
  status : Nat
  body : List UInt8

def HttpResponse.isSuccess (r : HttpResponse) : Bool := 200 ≤ r.status && r.status < 300

/-- What a request comes back with: a response, or why there is none. -/
abbrev Answer := Except StorageError HttpResponse

inductive SessionState where
  | opened (key : BlobObjectKey) (commitments : List PartCommitment)
  | committed
  | aborted

abbrev Sessions := MultipartUploadId → Option SessionState

/-- The backend of a store, from the calls made so far, and the table before them. The completion is
modelled down to its answer. -/
structure Backend where
  sessions : Sessions
  permitsKey : BlobObjectKey → Bool
  inScope : BlobObjectKey → Bool
  createMultipart : Trace Store → BlobObjectKey → Except StorageError String
  uploadPart : Trace Store → BlobObjectKey → MultipartUploadId → PartNumber → List UInt8 →
    Except StorageError String
  post : Trace Store → BlobObjectKey → MultipartUploadId → List UInt8 → Answer
  abortMultipart : Trace Store → BlobObjectKey → MultipartUploadId → Except StorageError Unit
  elsewhere : Trace Store → (c : Call) → Reply c

/-! ## The completion document -/

def xmlEscaped (c : Char) : String :=
  ([(38, "&amp;"), (60, "&lt;"), (62, "&gt;"), (34, "&quot;"), (39, "&apos;")].lookup c.toNat).getD
    c.toString

def COMPLETE_XML_MAX_BYTES : Nat := 8 * 1024 * 1024

/-- The bound is checked at the end: the document only grows. -/
def completeDocument (parts : List PartCommitment) : Except StorageError (List UInt8) :=
  let part (p : PartCommitment) := "<Part><PartNumber>" ++ toString p.number.get ++
    "</PartNumber><ETag>" ++ String.join (p.tag.asStr.toList.map xmlEscaped) ++ "</ETag></Part>"
  let document := utf8 ("<CompleteMultipartUpload>" ++ String.join (parts.map part) ++
    "</CompleteMultipartUpload>")
  if document.length > COMPLETE_XML_MAX_BYTES then
    .error ⟨.malformedInput, "multipart completion document exceeds its bound"⟩
  else .ok document

/-! ## The store -/

/-- A call that succeeded changes the session it is about. -/
def sessionStep (sessions : Sessions) : Event Store → Sessions
  | ⟨.beginMultipart blob, reply⟩ =>
    (reply : Except StorageError MultipartUploadId).toOption.elim sessions fun upload =>
      Function.update sessions upload (some (.opened blob []))
  | ⟨.writePart upload _ _, reply⟩ =>
    match sessions upload, (reply : Except StorageError PartCommitment) with
    | some (.opened key commitments), .ok commitment =>
      Function.update sessions upload (some (.opened key (commitments ++ [commitment])))
    | _, _ => sessions
  | ⟨.commitMultipart upload _, reply⟩ =>
    (reply : Except StorageError StorageOutcome).toOption.elim sessions fun _ =>
      Function.update sessions upload (some .committed)
  | ⟨.abortMultipart upload, reply⟩ =>
    match sessions upload, (reply : Except StorageError Unit) with
    | some (.opened _ _), .ok () => Function.update sessions upload (some .aborted)
    | _, _ => sessions
  | _ => sessions

def outOfScope : StorageError := ⟨.scopeViolation, "request is outside this backend identity"⟩

def statusError (status : Nat) : StorageError :=
  if status = 403 then outOfScope else ⟨.unavailable, "S3 backend request failed"⟩

def malformed {α : Type} (detail : String) : Except StorageError α := .error ⟨.malformedInput, detail⟩

namespace Backend
variable (b : Backend) (t : Trace Store)

def after : Sessions := t.foldl sessionStep b.sessions

def openSession (upload : MultipartUploadId) :
    Except StorageError (BlobObjectKey × List PartCommitment) :=
  match b.after t upload with
  | none => malformed "multipart session is not known to this store"
  | some (.opened key commitments) => .ok (key, commitments)
  | some _ => malformed "multipart session has already ended"

def checkScope (key : BlobObjectKey) : Except StorageError Unit :=
  if b.inScope key then .ok () else .error outOfScope

def beginMultipart (blob : BlobObjectKey) : Except StorageError MultipartUploadId := do
  if !b.permitsKey blob then .error ⟨.scopeViolation, "object key is outside this raw-write identity"⟩
  else
    b.checkScope blob
    let handle ← b.createMultipart t blob
    let id ← (Text.parse handle).mapError fun _ =>
      ⟨.unavailable, "backend session handle is outside the grammar"⟩
    if (b.after t id).isSome then .error ⟨.unavailable, "backend session handle is not unique"⟩
    else pure id

def writePart (upload : MultipartUploadId) (part : PartNumber) (bytes : List UInt8) :
    Except StorageError PartCommitment := do
  let (key, commitments) ← b.openSession t upload
  if part.get ≠ commitments.length + 1 then malformed "part ordinal is out of sequence"
  else if bytes = [] ∨ bytes.length > PART_BYTES then
    malformed "part size is outside the pinned part bounds"
  else
    b.checkScope key
    let text ← b.uploadPart t key upload part bytes
    let tag ← (Text.parse text).mapError fun _ =>
      ⟨.unavailable, "backend part commitment is outside the tag grammar"⟩
    pure ⟨part, tag⟩

/-- The server's answer to the completion, where one is sent. -/
def completion (upload : MultipartUploadId) (parts : List PartCommitment) :
    Except StorageError Answer := do
  let (key, commitments) ← b.openSession t upload
  if parts = [] then malformed "commitment set is empty"
  else if parts ≠ commitments then malformed "commitment set does not match the session parts"
  else
    b.checkScope key
    let document ← completeDocument parts
    pure (b.post t key upload document)

def commitMultipart (upload : MultipartUploadId) (parts : List PartCommitment) :
    Except StorageError StorageOutcome := do
  let answer ← b.completion t upload parts
  let response ← answer
  if response.isSuccess then pure .logicallyCommittedUnknownPhysicalResult
  else .error (statusError response.status)

/-- A session that has ended has nothing to release. -/
def abort (upload : MultipartUploadId) : Except StorageError Unit :=
  match b.after t upload with
  | some .committed | some .aborted => .ok ()
  | _ => do
    let (key, _) ← b.openSession t upload
    b.checkScope key
    b.abortMultipart t key upload

def reply : (c : Call) → Reply c
  | .beginMultipart blob => b.beginMultipart t blob
  | .writePart upload part bytes => b.writePart t upload part bytes
  | .commitMultipart upload parts => b.commitMultipart t upload parts
  | .abortMultipart upload => b.abort t upload
  | c => b.elsewhere t c

variable {b t} {upload : MultipartUploadId} {parts : List PartCommitment}

/-- A completion is sent for an open session. -/
theorem completion_ok {answer} (h : b.completion t upload parts = .ok answer) :
    ∃ key commitments document, b.after t upload = some (.opened key commitments) ∧
      answer = b.post t key upload document := by
  obtain ⟨⟨key, commitments⟩, hsession, h1⟩ := Fallible.bind_eq_ok.mp h
  obtain ⟨-, h1⟩ := Fallible.refuse_eq_ok.mp h1
  obtain ⟨-, h1⟩ := Fallible.refuse_eq_ok.mp h1
  obtain ⟨-, -, h2⟩ := Fallible.bind_eq_ok.mp h1
  obtain ⟨document, -, h3⟩ := Fallible.bind_eq_ok.mp h2
  refine ⟨key, commitments, document, ?_, (Except.ok.inj h3).symm⟩
  unfold openSession at hsession
  split at hsession
  · cases hsession
  · cases hsession
    assumption
  · cases hsession

theorem commitMultipart_ok : (∃ outcome, b.commitMultipart t upload parts = .ok outcome) ↔
    ∃ response, b.completion t upload parts = .ok (.ok response) ∧ response.isSuccess := by
  constructor
  · rintro ⟨outcome, h⟩
    obtain ⟨answer, hanswer, h1⟩ := Fallible.bind_eq_ok.mp h
    obtain ⟨response, rfl, h2⟩ := Fallible.bind_eq_ok.mp h1
    refine ⟨response, hanswer, ?_⟩
    by_contra hfailed
    rw [if_neg hfailed] at h2
    cases h2
  · rintro ⟨response, hanswer, hsuccess⟩
    refine ⟨.logicallyCommittedUnknownPhysicalResult, Fallible.bind_eq_ok.mpr ⟨_, hanswer, ?_⟩⟩
    exact Fallible.bind_eq_ok.mpr ⟨response, rfl, if_pos hsuccess⟩

end Backend

/-! ## What is believed -/

/-- The name in the first start tag of a document. -/
def rootName : List UInt8 → List UInt8
  | [] => []
  | c :: rest =>
    if c = 0x3c ∧ rest.head?.any fun c => 0x41 ≤ c && c ≤ 0x5a || 0x61 ≤ c && c ≤ 0x7a then
      rest.takeWhile fun c => 0x20 < c && c ≠ 0x2f && c ≠ 0x3e
    else rootName rest

/-- The answer reports the upload completed: a success with the result document. -/
def Reported (answer : Answer) : Prop :=
  ∃ response, answer = .ok response ∧ response.isSuccess ∧
    rootName response.body = utf8 "CompleteMultipartUploadResult"

section
variable (b : Backend) (t : Trace Store)

/-- A completion was sent after the calls `before`. -/
def Asked (before : Trace Store) (upload : MultipartUploadId) (parts : List PartCommitment)
    (reply : Except StorageError StorageOutcome) (answer : Answer) : Prop :=
  (∃ later, t = before ++ ⟨.commitMultipart upload parts, reply⟩ :: later) ∧
    b.completion before upload parts = .ok answer

/-- A commit succeeds on a reported completion only; any other answer is reported as an error and
leaves the session open. -/
structure Believed (result : Except BlobCommitError BlobCommit) : Prop where
  success : ∀ commit, result = .ok commit → ∃ before upload parts reply answer,
    Asked b t before upload parts reply answer ∧ Reported answer
  other : ∀ before upload parts reply answer, Asked b t before upload parts reply answer →
    ¬ Reported answer → (∃ error, reply = .error error) ∧ (∃ error, result = .error error) ∧
      ∃ key commitments, b.after (before ++ [⟨.commitMultipart upload parts, reply⟩]) upload =
        some (.opened key commitments)

/-- The server answers a completion with a success only where it reports one. -/
def Honest : Prop := ∀ before upload parts reply response,
  Asked b t before upload parts reply (.ok response) → response.isSuccess → Reported (.ok response)

end

/-- A completion is the first one. -/
def Once (t : Trace Store) (c : Call) : Prop := completes c → Uncompleted t

section
variable {ε : Type} {b : Backend} {tenant : TenantId} {expectation : BlobExpectation}
  {encoder : BlobEncoder ε} {state : ε} {canonical : List Slice} {t before : Trace Store}
  {result : Except BlobCommitError BlobCommit} {upload : MultipartUploadId}
  {parts : List PartCommitment} {reply : Except StorageError StorageOutcome} {answer : Answer}
  (hrun : Runs (fun t e => e.reply = b.reply t e.call)
    (commitBlob tenant expectation encoder state canonical) [] result t)

include hrun

theorem run_made : (∃ key, AfterBlob key result t) ∧
    ∀ before e later, t = before ++ e :: later → 0 ≤ before.length → Once before e.call := by
  have hsafe : Safe (fun t e => e.reply = b.reply t e.call) Once _
      (commitBlob tenant expectation encoder state canonical) [] :=
    commitBlob_safe rfl nofun (fun _ _ _ hc _ h => absurd h (by simp [not_completes hc]))
      fun _ _ _ _ _ ht _ _ _ => ht
  exact (hsafe.made hrun).imp (⟨_, ·⟩) id

theorem asked_reply (hasked : Asked b t before upload parts reply answer) :
    reply = b.commitMultipart before upload parts := by
  obtain ⟨⟨later, heq⟩, -⟩ := hasked
  exact (hrun.at heq (Nat.zero_le _)).1

/-- The completion of a run is the first call of its kind. -/
theorem asked_first (hasked : Asked b t before upload parts reply answer) :
    t.find? (completes ·.call) = some ⟨.commitMultipart upload parts, reply⟩ := by
  obtain ⟨⟨later, heq⟩, -⟩ := hasked
  refine List.find?_eq_some_iff_append.mpr ⟨rfl, before, later, heq, fun e he => ?_⟩
  rw [(run_made hrun).2 _ _ _ heq (Nat.zero_le _) rfl e he]
  rfl

/-- A run that commits has asked for the completion and seen a success. -/
theorem commit_asked {commit} (hcommit : result = .ok commit) :
    ∃ before upload parts outcome response,
      Asked b t before upload parts (.ok outcome) (.ok response) ∧ response.isSuccess := by
  obtain ⟨⟨key, hafter⟩, -⟩ := run_made hrun
  obtain ⟨-, upload, parts, outcome, -, hmem⟩ := hafter.completed commit hcommit
  obtain ⟨before, later, heq⟩ := List.append_of_mem hmem
  obtain ⟨response, hanswer, hsuccess⟩ :=
    Backend.commitMultipart_ok.mp ⟨outcome, (hrun.at heq (Nat.zero_le _)).1.symm⟩
  exact ⟨before, upload, parts, outcome, response, ⟨⟨later, heq⟩, hanswer⟩, hsuccess⟩

end

/-- **A completion is believed only when the server reports it**, exactly where the server answers
with a success only then. -/
theorem completion_believed_iff {ε : Type} (b : Backend) (tenant : TenantId)
    (expectation : BlobExpectation) (encoder : BlobEncoder ε) (state : ε) (canonical : List Slice) :
    let run := played (I := Store) b.reply (commitBlob tenant expectation encoder state canonical) []
    Believed b run.2 run.1 ↔ Honest b run.2 := by
  intro run
  have hrun : Runs (fun t e => e.reply = b.reply t e.call) _ [] run.1 run.2 :=
    runs_played fun _ _ => rfl
  generalize run.1 = result, run.2 = t at hrun ⊢
  constructor
  · intro h before upload parts reply response hasked hsuccess
    by_contra hreport
    obtain ⟨⟨error, rfl⟩, -⟩ := h.other _ _ _ _ _ hasked hreport
    obtain ⟨outcome, hok⟩ := Backend.commitMultipart_ok.mpr ⟨response, hasked.2, hsuccess⟩
    cases (asked_reply hrun hasked).trans hok
  intro h
  refine ⟨fun commit hcommit => ?_, fun before upload parts reply answer hasked hreport => ?_⟩
  · obtain ⟨_, _, _, _, _, hasked, hsuccess⟩ := commit_asked hrun hcommit
    exact ⟨_, _, _, _, _, hasked, h _ _ _ _ _ hasked hsuccess⟩
  cases reply with
  | ok outcome =>
    obtain ⟨response, hanswer, hsuccess⟩ :=
      Backend.commitMultipart_ok.mp ⟨outcome, (asked_reply hrun hasked).symm⟩
    obtain rfl := Except.ok.inj (hasked.2.symm.trans hanswer)
    exact absurd (h _ _ _ _ _ hasked hsuccess) hreport
  | error error =>
    obtain ⟨key, commitments, _, hopened, -⟩ := Backend.completion_ok hasked.2
    refine ⟨⟨error, rfl⟩, ?_, key, commitments, ?_⟩
    · cases hresult : result with
      | error error => exact ⟨error, rfl⟩
      | ok commit =>
        -- no completion follows the one that was refused
        obtain ⟨_, _, _, _, _, hasked', -⟩ := commit_asked hrun hresult
        cases (asked_first hrun hasked).symm.trans (asked_first hrun hasked')
    · rw [Backend.after, List.foldl_append]
      exact hopened

/-! An error document. -/

/-- A server that answers a completion with status 200 and an error document. -/
def lying : Backend where
  sessions _ := none
  permitsKey _ := true
  inScope _ := true
  createMultipart _ _ := .ok "u"
  uploadPart _ _ _ _ _ := .ok "e"
  post _ _ _ _ := .ok ⟨200, utf8 "<Error><Code>InternalError</Code></Error>"⟩
  abortMultipart _ _ _ := .ok ()
  elsewhere _ := MultipartSafety.accepting

def plain : BlobEncoder Unit := ⟨fun _ chunk => ((), .ok chunk.bytes), fun _ => .ok []⟩

theorem error_document_believed :
    let run := played (I := Store) lying.reply (commitBlob ⟨"0b0c8a52-2a3f-4c1f-9a41-7d5d3f0d2a11",
      by decide⟩ ⟨digestOf [0x61], 1⟩ plain () [⟨[0x61], by decide⟩]) []
    run.1.isOk ∧ ¬ Believed lying run.2 run.1 := by
  intro run
  have hok : run.1.isOk = true := by decide +kernel
  refine ⟨hok, fun h => ?_⟩
  cases hresult : run.1 with
  | error error =>
    rw [hresult] at hok
    cases hok
  | ok commit =>
    obtain ⟨before, upload, parts, reply, answer, ⟨-, hasked⟩, response, rfl, -, hroot⟩ :=
      h.success commit hresult
    obtain ⟨_, _, _, -, hanswer⟩ := Backend.completion_ok hasked
    cases hanswer
    exact absurd hroot (by decide +kernel)

end AgentArchivist.Storage.S3RawWrite
