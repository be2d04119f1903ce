import AgentArchivist.Storage.BlobFailure
import AgentArchivist.Storage.MultipartSafety

/-! # A blob commit is all or nothing

The store is asked to complete a session only for a stream that was checked, with parts that
are the encoder's output for it; a commit that fails has aborted its session, or left it
registered as abandoned and says how the abort failed. The count of the stream saturates, so
all this is of streams that a counter holds. -/
namespace AgentArchivist.Storage.BlobAtomic
open Lib Protocol
open Proc Word Derivation ObjectKey Vocabulary Blob BlobFailure BlobStream MultipartSafety
open RawWrite WriterParts

structure Atomic {ε : Type} (expectation : BlobExpectation) (encoder : BlobEncoder ε) (state : ε)
    (canonical : List Slice) (result : Except BlobCommitError BlobCommit) (made : Trace Store) :
    Prop where
  completes : ∀ before after upload parts reply,
    made = before ++ ⟨.commitMultipart upload parts, reply⟩ :: after → ∃ stored,
      Checked expectation encoder state canonical stored ∧ Whole upload parts stored before
  committed : ∀ commit, result = .ok commit →
    ∃ upload parts outcome, ⟨.commitMultipart upload parts, Except.ok outcome⟩ ∈ made
  cleaned : ∀ error, result = .error error → Cleaned error.cleanup made

theorem commitBlob_atomic {ε : Type} (tenant : TenantId) (expectation : BlobExpectation)
    (encoder : BlobEncoder ε) (state : ε) (canonical : List Slice) {result made}
    (hlength : (stream canonical).length < 2 ^ 64)
    (hrun : Runs (fun _ _ => True) (commitBlob tenant expectation encoder state canonical) []
      result made) : Atomic expectation encoder state canonical result made := by
  have hsafe : Safe (fun _ _ => True)
      (fun t (c : Call) => ∀ upload parts, c = .commitMultipart upload parts → ∃ stored,
        Checked expectation encoder state canonical stored ∧ Whole upload parts stored t)
      (AfterBlob (.new tenant .zstdV1 expectation.content))
      (commitBlob tenant expectation encoder state canonical) [] := by
    refine commitBlob_safe rfl nofun ?_ ?_
    · rintro _ t c hc - upload parts rfl
      exact hc.elim
    · rintro _ t _ stored - - hchecked hwhole _ _ ⟨⟩
      exact ⟨stored, hchecked (.inl hlength), hwhole⟩
  obtain ⟨hafter, hcalls⟩ := hsafe.made hrun
  refine ⟨fun _ _ _ _ _ heq => hcalls _ _ _ heq (Nat.zero_le _) _ _ rfl, ?_, hafter.cleaned⟩
  intro commit hcommit
  obtain ⟨-, upload, parts, outcome, -, hmem⟩ := hafter.completed commit hcommit
  exact ⟨upload, parts, outcome, hmem⟩

/-! A stream that is one byte too long for the counter. -/

theorem sampleTenant_valid : uuidGrammar 4 "0b0c8a52-2a3f-4c1f-9a41-7d5d3f0d2a11" = true := by decide

def sampleTenant : TenantId := ⟨_, sampleTenant_valid⟩

/-- An encoder that has nothing to say before the end. -/
def silent : BlobEncoder Unit := ⟨fun _ _ => ((), .ok []), fun _ => .ok [0x61]⟩

theorem length_zeros {n : Nat} (h : n < 2 ^ 63) : (List.replicate n (0 : UInt8)).length < 2 ^ 63 := by
  rwa [List.length_replicate]

def zeros (n : Nat) (h : n < 2 ^ 63) : Slice := ⟨List.replicate n 0, length_zeros h⟩

def saturating : List Slice := List.replicate 4 (zeros (2 ^ 62) (by decide))

theorem length_saturating : (stream saturating).length = 2 ^ 64 := by
  rw [stream, saturating, List.length_flatMap]
  simp only [List.map_replicate, zeros, List.length_replicate]
  rfl

/-- What is read is counted, and the encoder says nothing. -/
theorem silent_streams (canonical : List Slice) : ∀ {read} {s : Streaming Unit} {u},
    Counted read s u → ∃ s', streamChunks silent canonical s = pure (.ok s') ∧
      Counted (read ++ canonical) s' u ∧ s'.writer = s.writer := by
  induction canonical with
  | nil => exact fun h => ⟨_, rfl, by rwa [List.append_nil], rfl⟩
  | cons chunk rest ih =>
    intro read s u h
    obtain ⟨s', hs', hcounted, hwriter⟩ := ih (h.read chunk ())
    rw [List.append_assoc] at hcounted
    exact ⟨s', hs', hcounted, hwriter⟩

/-- The commit of a stream that agrees with what is declared, as far as it is counted. -/
theorem silent_commits (canonical : List Slice) (expectation : BlobExpectation)
    (hdigest : digestOf (stream canonical) = expectation.content)
    (hcount : min (stream canonical).length (2 ^ 64 - 1) = expectation.uncompressedBytes.toNat) :
    ∃ commit before after, Runs (fun _ _ => True)
      (commitBlob sampleTenant expectation silent () canonical) [] (.ok commit)
      (before ++ ⟨.commitMultipart sampleUpload [sampleCommitment], Except.ok .created⟩ :: after) := by
  obtain ⟨s, hstream, ⟨-, hhasher, hbytes⟩, hwriter⟩ := silent_streams canonical
    (streamed_start (.new sampleTenant .zstdV1 expectation.content) sampleUpload ()).toCounted
  obtain ⟨writer, encoder, hasher, bytes, storedHasher, storedBytes⟩ := s
  have hdigest' : Sha256.finalize hasher = expectation.content.raw := by
    rw [← hdigest, show hasher = _ from hhasher]
    rfl
  have hbytes' : bytes = expectation.uncompressedBytes := UInt64.toNat_inj.mp (hbytes.trans hcount)
  subst hwriter
  let key := BlobObjectKey.new sampleTenant .zstdV1 expectation.content
  refine ⟨⟨key, .created, bytes, saturatingAdd storedBytes 1,
    Sha256.finalize (Sha256.update storedHasher [0x61]), 1⟩,
    [⟨.beginMultipart key, Except.ok sampleUpload⟩, ⟨.register sampleUpload, ()⟩,
    ⟨.writePart sampleUpload ⟨1, by decide⟩ [0x61], Except.ok sampleCommitment⟩],
    [⟨.release sampleUpload, ()⟩], ?_⟩
  refine Steps.call (r := Except.ok sampleUpload) trivial (Steps.call (r := ()) trivial ?_)
  show Steps _ (streamChunks silent canonical _ >>= _) _ _ _
  rw [hstream]
  refine Steps.call (r := Except.ok sampleCommitment) trivial ?_
  show Steps _ (validateAndCommit _ _ _) _ _ _
  unfold validateAndCommit
  rw [if_neg (not_not_intro hdigest'), if_neg (not_not_intro hbytes')]
  refine Steps.call (r := Except.ok .created) trivial (Steps.call (r := ()) trivial ?_)
  exact .refl _ _

/-- The store is asked to complete a stream of `2 ^ 64` bytes for one of `2 ^ 64 - 1`. -/
theorem saturated_count_completed : ∃ result made, Runs (fun _ _ => True)
      (commitBlob sampleTenant ⟨digestOf (stream saturating), 0xFFFFFFFFFFFFFFFF⟩ silent () saturating)
      [] result made ∧ result.isOk ∧
    ¬ Atomic ⟨digestOf (stream saturating), 0xFFFFFFFFFFFFFFFF⟩ silent () saturating result made := by
  have hlength := length_saturating
  generalize saturating = canonical at hlength ⊢
  obtain ⟨commit, before, after, hrun⟩ :=
    silent_commits canonical ⟨_, 0xFFFFFFFFFFFFFFFF⟩ rfl (by rw [hlength]; rfl)
  refine ⟨_, _, hrun, rfl, fun hatomic => ?_⟩
  obtain ⟨stored, hchecked, -⟩ := hatomic.completes _ _ _ _ _ rfl
  exact absurd (hlength.symm.trans hchecked.size)
    (show 2 ^ 64 ≠ (0xFFFFFFFFFFFFFFFF : UInt64).toNat by decide)

/-- A stream of one byte. -/
theorem byte_commit_atomic :
    let run := played (I := Store) (fun _ => accepting)
      (commitBlob sampleTenant ⟨digestOf [0x61], 0⟩ silent () [⟨[0x61], by decide⟩]) []
    Atomic ⟨digestOf [0x61], 0⟩ silent () [⟨[0x61], by decide⟩] run.1 run.2 :=
  commitBlob_atomic _ _ _ _ _ (by decide) (runs_played fun _ _ => trivial)

end AgentArchivist.Storage.BlobAtomic
