import AgentArchivist.Server.CommitVerified
import AgentArchivist.Storage.MultipartSafety

/-! # What a committed request declares

Of the four declarations about the payload, the size and the digest of what was decoded are
checked. Those of what was transported are checked against each other only where nothing is
decoded: over the profile codec, no layer compares them with the bytes received. -/
namespace AgentArchivist.Server.CommitConsistency
open Protocol Auth
open Lib.Proc ControlRecord RequestVerification Derivation EnvelopeLossless IngestEnvelope
open Vocabulary CommitAttempt CommitVerified DrainVerdict Evidence Framing RequestBody Transport
open Storage.RawWrite

/-- The payload, as it was transported and as it was decoded, is what the envelope declares. -/
structure Consistent (envelope : Envelope) (payload canonical : List UInt8) : Prop where
  transported : payload.length = envelope.compressedSize.value.toNat
  checksum : digestOf payload = envelope.incomingChecksum
  decoded : canonical.length = envelope.uncompressedSize.value.toNat
  digest : digestOf canonical = envelope.blobDigest

theorem identity_declares {envelope : Envelope} (h : envelope.semanticChecks = .ok ())
    (hidentity : envelope.transportEncoding = .identity) :
    envelope.compressedSize = envelope.uncompressedSize ∧
      envelope.incomingChecksum = envelope.blobDigest := by
  unfold Envelope.semanticChecks at h
  repeat' split at h
  any_goals cases h
  rename_i hsize hchecksum
  exact ⟨not_not.mp fun hne => hsize ⟨hidentity, hne⟩, not_not.mp fun hne => hchecksum ⟨hidentity, hne⟩⟩

variable {δ ε : Type} {scheme : SignatureScheme} {state : ServerState δ ε scheme} {attempt : Attempt}
  {f : RequestFraming} {chunks : List (List UInt8)} {cap : Nat}

/-- **A committed request is consistent with its envelope** exactly where nothing is decoded, or
what was transported happens to be what is declared. -/
theorem committed_consistent_iff
    (hparse : parseIngestWithCap f (.fed chunks) cap = .ok (attempt.envelope, attempt.stream)) :
    ∃ fuel₀ program, (∀ fuel, fuel₀ ≤ fuel → attempt.attemptCommit state fuel = some program) ∧
      ∀ left made, Steps (fun _ _ => True) program [] left made →
        ((∃ e ∈ made, Creates e.call) ∨ ∃ receipt, left = .pure (.ok receipt)) →
        ∃ payload canonical, Verified state attempt f chunks.flatten payload canonical ∧
          (Consistent attempt.envelope payload canonical ↔
            attempt.envelope.transportEncoding = .identity ∨
            payload.length = attempt.envelope.compressedSize.value.toNat ∧
              digestOf payload = attempt.envelope.incomingChecksum) := by
  obtain ⟨runs, henvelope, -⟩ := parse_reaches hparse
  have hsemantic := (valid_of_parse henvelope).semantic
  obtain ⟨fuel₀, program, hprogram, hsafe⟩ := attempt_safe state hparse
  refine ⟨fuel₀, program, hprogram, fun left made hsteps hcommitted => ?_⟩
  have hverified : ∃ payload canonical,
      Verified state attempt f chunks.flatten payload canonical := by
    rcases hcommitted with ⟨e, he, hcreates⟩ | ⟨receipt, rfl⟩
    · obtain ⟨before, after, hmade⟩ := List.append_of_mem he
      exact hsafe.calls hsteps hmade (Nat.zero_le _) hcreates
    · exact (hsafe.runs hsteps).2
  obtain ⟨payload, canonical, h⟩ := hverified
  refine ⟨payload, canonical, h, fun hconsistent => .inr ⟨hconsistent.transported, hconsistent.checksum⟩, ?_⟩
  rintro (hidentity | ⟨hlength, hchecksum⟩)
  · obtain ⟨hsizes, hchecksums⟩ := identity_declares hsemantic hidentity
    obtain rfl := h.plain hidentity
    exact ⟨hsizes ▸ h.size, hchecksums ▸ h.blobDigest, h.size, h.blobDigest⟩
  · exact ⟨hlength, hchecksum, h.size, h.blobDigest⟩

/-! ## The request of one byte -/

section
open Lib.Fallible Lib.Loop Lib.Source TransportDecoder Auth.AuthorityPublication.Sample Auth.ReceiptsVerify.Sample PartsRoundTrip Parts
open Storage.MultipartSafety

/-- The payload is read in one piece, and the body closes behind it. -/
theorem sample_read {stream} {f cap} {chunks} {envelope}
    (hparse : parseIngestWithCap f (BodyChannel.fed chunks) cap = .ok (envelope, stream))
    (hstreams : Streams stream [0x61]) :
    ∃ s₁ s₂ tokenizer, stream.read FEED_SLICE_BYTES = (.ok [0x61], s₁) ∧
      s₁.read FEED_SLICE_BYTES = (.ok [], s₂) ∧ s₂.ended = true ∧
      closing s₂.tokenizer = (.ok (), tokenizer) ∧
      tokenizer.source.requestHasher = Sha256.update Sha256.new chunks.flatten := by
  obtain ⟨-, -, -, hbegun⟩ := parse_reaches hparse
  have hroom : 0 < FEED_SLICE_BYTES := by decide
  obtain ⟨chunk, s₁, p, hfirst, hstreams1, hsplit, hsome⟩ := read_streams hstreams hroom
  obtain ⟨rfl, rfl⟩ : chunk = [0x61] ∧ p = [] := by
    cases chunk with
    | nil => cases hsome rfl
    | cons b rest =>
      obtain ⟨rfl, hrest⟩ := List.cons.inj hsplit
      obtain ⟨rfl, rfl⟩ := List.append_eq_nil_iff.mp hrest.symm
      exact ⟨rfl, rfl⟩
  obtain ⟨chunk', s₂, p', hsecond, hstreams2, hsplit', -⟩ := read_streams hstreams1 hroom
  obtain ⟨rfl, rfl⟩ := List.append_eq_nil_iff.mp hsplit'.symm
  obtain ⟨hread, hended⟩ := (hbegun.read hroom hfirst).1.read hroom hsecond
  have hopen : s₂.ended = true := hended rfl
  obtain ⟨-, ⟨-, -, hcloses⟩ | ⟨hfalse, -⟩⟩ := hstreams2
  · have hclosing : closing s₂.tokenizer = (.ok (), (closing s₂.tokenizer).2) :=
      Prod.ext ((closing_fst _).trans (checkClosed_of_completes hcloses)) rfl
    have hfinishing : finishing 0 s₂ = some (.ok (), (closing s₂.tokenizer).2) := by
      rw [finishing, if_pos hopen, ← hclosing]
    exact ⟨s₁, s₂, _, hfirst, hsecond, hopen, hclosing, (closed_body hparse hread hopen hfinishing).2⟩
  · rw [hopen] at hfalse
    cases hfalse

theorem sample_trusted (stream : PayloadStream BodyChannel) {body payload canonical} :
    Auth.RequestVerification.Sample.view.evaluateAt (attemptOf Sample.record
      (presented (Sample.attempt stream) body payload canonical)) newYear = .ok () := by
  have hattempt : attemptOf Sample.record (presented (Sample.attempt stream) body payload canonical) =
      ⟨tenant, 2, KeyId.fromPublicKey first⟩ := rfl
  have hsame : attemptOf Auth.RequestVerification.Sample.authorization
      Auth.RequestVerification.Sample.presented = ⟨tenant, 2, KeyId.fromPublicKey first⟩ := rfl
  rw [hattempt, ← hsame]
  exact Auth.RequestVerification.Sample.trusted

theorem sample_authorizes (stream : PayloadStream BodyChannel) : Authorizes trusting.verify Holds
    Sample.record (presented (Sample.attempt stream) Sample.body.bytes [0x61] [0x61])
    Auth.RequestVerification.Sample.linked none newYear where
  request := rfl
  envelope := rfl
  canonical := rfl
  transport := rfl
  unexpired := by rw [show Sample.record.authorizationTimestamp = newYear from rfl]; omega
  mature := by rw [show Sample.record.authorizationTimestamp = newYear from rfl]; omega
  tenant := rfl
  trusted := sample_trusted stream
  signed := ⟨first, .inr ⟨_, Auth.RequestVerification.Sample.rotation_held, rfl⟩, rfl, rfl⟩
  harness := List.mem_singleton_self _
  operation := List.mem_singleton_self _
  delegated hne := absurd rfl hne

/-- A codec that copies the byte hands it out, and the stage ends. -/
theorem one_byte_decodes {σ : Type} [ByteSource σ] {source s₁ s₂ : σ} {codec : Codec Unit}
    {limits : DecodeLimits} (hfirst : PullSource.pull source FEED_SLICE_BYTES = (.ok [0x61], s₁))
    (hsecond : PullSource.pull s₁ FEED_SLICE_BYTES = (.ok [], s₂))
    (hupdate : codec.update () [0x61] = (.ok [0x61], ())) (hfinish : codec.finish () = (.ok [], ()))
    (hlimits : limits.enforce 1 1 = .ok ()) :
    ∃ d, Decodes codec 4 (opened .zstd source limits (some ())) [[0x61]] (.ok d) ∧ d.source = s₂ := by
  have hone : ¬ TARGET_CHUNK_BYTES ≤ 1 := by decide
  have hnone : ¬ TARGET_CHUNK_BYTES ≤ 0 := by decide
  let read := { opened .zstd s₂ limits (some ()) with
    transportTotal := 1, canonicalTotal := 1, sourceEnded := true }
  refine ⟨{ read with drained := true }, @Decodes.chunk _ _ _ _ _ _ { read with chunk := [0x61] }
    _ _ _ ?_ (.ended ?_), rfl⟩
  · simp [read, nextChunk, opened, turns, turn, hfirst, hsecond, hone, hnone, hlimits, decodeStep,
      hupdate, finishChunk, hfinish, lastChunk, enforceLimits]
  · simp [read, nextChunk, opened, turns, turn, hnone, hlimits, finishChunk, hfinish, lastChunk,
      enforceLimits]

theorem authorization_ok (attempt : Attempt) {body payload canonical : List UInt8}
    (h : Authorizes scheme.verify Holds attempt.record (presented attempt body payload canonical)
      attempt.evidence.uploader attempt.evidence.delegation attempt.now) :
    ∃ a, authorization attempt scheme body payload canonical = .ok a :=
  ⟨_, mapError_eq_ok.mpr (verifyRequest_ok.mpr ⟨⟨_, rfl, h⟩, rfl⟩)⟩

/-- A stream of the declared size that is authorized leaves the gate open. -/
theorem decide_gate {ed25519 hasher transport} {chunks : DrainChunks δ}
    (hsize : chunks.drainedBytes = chunks.declaredBytes.toNat)
    (hauthorized : ∃ a, authorizeAttempt ed25519 chunks.record (presentedRequest chunks.envelope
      ⟨finalized hasher, chunks.envelopeDigest, finalized chunks.canonical, finalized transport⟩)
        chunks.evidence chunks.now = .ok a) :
    (chunks.decide ed25519 hasher transport).gate = true ∧
      (chunks.decide ed25519 hasher transport).cause = chunks.cause := by
  obtain ⟨_, hauthorized⟩ := hauthorized
  simp [DrainChunks.decide, hsize, hauthorized]

/-- The drain of the sample leaves the gate open. -/
theorem sample_drains {stream : PayloadStream BodyChannel}
    (hparse : parseIngestWithCap FramingChunks.sampleFraming (.fed (inTwo Sample.body)) 65536 =
      .ok (Sample.envelope, stream)) (hstreams : Streams stream [0x61]) :
    ∃ verdict, ((Sample.attempt stream).chunks (opened .zstd (Sample.attempt stream).source
        Sample.state.config.limits (some ()))).all trusting.verify Sample.state.codec 4 4 =
          some ([⟨[0x61], by decide⟩], verdict) ∧ verdict.gate = true ∧ verdict.cause = none := by
  obtain ⟨s1, s2, tokenizer, hfirst, hsecond, hended, hclosing, hhasher⟩ := sample_read hparse hstreams
  rw [inTwo_flatten] at hhasher
  have hpull := pull_of_read (p := (Sample.attempt stream).source) hfirst
  have hend := pull_of_read (p := ⟨s1, Sha256.update Sha256.new [0x61]⟩) hsecond
  rw [Sha256.update_nil] at hend
  obtain ⟨d, hdecodes, hsource⟩ : ∃ d, Decodes Sample.state.codec 4 (opened .zstd
      (Sample.attempt stream).source Sample.state.config.limits (some ())) [[0x61]] (.ok d) ∧
        d.source = ⟨s2, Sha256.update Sha256.new [0x61]⟩ :=
    one_byte_decodes hpull hend rfl rfl (by decide)
  have hbytes : [(⟨[0x61], by decide⟩ : Slice)].map (·.bytes) = [[0x61]] := rfl
  have hdone : ∀ d', Except.ok (ε := TransportDecodeError) d = .ok d' → d'.source.inner.ended = true := by
    rintro d' hd
    cases hd
    rw [hsource]
    exact hended
  have hpayload : d.source.transport = Sha256.update Sha256.new [0x61] := by rw [hsource]
  have hclosed : closing d.source.inner.tokenizer = (.ok (), tokenizer) := by rw [hsource, hclosing]
  refine ⟨_, all_of_decodes hdecodes hdone (by decide) hbytes _ rfl, ?_⟩
  simp only [concluded, hclosed, hhasher, hpayload]
  exact decide_gate rfl (authorization_ok (Sample.attempt stream) (sample_authorizes stream))

/-- The commit of the sample's one part, answered as created. -/
def sampleCommitted : Event Store → Bool
  | ⟨.commitMultipart upload parts, reply⟩ => upload = sampleUpload ∧ parts = [sampleCommitment] ∧
      (reply : Except StorageError StorageOutcome).toOption = some .created
  | _ => false

theorem one_byte_commits : ∃ commit made,
    Runs (fun _ _ => True) (commitBlobDrained Sample.envelope.tenantId
      ⟨Sample.envelope.blobDigest, Sample.envelope.uncompressedSize.value⟩
      (gated Sample.state.encoder true) () [⟨[0x61], by decide⟩]) [] commit made ∧
    ⟨.commitMultipart sampleUpload [sampleCommitment], Except.ok .created⟩ ∈ made := by
  refine ⟨_, _, @runs_played Store _ _ _ _ (fun _ => accepting) fun _ _ => trivial, ?_⟩
  have hmade : (played (I := Store) (fun _ => accepting) (commitBlobDrained Sample.envelope.tenantId
      ⟨Sample.envelope.blobDigest, Sample.envelope.uncompressedSize.value⟩
      (gated Sample.state.encoder true) () [⟨[0x61], by decide⟩]) []).2.any sampleCommitted = true := by
    decide +kernel
  obtain ⟨⟨c, reply⟩, hmem, he⟩ := List.any_eq_true.mp hmade
  cases c with
  | commitMultipart upload parts =>
    obtain ⟨rfl, rfl, hreply⟩ := of_decide_eq_true he
    cases reply with
    | error => cases hreply
    | ok outcome =>
      cases hreply
      exact hmem
  | _ => cases he

/-- **An undeclared transport is committed.** The envelope declares 176 bytes on the wire, of
another digest; the payload is one byte. The request is accepted, and its blob is created. -/
theorem undeclared_transport_commits : ∃ stream program left made,
    parseIngestWithCap FramingChunks.sampleFraming (BodyChannel.fed (inTwo Sample.body)) 65536 =
      .ok (Sample.envelope, stream) ∧
    (Sample.attempt stream).attemptCommit Sample.state 4 = some program ∧
    Steps (fun _ _ => True) program [] left made ∧
    ⟨.commitMultipart sampleUpload [sampleCommitment], Except.ok .created⟩ ∈ made ∧
    ∀ canonical, ¬ Consistent Sample.envelope Sample.body.payload canonical := by
  obtain ⟨stream, hparse, hstreams⟩ := Sample.parses
  obtain ⟨verdict, hall, hgate, hcause⟩ := sample_drains hparse hstreams
  obtain ⟨commit, made, hruns, hcreated⟩ := one_byte_commits
  have hprogram : (Sample.attempt stream).attemptCommit Sample.state 4 =
      some ((Sample.attempt stream).commitChunks Sample.state () [⟨[0x61], by decide⟩] verdict) :=
    congrArg (Option.map fun drained : List Slice × DrainChunks Unit =>
      (Sample.attempt stream).commitChunks Sample.state () drained.1 drained.2) hall
  have hsteps : ∃ left, Steps (fun _ _ => True)
      ((Sample.attempt stream).commitChunks Sample.state () [⟨[0x61], by decide⟩] verdict) [] left made := by
    unfold Attempt.commitChunks
    rw [hgate]
    exact ⟨_, Runs.bind hruns (.refl _ _)⟩
  obtain ⟨left, hsteps⟩ := hsteps
  refine ⟨stream, _, left, made, hparse, hprogram, hsteps, hcreated, fun canonical h => ?_⟩
  have hdeclared : Sample.envelope.compressedSize.value.toNat = 176 := rfl
  exact absurd (h.transported.trans hdeclared) (by decide)

theorem sample_consistent_iff : ∃ stream,
    parseIngestWithCap FramingChunks.sampleFraming (BodyChannel.fed (inTwo Sample.body)) 65536 =
      .ok (Sample.envelope, stream) ∧
    ∃ fuel₀ program, (∀ fuel, fuel₀ ≤ fuel →
        (Sample.attempt stream).attemptCommit Sample.state fuel = some program) ∧
      ∀ left made, Steps (fun _ _ => True) program [] left made →
        ((∃ e ∈ made, Creates e.call) ∨ ∃ receipt, left = .pure (.ok receipt)) →
        ∃ payload canonical, (Consistent Sample.envelope payload canonical ↔
          Sample.envelope.transportEncoding = .identity ∨
          payload.length = Sample.envelope.compressedSize.value.toNat ∧
            digestOf payload = Sample.envelope.incomingChecksum) := by
  obtain ⟨stream, hparse, -⟩ := Sample.parses
  obtain ⟨fuel₀, program, hprogram, h⟩ := @committed_consistent_iff _ _ _ Sample.state
    (Sample.attempt stream) _ _ _ hparse
  refine ⟨stream, hparse, fuel₀, program, hprogram, fun left made hsteps hcommitted => ?_⟩
  obtain ⟨payload, canonical, -, hiff⟩ := h left made hsteps hcommitted
  exact ⟨payload, canonical, hiff⟩

end

end AgentArchivist.Server.CommitConsistency
