import AgentArchivist.Auth.ReceiptsVerify
import AgentArchivist.Protocol.EnvelopeLossless
import AgentArchivist.Server.DrainVerdict
import AgentArchivist.Storage.BlobFailure
import AgentArchivist.Storage.ManifestCalls

/-! # What an attempt creates

The verdict on a request falls inside the iterator that feeds a running upload, and it is
enforced by the gate around the encoder. Every call that makes an object visible stands behind an
an attempt creates nothing, it reports the first check that failed. -/
namespace AgentArchivist.Server.CommitVerified
open List
open Lib.Fallible Lib.Proc Auth.ControlRecord Auth.RequestVerification Protocol.Derivation
open Protocol.IngestEnvelope Protocol.ObjectKey Protocol.Vocabulary Server.CommitAttempt
open Server.DrainVerdict Server.Framing Server.RequestBody Server.Transport
open Storage.Blob Storage.BlobFailure Storage.BlobStream Storage.ManifestCalls Storage.Manifests
open Storage.OpenSessions Storage.RawWrite Storage.Sequence
open AgentArchivist.Storage.WriterParts (Quiet)

/-- The calls that make an object visible. -/
def Creates : Call → Prop
  | .commitMultipart _ _ => True
  | .writeManifest _ _ => True
  | .createManifestIfAbsent _ _ => True
  | _ => False

variable {δ ε : Type} {allowed : Trace Store → Event Store → Prop} {t : Trace Store}

/-! ## The gate -/

theorem encodeFrom_gated {encoder gate canonical} :
    ∀ {state : ε} {stored : List UInt8},
      encodeFrom (gated encoder gate) state canonical = .ok stored → gate = true := by
  induction canonical with
  | nil =>
    intro state stored h
    cases gate with
    | true => rfl
    | false => cases h
  | cons chunk rest ih =>
    intro state stored h
    simp only [encodeFrom] at h
    split at h
    · cases h
    rename_i state' out hupdate
    cases hrest : encodeFrom (gated encoder gate) state' rest with
    | error failure =>
      rw [hrest] at h
      cases h
    | ok stored => exact ih hrest

theorem streamChunks_gated (encoder : BlobEncoder ε) (gate : Bool) (canonical : List Slice) :
    ∀ s : Streaming ε,
      streamChunks (gated encoder gate) canonical s = streamChunks encoder canonical s := by
  induction canonical with
  | nil => exact fun _ => rfl
  | cons chunk rest ih =>
    intro s
    unfold streamChunks
    simp only [ih]
    rfl

section
variable {tenant : TenantId} {expectation : BlobExpectation} {encoder : BlobEncoder ε} {state : ε}
  {canonical : List Slice}

theorem commitBlobDrained_fst :
    (do let r ← commitBlobDrained tenant expectation encoder state canonical; pure r.1) =
      commitBlob tenant expectation encoder state canonical := by
  unfold commitBlobDrained commitBlob
  simp only [bind_assoc]
  refine congrArg _ (funext fun r => ?_)
  cases r with
  | error error => rfl
  | ok writer =>
    simp only [bind_assoc]
    refine congrArg _ (funext fun r => ?_)
    cases r with
    | error error => rfl
    | ok s =>
      simp only [bind_assoc]
      refine congrArg _ (funext fun r => ?_)
      cases r with
      | error error => rfl
      | ok s => simp only [bind_assoc, pure_bind, bind_pure]

variable {gate : Bool}

/-- What the blob commit creates, it creates behind an open gate and for the declared digest. -/
theorem drained_creates (hsize : expectation.uncompressedBytes.toNat < 2 ^ 63) :
    Safe allowed (fun _ c => Creates c → gate = true ∧ digestOf (stream canonical) = expectation.content)
      (fun r t' => ∀ blob, r.1 = .ok blob → gate = true ∧
        digestOf (stream canonical) = expectation.content ∧ ∃ e ∈ t', Creates e.call)
      (commitBlobDrained tenant expectation (gated encoder gate) state canonical) [] := by
  have hsafe : Safe allowed (fun _ c => Creates c → gate = true ∧
      digestOf (stream canonical) = expectation.content)
      (AfterBlob (BlobObjectKey.new tenant .zstdV1 expectation.content))
      (commitBlob tenant expectation (gated encoder gate) state canonical) [] := by
    refine commitBlob_safe rfl False.elim ?_ ?_
    · intro upload t c hc _ hcreates
      cases c with
      | commitMultipart | writeManifest | createManifestIfAbsent => exact hc.elim
      | _ => exact hcreates.elim
    · intro upload t parts stored _ _ hchecked _ _
      exact ⟨encodeFrom_gated (hchecked (.inr hsize)).encoded, (hchecked (.inr hsize)).digest⟩
  rw [← commitBlobDrained_fst] at hsafe
  -- what each call needed is known of all of them when the commit returns
  have hkept := hsafe.of_map.keeps (P := fun t : Trace Store => ∀ e ∈ t, Creates e.call →
      gate = true ∧ digestOf (stream canonical) = expectation.content)
    (fun t c r hpre ht => forall_mem_append.mpr ⟨ht, forall_mem_singleton.mpr hpre⟩)
    (forall_mem_nil _)
  refine hkept.mono ?_
  rintro r t' ⟨hafter, hcreates⟩ blob hr
  obtain ⟨-, upload, parts, outcome, -, hmem⟩ := hafter.completed blob hr
  obtain ⟨hgate, hdigest⟩ := hcreates _ hmem trivial
  exact ⟨hgate, hdigest, _, hmem, trivial⟩

/-- Why the blob commit failed: while it took the chunks, or behind an open gate. -/
def Accounts (expectation : BlobExpectation) (encoder : BlobEncoder ε) (state : ε)
    (canonical : List Slice) (gate drained : Bool) (t : Trace Store) (failure : StorageError) : Prop :=
  Interrupts encoder state canonical t failure ∧ drained = false ∨
  drained = true ∧ (gate = true → Interrupts encoder state canonical t failure ∨
    Contradicts expectation (stream canonical) failure)

theorem drained_accounts :
    Safe allowed Unrestricted
      (fun r t' => Settled t' ∧ ∀ error, r.1 = .error error →
        Accounts expectation encoder state canonical gate r.2 t' error.failure)
      (commitBlobDrained tenant expectation (gated encoder gate) state canonical) [] := by
  refine Safe.bind (Safe.call trivial fun r _ => ?_)
  cases r with
  | error failure =>
    refine ⟨fun _ hmem => absurd hmem (not_mem_nil), ?_⟩
    rintro _ ⟨⟩
    exact .inl ⟨.inl (.opening (mem_singleton.mpr rfl)), rfl⟩
  | ok upload =>
    refine Safe.call trivial fun _ _ => ?_
    have hstart := streamed_start (BlobObjectKey.new tenant .zstdV1 expectation.content) upload state
    have hstream : Safe allowed Unrestricted _ _ _ :=
      streamChunks_safe (free_unrestricted upload) encoder canonical hstart
    rw [← streamChunks_gated encoder gate] at hstream
    refine Safe.bind (hstream.mono fun r t1 hleaves => ?_)
    cases r with
    | error error =>
      refine ⟨cleaned_settled (aborted_cleaned hleaves.1), ?_⟩
      rintro _ ⟨⟩
      exact .inl ⟨hleaves.2, rfl⟩
    | ok s =>
      obtain ⟨⟨out, hstreamed, hencode⟩, hquiet⟩ := hleaves
      refine Safe.bind ((finishStream_safe (free_unrestricted upload) _ hstreamed).mono
        fun r t2 hleaves' => ?_)
      cases r with
      | error error =>
        refine ⟨cleaned_settled (aborted_cleaned (hleaves'.1.after_quiet hquiet)), ?_⟩
        rintro _ ⟨⟩
        refine .inr ⟨rfl, ?_⟩
        rintro rfl
        obtain ⟨-, hblamed | hfinish⟩ := hleaves'
        · exact .inl (.inl hblamed)
        · refine .inl (.inr ?_)
          rw [show encoder.finish s.encoder = .error error.failure from hfinish] at hencode
          exact hencode
      | ok s' =>
        obtain ⟨⟨last, -, hready⟩, hquiet'⟩ := hleaves'
        refine Safe.bind ((validateAndCommit_safe (free_unrestricted _) hready
          fun _ _ _ => trivial).mono fun r t3 hafter => ?_)
        have hquiet'' := hquiet.trans hquiet'
        cases r with
        | ok commit => exact ⟨released_settled ((changed_quiet hquiet'').trans hafter.1), nofun⟩
        | error error =>
          refine ⟨cleaned_settled (aborted_cleaned (hafter.1.after_quiet hquiet'')), ?_⟩
          rintro _ ⟨⟩
          exact .inr ⟨rfl, fun _ => hafter.2.imp_left .inl⟩

end

/-! ## The tail -/

/-- The calls of the manifest commits. -/
def OfManifest : Call → Prop
  | .capabilities => True
  | .writeManifest _ _ => True
  | .createManifestIfAbsent _ _ => True
  | _ => False

theorem commitProvenance_calls {envelope delegation} : Safe allowed (fun _ c => OfManifest c)
    (fun _ _ => True) (commitProvenance envelope delegation) t := by
  have hcommit : ∀ key bytes t, Safe allowed (fun _ c => OfManifest c) _ (commitAtKey key bytes) t :=
    fun key bytes t => commitAtKey_safe (fun _ => trivial) (fun _ => trivial) fun _ => trivial
  unfold commitProvenance commitOccurrenceManifest commitAttestationManifest
  cases occurrenceObject envelope with
  | error error => exact trivial
  | ok occurrence =>
    refine Safe.bind ((hcommit _ _ t).mono fun r t1 _ => ?_)
    cases r with
    | error error => exact trivial
    | ok _ =>
      cases attestationObject envelope delegation with
      | error error => exact trivial
      | ok attestation =>
        refine Safe.bind ((hcommit _ _ t1).mono fun r t2 _ => ?_)
        cases r with
        | error | ok => exact trivial

theorem settled_snoc {c} (hc : OfManifest c) (r : Reply c) (h : Settled t) :
    Settled (t ++ [⟨c, r⟩]) := by
  have hbegun : begun (t ++ [⟨c, r⟩]) = begun t := by
    cases c <;> first | exact hc.elim | simp [begun, begunOf]
  have hregistry : registry (t ++ [⟨c, r⟩]) = registry t := by
    rw [registry_append]
    cases c <;> first | exact hc.elim | rfl
  intro upload hupload
  rw [hbegun] at hupload
  rw [hregistry]
  exact (h upload hupload).imp_left fun hclosed => closed_append.mpr (.inl hclosed)

/-! ## The attempt -/

section
variable {scheme : SignatureScheme} (state : ServerState δ ε scheme) (attempt : Attempt)
  (f : RequestFraming) (body : List UInt8)

/-- The request was verified: the drain accepted it, the record is over the digests of what was
received, and the decoded payload has the declared digest. -/
structure Verified (payload canonical : List UInt8) : Prop
    extends Accepted state attempt f body payload canonical where
  requestDigest : attempt.record.requestContentDigest = digestOf body
  envelopeDigest : attempt.record.envelopeDigest = attempt.envelope.envelopeDigest
  canonicalDigest : attempt.record.payloadCanonicalDigest = digestOf canonical
  transportDigest : attempt.record.payloadTransportDigest = digestOf payload
  blobDigest : digestOf canonical = attempt.envelope.blobDigest
  plain : attempt.envelope.transportEncoding = .identity → canonical = payload

/-- What an attempt that created nothing reports: the first check that failed. -/
inductive Reported (made : Trace Store) : ServerFailure → Prop
  | refused {failure : ServerFailure} : Refused state attempt f body failure → Reported made failure
  | noEncoder : state.newEncoder attempt.expectation.uncompressedBytes = none → made = [] →
      Reported made .internal
  | store {error : StorageError} : Blamed made error → Reported made (fromStorageKind error.kind)
  | encoding {encoder : ε} {canonical : List Slice} {error : StorageError} :
      state.newEncoder attempt.expectation.uncompressedBytes = some encoder →
      encodeFrom state.encoder encoder canonical = .error error →
      Reported made (fromStorageKind error.kind)
  | digest {payload canonical : List UInt8} : Accepted state attempt f body payload canonical →
      digestOf canonical ≠ attempt.envelope.blobDigest →
      Reported made (fromStorageKind digestMismatch.kind)

/-- What is left where an attempt returned. -/
def Returned (r : Except ServerFailure Receipt) (made : Trace Store) : Prop :=
  Settled made ∧
  match r with
  | .ok _ => ∃ payload canonical, Verified state attempt f body payload canonical
  | .error failure => Reported state attempt f body made failure ∨ ∃ e ∈ made, Creates e.call

variable {state attempt f body}

theorem commitChunks_safe {encoder : ε} {canonical : List Slice} {verdict : DrainChunks δ}
    (hencoder : state.newEncoder attempt.expectation.uncompressedBytes = some encoder)
    (hverdict : Verdict state attempt f body (stream canonical) verdict) :
    Safe allowed (fun _ c => Creates c → ∃ payload canonical,
        Verified state attempt f body payload canonical)
      (Returned state attempt f body) (attempt.commitChunks state encoder canonical verdict) [] := by
  have hsize : attempt.expectation.uncompressedBytes.toNat < 2 ^ 63 :=
    attempt.envelope.uncompressedSize.fits
  have hverified : verdict.gate = true → digestOf (stream canonical) = attempt.expectation.content →
      ∃ payload canonical, Verified state attempt f body payload canonical := by
    intro hgate hdigest
    rcases hverdict with ⟨hclosed, -⟩ | ⟨-, -, payload, haccepted, hplain⟩
    · rw [hgate] at hclosed
      cases hclosed
    · obtain ⟨a, ha⟩ := haccepted.authorized
      obtain ⟨⟨_, -, hauthorizes⟩, -⟩ := verifyRequest_ok.mp (mapError_eq_ok.mp ha)
      exact ⟨payload, _, haccepted, hauthorizes.request, hauthorizes.envelope, hauthorizes.canonical,
        hauthorizes.transport, hdigest, hplain⟩
  have hinterrupts : ∀ {t failure}, Interrupts state.encoder encoder canonical t failure →
      Reported state attempt f body t (fromStorageKind failure.kind) := by
    rintro t failure (hblamed | hencode)
    · exact .store hblamed
    · exact .encoding hencoder hencode
  refine Safe.bind (((Safe.weaken ?_ (drained_creates hsize)).and drained_accounts).mono ?_)
  · intro t c hpre hc
    obtain ⟨hgate, hdigest⟩ := hpre hc
    exact hverified hgate hdigest
  rintro ⟨commit, drained⟩ t ⟨hdone, hsettled, haccounts⟩
  cases commit with
  | ok blob =>
    obtain ⟨hgate, hdigest, hcreated⟩ := hdone blob rfl
    obtain ⟨payload, canonical, hrequest⟩ := hverified hgate hdigest
    have hcause : (if drained then verdict.cause else none) = none := by
      rcases hverdict with ⟨hclosed, -⟩ | ⟨-, hnone, -⟩
      · rw [hgate] at hclosed
        cases hclosed
      · rw [hnone, ite_self]
    dsimp only
    rw [hcause]
    dsimp only
    -- the manifests are calls of their own, which leave the sessions alone
    have htail : Safe allowed (fun _ c => OfManifest c) (fun _ _ => True)
        (landTailAndReceipt state attempt.envelope attempt.delegation blob
          attempt.record.uploaderKeyId attempt.record.authorizationEpoch attempt.commitTime) t := by
      refine Safe.bind (commitProvenance_calls.mono fun r _ _ => ?_)
      cases r with
      | error error => exact trivial
      | ok provenance =>
        dsimp only
        split <;> exact trivial
    have hkept := htail.keeps (P := fun t => Settled t ∧ ∃ e ∈ t, Creates e.call)
      (fun t c r hc ht => ⟨settled_snoc hc r ht.1,
        ht.2.imp fun e he => ⟨mem_append_left _ he.1, he.2⟩⟩) ⟨hsettled, hcreated⟩
    refine (Safe.weaken (fun _ _ _ _ => ⟨payload, canonical, hrequest⟩) hkept).mono ?_
    rintro r t' ⟨-, hsettled', hcreated'⟩
    refine ⟨hsettled', ?_⟩
    cases r with
    | ok receipt => exact ⟨payload, canonical, hrequest⟩
    | error failure => exact .inr hcreated'
  | error error =>
    rcases haccounts error rfl with ⟨hfailure, hdrained⟩ | ⟨hdrained, hfailure⟩
    · obtain rfl : drained = false := hdrained
      exact ⟨hsettled, .inl (hinterrupts hfailure)⟩
    obtain rfl : drained = true := hdrained
    rcases hverdict with ⟨-, failure, hcause, hrefused⟩ | ⟨hgate, hnone, payload, haccepted, -⟩
    · dsimp only
      rw [if_pos rfl, hcause]
      exact ⟨hsettled, .inl (.refused hrefused)⟩
    dsimp only
    rw [if_pos rfl, hnone]
    refine ⟨hsettled, .inl ?_⟩
    rcases hfailure hgate with hfailure | hcontradicts
    · exact hinterrupts hfailure
    cases hfail : error.failure with
    | mk kind text =>
      rw [hfail] at hcontradicts
      cases hcontradicts with
      | digest hdigest => exact .digest haccepted hdigest
      | size hlength => exact absurd haccepted.size hlength

variable {chunks : List (List UInt8)} {cap : Nat}

variable (state) in
theorem attempt_safe
    (hparse : parseIngestWithCap f (.fed chunks) cap = .ok (attempt.envelope, attempt.stream)) :
    ∃ fuel₀ program, (∀ fuel, fuel₀ ≤ fuel → attempt.attemptCommit state fuel = some program) ∧
      Safe allowed (fun _ c => Creates c → ∃ payload canonical,
          Verified state attempt f chunks.flatten payload canonical)
        (Returned state attempt f chunks.flatten) program [] := by
  have hnone : Settled [] := fun _ hmem => absurd hmem not_mem_nil
  unfold Attempt.attemptCommit
  cases hnew : TransportDecoder.new state.codec attempt.envelope.transportEncoding attempt.source
      state.config.limits with
  | error error =>
    have hdecoded : Decoded state attempt [] (.error error) := by
      refine ⟨0, ?_⟩
      rw [TransportDecoder.decode, hnew]
    exact ⟨0, _, fun _ _ => rfl, hnone, .inl (.refused (.decode hdecoded))⟩
  | ok decoder =>
    cases hencoder : state.newEncoder attempt.expectation.uncompressedBytes with
    | none => exact ⟨0, _, fun _ _ => rfl, hnone, .inl (.noEncoder hencoder rfl)⟩
    | some encoder =>
      obtain ⟨fuel₀, canonical, verdict, hall, hverdict⟩ := drain_verdict hparse hnew
      refine ⟨fuel₀, attempt.commitChunks state encoder canonical verdict, fun fuel hfuel => ?_,
        commitChunks_safe hencoder hverdict⟩
      dsimp only
      rw [hall fuel hfuel]
      rfl

/-- The sessions that a run opened were aborted, or are registered as abandoned. -/
def CleanedUp (made : Trace Store) : Prop :=
  ∀ upload ∈ begun made, ⟨.abortMultipart upload, Except.ok ()⟩ ∈ made ∨ ⟨upload, true⟩ ∈ registry made

theorem cleanedUp_of_settled {made} (h : Settled made) (hcreates : ∀ e ∈ made, ¬ Creates e.call) :
    CleanedUp made := by
  intro upload hupload
  refine (h upload hupload).imp_left ?_
  rintro ⟨e, he, hcloses⟩
  cases hcloses with
  | completed => exact absurd trivial (hcreates _ he)
  | aborted => exact he

variable (state attempt f body) in
/-- What the runs of an attempt's program do, whatever the store answers and wherever they stop. -/
structure OnlyVerified (program : StoreM (Except ServerFailure Receipt)) : Prop where
  creates : ∀ left made, Steps (fun _ _ => True) program [] left made → ∀ e ∈ made, Creates e.call →
    ∃ payload canonical, Verified state attempt f body payload canonical
  receipts : ∀ receipt made, Runs (fun _ _ => True) program [] (.ok receipt) made →
    ∃ payload canonical, Verified state attempt f body payload canonical
  settled : ∀ result made, Runs (fun _ _ => True) program [] result made → Settled made
  reported : ∀ failure made, Runs (fun _ _ => True) program [] (.error failure) made →
    (∀ e ∈ made, ¬ Creates e.call) → CleanedUp made ∧ Reported state attempt f body made failure

end

/-! ## A request of one byte -/

namespace Sample
open Auth.AuthorityPublication.Sample Auth.ReceiptsVerify.Sample Auth.ReceiptSigning
open Protocol.EnvelopeLossless Protocol.EnvelopeSize Protocol.JsonCanonical
open Server.FramedBody Server.FramingChunks Server.PartsRoundTrip

/-- The declared size of the payload as it is transported is not its size. -/
def envelope : Envelope := identified { baseline with
  tenantId := tenant
  originClientId := tenant
  uploaderClientId := tenant
  blobDigest := digestOf [0x61]
  transportEncoding := .zstd
  uncompressedSize := ⟨1, by decide⟩
  unknownFields := [] }

theorem envelope_names : ((envelope.present ++ envelope.unknownFields).map Prod.fst).Nodup :=
  names_distinct List.Pairwise.nil (forall_mem_nil _)

theorem envelope_valid : Valid envelope where
  semantic := by decide +kernel
  identities := identified_verify _
  size := sizeCheck_of_unknown envelope_names (Nat.zero_le _)
  sorted := List.Pairwise.nil
  unknown := forall_mem_nil _
  values := forall_mem_nil _

theorem envelope_length : envelope.canonicalBytes.length ≤ 7000 := by
  have hlen := length_canonicalBytes envelope_names
  have hlong : ((longValues envelope).map valueCost).sum ≤ 900 := by decide +kernel
  have hunknown : (envelope.unknownFields.map memberCost).sum = 0 := rfl
  omega

def body : TwoPartBody sampleFraming 65536 where
  envelope := envelope.canonicalBytes
  payload := [0x61]
  mediaType := "y"
  envelope_le := envelope_length.trans (by decide)
  envelope_delimiter := position_delimiter _ fun h => absurd (graphic_canonicalBytes _ _ h) (by decide)
  payload_delimiter := by decide
  mediaType_ne := longEnvelope.mediaType_ne
  singleLine := longEnvelope.singleLine
  fits := longEnvelope.fits

theorem parses : ∃ stream, parseIngestWithCap sampleFraming (BodyChannel.fed (inTwo body)) 65536 =
    .ok (envelope, stream) ∧ Streams stream [0x61] := by
  have hdash : sampleFraming.dashBoundary.length = 3 := by decide
  refine parse_inTwo body (parse_canonicalBytes_of_valid envelope_valid) ?_
  rw [hdash]
  exact Nat.lt_of_le_of_lt (Nat.add_le_add_right envelope_length _) (by decide)

/-- The record of the attempt is over the digests of the request. -/
def record : AttemptAuthorization := { Auth.RequestVerification.Sample.authorization with
  requestContentDigest := digestOf body.bytes
  envelopeDigest := envelope.envelopeDigest
  payloadCanonicalDigest := digestOf [0x61]
  payloadTransportDigest := digestOf [0x61] }

def attempt (stream : Parts.PayloadStream BodyChannel) : Attempt :=
  ⟨envelope, stream, record, ⟨Auth.RequestVerification.Sample.linked, none, []⟩, newYear, committed⟩

/-- A replica whose codecs copy. -/
def state : ServerState Unit Unit trusting where
  config := ⟨65536, 1000, 10, by decide⟩
  codec := ⟨some (), fun _ slice => (.ok slice, ()), fun _ => (.ok [], ())⟩
  newEncoder _ := some ()
  encoder := ⟨fun _ chunk => ((), .ok chunk.bytes), fun _ => .ok []⟩
  receipts := ⟨[ReceiptKeySchedule.new aheadKey]⟩

end Sample

end AgentArchivist.Server.CommitVerified
