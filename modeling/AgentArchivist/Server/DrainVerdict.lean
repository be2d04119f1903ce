import AgentArchivist.Server.CommitAttempt
import AgentArchivist.Server.TransportStage
import AgentArchivist.Storage.BlobStream

/-! # What the drain decides

Whatever the profile decoder does, the drain ends: every chunk that it hands out has bytes in
it, and the record limit bounds them all. It ends with the gate closed and the first check that
failed as its cause, or with the gate open, and then the body closed behind the payload, the
decoded size is the declared one, and the request was authorized over the digests of the bytes
that were received. -/
namespace AgentArchivist.Server.DrainVerdict
open Lib Protocol Auth List
open Source Authority ControlRecord RequestVerification Derivation
open CommitAttempt Evidence FramedBody Framing Parts RequestBody Transport
open Storage.BlobStream TransportStage

variable {δ σ : Type} [ByteSource σ] {codec : Codec δ}

/-! ## A whole decode -/

/-- The chunks that a stage hands out, and how it ends. -/
inductive Decodes (codec : Codec δ) (fuel : Nat) : TransportDecoder δ σ → List (List UInt8) →
    Except TransportDecodeError (TransportDecoder δ σ) → Prop
  | failed {d d' : TransportDecoder δ σ} {error : TransportDecodeError} :
      d.nextChunk codec fuel = some (.error error, d') → Decodes codec fuel d [] (.error error)
  | ended {d d' : TransportDecoder δ σ} :
      d.nextChunk codec fuel = some (.ok none, d') → Decodes codec fuel d [] (.ok d')
  | chunk {d d' : TransportDecoder δ σ} {chunk : List UInt8} {chunks : List (List UInt8)}
      {r : Except TransportDecodeError (TransportDecoder δ σ)} :
      d.nextChunk codec fuel = some (.ok (some chunk), d') → Decodes codec fuel d' chunks r →
      Decodes codec fuel d (chunk :: chunks) r

/-- The totals of a stage that ended. -/
def totals (d : TransportDecoder δ σ) : Nat × Nat := (d.canonicalTotal, d.transportTotal)

theorem Decodes.drive {fuel} {d : TransportDecoder δ σ} {chunks : List (List UInt8)}
    {r : Except TransportDecodeError (TransportDecoder δ σ)} (h : Decodes codec fuel d chunks r)
    {rounds} (hrounds : chunks.length < rounds) (emitted : List UInt8) :
    d.drive codec fuel rounds emitted = some (emitted ++ chunks.flatten, r.map totals) := by
  induction h generalizing rounds emitted with
  | failed hnext | ended hnext =>
    obtain ⟨rounds, rfl⟩ := Nat.exists_eq_add_one.mpr (Nat.zero_lt_of_lt hrounds)
    simp only [TransportDecoder.drive, hnext, flatten_nil, append_nil]
    rfl
  | chunk hnext _ ih =>
    obtain ⟨rounds, rfl⟩ := Nat.exists_eq_add_one.mpr (Nat.zero_lt_of_lt hrounds)
    rw [length_cons] at hrounds
    simp only [TransportDecoder.drive, hnext]
    rw [ih (by omega), flatten_cons, append_assoc]

/-! ## The stage over a request body -/

/-- What was read of a payload is digested. -/
theorem pulls_digested {t₀ : FramingTokenizer σ} {s s' : DigestingPayload σ} {p} (h : Pulls s p s')
    (hread : ReadFrom t₀ s.inner []) (hnew : s.transport = Sha256.new) :
    ReadFrom t₀ s'.inner p ∧ s'.transport = Sha256.update Sha256.new p := by
  induction h with
  | start => exact ⟨hread, hnew.trans (Sha256.update_nil _).symm⟩
  | read _ hpull ih =>
    obtain ⟨hread', htransport⟩ := ih
    obtain ⟨hinner, hupdate⟩ := pull_digesting hpull
    rw [htransport, Sha256.update_update] at hupdate
    exact ⟨(hread'.read (by decide) hinner).1, hupdate⟩

section
variable {u : Setup δ (DigestingPayload BodyChannel)} {d : TransportDecoder δ (DigestingPayload BodyChannel)}

/-- How a stage ends that has handed out `emitted`. -/
def Ends (u : Setup δ (DigestingPayload BodyChannel)) (emitted : List UInt8)
    (r : Except TransportDecodeError (TransportDecoder δ (DigestingPayload BodyChannel))) : Prop :=
  match r with
  | .ok d => ∃ p, Stage u true p emitted { d with drained := false }
  | .error _ => True

/-- A stage that ended has read the payload to its end. -/
theorem Ends.read {t₀ : FramingTokenizer BodyChannel} (hread : ReadFrom t₀ u.source.inner [])
    (hnew : u.source.transport = Sha256.new) {emitted} (h : Ends u emitted (.ok d)) :
    d.source.inner.ended = true ∧ ∃ p, ReadFrom t₀ d.source.inner p ∧
      d.source.transport = Sha256.update Sha256.new p ∧ d.transportTotal = p.length ∧
      d.canonicalTotal = emitted.length ∧ (u.encoding = .identity → emitted = p) := by
  obtain ⟨p, hstage⟩ := h
  obtain ⟨hread', htransport⟩ := pulls_digested hstage.read hread hnew
  obtain ⟨s, hpulls, hpull⟩ := hstage.ended (hstage.closed rfl)
  obtain ⟨-, hended⟩ := (pulls_digested hpulls hread hnew).1.read (by decide) (pull_digesting hpull).1
  refine ⟨hended rfl, p, hread', htransport, hstage.transport, hstage.canonical, fun hidentity => ?_⟩
  have hmade := hstage.made
  rw [hidentity] at hmade
  exact hmade.plain

/-- **A decode ends**, whatever the codec does: every chunk has bytes in it. -/
theorem exists_decodes {told p emitted} (h : Stage u told p emitted d) :
    ∃ fuel₀ chunks r, (∀ fuel, fuel₀ ≤ fuel → Decodes u.codec fuel d chunks r) ∧
      (∀ chunk ∈ chunks, chunk.length ≤ u.limits.recordMaxBytes.toNat) ∧
      Ends u (emitted ++ chunks.flatten) r := by
  induction hm : u.limits.recordMaxBytes.toNat - emitted.length using Nat.strongRecOn
    generalizing d told p emitted with
  | ind m ih =>
    obtain ⟨n, hahead⟩ := exists_ahead d.source.inner
    have hleft : ∀ {s : DigestingPayload BodyChannel} {n slice s'}, Ahead s.inner n →
        PullSource.pull s FEED_SLICE_BYTES = (.ok slice, s') →
        ∃ n', Ahead s'.inner n' ∧ n' + slice.length ≤ n :=
      fun hahead hpull => hahead.read (pull_digesting hpull).1
    obtain ⟨⟨result, d'⟩, hnext, hhanded⟩ := exists_nextChunk hleft h hahead
    rcases result with error | _ | chunk
    · exact ⟨n + 2, [], .error error, fun fuel hfuel => .failed (hnext fuel hfuel),
        forall_mem_nil _, trivial⟩
    · cases hhanded with
      | @drained p d hstage =>
        refine ⟨n + 2, [], .ok _, fun fuel hfuel => .ended (hnext fuel hfuel), forall_mem_nil _, p, ?_⟩
        rw [flatten_nil, append_nil]
        exact { hstage with drained := rfl }
    obtain ⟨hne, told', p', hstage⟩ := hhanded.chunk
    have hpos := length_pos_iff.mpr hne
    have hbound := (enforce_ok.mp hstage.within).1
    rw [length_append] at hbound
    have hlt : u.limits.recordMaxBytes.toNat - (emitted ++ chunk).length < m := by
      rw [length_append]
      omega
    obtain ⟨fuel1, chunks, r, hdecodes, hsizes, hends⟩ := ih _ hlt hstage rfl
    refine ⟨max (n + 2) fuel1, chunk :: chunks, r, fun fuel hfuel => ?_, ?_, ?_⟩
    · exact .chunk (hnext fuel (by omega)) (hdecodes fuel (by omega))
    · exact forall_mem_cons.mpr ⟨by omega, hsizes⟩
    · rwa [flatten_cons, ← append_assoc]

/-! ## The iterator -/

/-- The iterator at its end, after it has handed out `handed`. -/
def concluded (ed25519 : Verifier) (chunks : DrainChunks δ) (handed : List UInt8)
    (r : Except TransportDecodeError (TransportDecoder δ (DigestingPayload BodyChannel))) :
    DrainChunks δ :=
  let chunks := { chunks with
    decoder := none
    drainedBytes := chunks.drainedBytes + handed.length
    canonical := Sha256.update chunks.canonical handed }
  match r with
  | .error error => chunks.refuse (decodeFailure error)
  | .ok d =>
    match closing d.source.inner.tokenizer with
    | (.error error, _) => chunks.refuse (.parse (.framing error))
    | (.ok (), tokenizer) =>
      chunks.decide ed25519 tokenizer.source.requestHasher d.source.transport

theorem exists_slices {parts} (h : ∀ part ∈ parts, part.length < 2 ^ 63) :
    ∃ canonical : List Slice, canonical.map (·.bytes) = parts := by
  induction parts with
  | nil => exact ⟨[], rfl⟩
  | cons part parts ih =>
    obtain ⟨hpart, hparts⟩ := forall_mem_cons.mp h
    obtain ⟨canonical, rfl⟩ := ih hparts
    exact ⟨⟨part, hpart⟩ :: canonical, rfl⟩

theorem all_of_decodes {ed25519 fuel} {parts} {r} (h : Decodes codec fuel d parts r)
    (hended : ∀ d', r = .ok d' → d'.source.inner.ended = true) {rounds}
    (hrounds : parts.length < rounds) {canonical} (hbytes : canonical.map (·.bytes) = parts)
    (chunks : DrainChunks δ) (hdecoder : chunks.decoder = some d) :
    chunks.all ed25519 codec fuel rounds =
      some (canonical, concluded ed25519 chunks parts.flatten r) := by
  induction h generalizing rounds canonical chunks with
  | @failed d d' error hnext =>
    obtain ⟨rounds, rfl⟩ := Nat.exists_eq_add_one.mpr (Nat.zero_lt_of_lt hrounds)
    obtain rfl := map_eq_nil_iff.mp hbytes
    simp [DrainChunks.all, DrainChunks.next, hdecoder, hnext, concluded, Sha256.update_nil]
  | @ended d d' hnext =>
    obtain ⟨rounds, rfl⟩ := Nat.exists_eq_add_one.mpr (Nat.zero_lt_of_lt hrounds)
    obtain rfl := map_eq_nil_iff.mp hbytes
    have hfinish : finishing fuel d'.source.inner = some (closing d'.source.inner.tokenizer) := by
      rw [finishing, if_pos (hended d' rfl)]
    simp only [DrainChunks.all, DrainChunks.next, hdecoder, hnext, hfinish, concluded,
      flatten_nil, length_nil, Nat.add_zero, Sha256.update_nil]
    rcases closing d'.source.inner.tokenizer with ⟨_ | _, tokenizer⟩ <;> rfl
  | @chunk d d' part parts r hnext _ ih =>
    obtain ⟨rounds, rfl⟩ := Nat.exists_eq_add_one.mpr (Nat.zero_lt_of_lt hrounds)
    obtain ⟨first, rest, rfl, rfl, rfl⟩ := map_eq_cons_iff.mp hbytes
    let chunks' : DrainChunks δ := { chunks with
      decoder := some d'
      drainedBytes := chunks.drainedBytes + first.bytes.length
      canonical := Sha256.update chunks.canonical first.bytes }
    have hall := ih hended (Nat.lt_of_succ_lt_succ hrounds) rfl chunks' rfl
    have hsame : concluded ed25519 chunks' (rest.map (·.bytes)).flatten r =
        concluded ed25519 chunks (first.bytes :: rest.map (·.bytes)).flatten r := by
      simp only [concluded, chunks', flatten_cons, length_append, Nat.add_assoc,
        Sha256.update_update]
    simp only [DrainChunks.all, DrainChunks.next, hdecoder, hnext, dif_pos first.fits]
    change (chunks'.all ed25519 codec fuel rounds).map _ = _
    rw [hall, hsame]
    rfl

end

/-! ## What was decided -/

section
variable {ε : Type} {scheme : SignatureScheme} (state : ServerState δ ε scheme) (attempt : Attempt)

/-- What the transport stage makes of the payload, and how it ends. -/
def Decoded (canonical : List UInt8) (r : Except TransportDecodeError (Nat × Nat)) : Prop :=
  ∃ fuel, TransportDecoder.decode state.codec attempt.envelope.transportEncoding attempt.source
    state.config.limits fuel = some (canonical, r)

/-- The body is the envelope and the payload, framed, with nothing after them. -/
def ClosesPast (f : RequestFraming) (body payload : List UInt8) : Prop :=
  ∃ partOne, IngestEnvelope.parse partOne = .ok attempt.envelope ∧
    body = framedBody f [⟨ENVELOPE_PART_MEDIA_TYPE, partOne⟩, ⟨attempt.stream.mediaType, payload⟩]

/-- The request as it is presented, with the digests of what was received. -/
def presented (body payload canonical : List UInt8) : PresentedRequest :=
  presentedRequest attempt.envelope
    { requestContent := digestOf body
      envelope := attempt.envelope.envelopeDigest
      payloadCanonical := digestOf canonical
      payloadTransport := digestOf payload }

/-- The decision on the request as it is presented. -/
def authorization (scheme : SignatureScheme) (body payload canonical : List UInt8) :
    Except AuthRejection AuthorizedAttempt :=
  authorizeAttempt scheme.verify attempt.record (presented attempt body payload canonical)
    attempt.evidence attempt.now

/-- All checks of the drain passed. -/
structure Accepted (f : RequestFraming) (body payload canonical : List UInt8) : Prop where
  decoded : Decoded state attempt canonical (.ok (canonical.length, payload.length))
  closed : ClosesPast attempt f body payload
  size : canonical.length = attempt.envelope.uncompressedSize.value.toNat
  authorized : ∃ authorized, authorization attempt scheme body payload canonical = .ok authorized

/-- The first check of the drain that failed. -/
inductive Refused (f : RequestFraming) (body : List UInt8) : ServerFailure → Prop
  | decode {canonical : List UInt8} {error : TransportDecodeError} :
      Decoded state attempt canonical (.error error) → Refused f body (decodeFailure error)
  | closing {canonical payload : List UInt8} {s : PayloadStream BodyChannel} {error : TwoPartError} :
      Decoded state attempt canonical (.ok (canonical.length, payload.length)) →
      ReadFrom attempt.stream.tokenizer s payload → s.ended = true →
      s.finish 0 = some (.error error) → Refused f body (.parse (.framing error))
  | size {canonical payload : List UInt8} :
      Decoded state attempt canonical (.ok (canonical.length, payload.length)) →
      ClosesPast attempt f body payload →
      canonical.length ≠ attempt.envelope.uncompressedSize.value.toNat →
      Refused f body declaredSizeMismatch
  | authorization {canonical payload : List UInt8} {rejection : AuthRejection} :
      Decoded state attempt canonical (.ok (canonical.length, payload.length)) →
      ClosesPast attempt f body payload →
      canonical.length = attempt.envelope.uncompressedSize.value.toNat →
      authorization attempt scheme body payload canonical = .error rejection →
      Refused f body (.authorization rejection)

/-- What the iterator ended with, having handed out `canonical`. -/
def Verdict (f : RequestFraming) (body canonical : List UInt8) (verdict : DrainChunks δ) : Prop :=
  (verdict.gate = false ∧ ∃ failure, verdict.cause = some failure ∧
    Refused state attempt f body failure) ∨
  (verdict.gate = true ∧ verdict.cause = none ∧ ∃ payload,
    Accepted state attempt f body payload canonical ∧
    (attempt.envelope.transportEncoding = .identity → canonical = payload))

variable {state attempt} {f : RequestFraming} {chunks : List (List UInt8)} {cap : Nat}
  {decoder : TransportDecoder δ (DigestingPayload BodyChannel)}

/-- **The drain ends with a verdict**, and enough fuel finds it. -/
theorem drain_verdict
    (hparse : parseIngestWithCap f (.fed chunks) cap = .ok (attempt.envelope, attempt.stream))
    (hnew : TransportDecoder.new state.codec attempt.envelope.transportEncoding attempt.source
      state.config.limits = .ok decoder) :
    ∃ fuel₀ canonical verdict, (∀ fuel, fuel₀ ≤ fuel →
        (attempt.chunks decoder).all scheme.verify state.codec fuel fuel = some (canonical, verdict)) ∧
      Verdict state attempt f chunks.flatten (stream canonical) verdict := by
  have hstage : Stage ⟨state.codec, attempt.envelope.transportEncoding, state.config.limits,
      attempt.source⟩ false [] [] decoder := stage_new hnew
  obtain ⟨fuel₀, parts, r, hdecodes, hsizes, hends⟩ := exists_decodes hstage
  obtain ⟨-, -, -, hstart⟩ := parse_reaches hparse
  have hfits : ∀ part ∈ parts, part.length < 2 ^ 63 := fun part hpart => by
    have hlimit : state.config.limits.recordMaxBytes.toNat ≤ BYTE_MAX := state.config.record.2
    exact Nat.lt_of_le_of_lt ((hsizes part hpart).trans hlimit) (by decide)
  obtain ⟨canonical, rfl⟩ := exists_slices hfits
  have hended : ∀ d', r = .ok d' → d'.source.inner.ended = true := by
    rintro d' rfl
    exact (hends.read hstart rfl).1
  have hstream : (canonical.map (·.bytes)).flatten = stream canonical := flatMap_def.symm
  refine ⟨max fuel₀ ((canonical.map (·.bytes)).length + 1), canonical,
    concluded scheme.verify (attempt.chunks decoder) (stream canonical) r, fun fuel hfuel => ?_, ?_⟩
  · exact all_of_decodes (hdecodes fuel (by omega)) hended (by omega) rfl _ rfl
  have hdecoded : Decoded state attempt (stream canonical) (r.map totals) := by
    obtain ⟨fuel, hfuel, hrounds⟩ :
        ∃ fuel, fuel₀ ≤ fuel ∧ (canonical.map (·.bytes)).length < fuel :=
      ⟨max fuel₀ ((canonical.map (·.bytes)).length + 1), by omega, by omega⟩
    have hdrive := (hdecodes fuel hfuel).drive hrounds []
    refine ⟨fuel, ?_⟩
    rw [TransportDecoder.decode, hnew]
    exact hdrive
  cases r with
  | error error => exact .inl ⟨rfl, _, rfl, .decode hdecoded⟩
  | ok d =>
    obtain ⟨hdone, payload, hread, htransport, htransported, hproduced, hplain⟩ :=
      hends.read hstart rfl
    have htotals : totals d = ((stream canonical).length, payload.length) :=
      Prod.ext hproduced htransported
    change Decoded state attempt (stream canonical) (.ok (totals d)) at hdecoded
    rw [htotals] at hdecoded
    unfold concluded
    dsimp only
    cases hclosing : closing d.source.inner.tokenizer with
    | mk result tokenizer =>
      cases result with
      | error error =>
        refine .inl ⟨rfl, _, rfl, .closing hdecoded hread hdone ?_⟩
        rw [PayloadStream.finish, if_pos hdone, ← closing_fst, hclosing]
      | ok u =>
        have hfinish : finishing 0 d.source.inner = some (.ok (), tokenizer) := by
          rw [finishing, if_pos hdone, hclosing]
        obtain ⟨hclosed, hhasher⟩ := closed_body hparse hread hdone hfinish
        dsimp only
        rw [hhasher, htransport]
        unfold DrainChunks.decide
        dsimp only
        rw [show (attempt.chunks decoder).drainedBytes = 0 from rfl, Nat.zero_add]
        by_cases hsize : (stream canonical).length = (attempt.chunks decoder).declaredBytes.toNat
        · rw [if_neg (not_not_intro hsize)]
          split
          · rename_i authorized hauthorized
            exact .inr ⟨rfl, rfl, payload, ⟨hdecoded, hclosed, hsize, authorized, hauthorized⟩, hplain⟩
          · rename_i rejection hauthorized
            exact .inl ⟨rfl, _, rfl, .authorization hdecoded hclosed hsize hauthorized⟩
        · rw [if_pos hsize]
          exact .inl ⟨rfl, _, rfl, .size hdecoded hclosed hsize⟩

end

end AgentArchivist.Server.DrainVerdict
