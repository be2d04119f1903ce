import AgentArchivist.Lib.Loop
import AgentArchivist.Server.Framing

/-! # The transport decoder

Part two is read in slices of at most 256 bytes, decoded, and handed out in chunks. The
two limits are enforced against the running totals after every slice. The profile decoder is
a parameter: whatever it is, it works over states of its own. -/
namespace AgentArchivist.Server.Transport
open Lib.Loop Lib.Source Protocol.Vocabulary Server.Framing

def TARGET_CHUNK_BYTES : Nat := 16 * 1024 * 1024
def FEED_SLICE_BYTES : Nat := 256

structure DecodeLimits where
  recordMaxBytes : UInt64
  maxExpansionRatio : UInt64
deriving DecidableEq

inductive TransportDecodeError where
  | recordTooLarge (actualBytes : Nat) (limitBytes : UInt64)
  | expansionRatioExceeded (maxRatio : UInt64)
  | malformedFrame (detail : String)
  | sourceRead (kind : ErrorKind)
  | codecSetup
deriving DecidableEq

def TransportDecodeError.code : TransportDecodeError → ErrorCode
  | .recordTooLarge _ _ => ⟨"request.record_too_large", by decide⟩
  | .expansionRatioExceeded _ => ⟨"request.expansion_ratio_exceeded", by decide⟩
  | .malformedFrame _ | .sourceRead _ => framingInvalid
  | .codecSetup => ⟨"server.internal", by decide⟩

/-- Both limits against the totals; the product does not wrap. -/
def DecodeLimits.enforce (limits : DecodeLimits) (canonical transport : Nat) :
    Except TransportDecodeError Unit :=
  if canonical > limits.recordMaxBytes.toNat then
    .error (.recordTooLarge canonical limits.recordMaxBytes)
  else if canonical > limits.maxExpansionRatio.toNat * transport then
    .error (.expansionRatioExceeded limits.maxExpansionRatio)
  else .ok ()

/-- The profile decoder, over its own states: what a call appends to the output, or the detail of
its refusal. -/
structure Codec (δ : Type) where
  new : Option δ
  update : δ → List UInt8 → Except String (List UInt8) × δ
  finish : δ → Except String (List UInt8) × δ

structure TransportDecoder (δ σ : Type) where
  encoding : TransportEncoding
  source : σ
  limits : DecodeLimits
  decoder : Option δ
  chunk : List UInt8
  transportTotal : Nat
  canonicalTotal : Nat
  sourceEnded : Bool
  drained : Bool
  failure : Option TransportDecodeError

namespace TransportDecoder
variable {δ σ : Type} [ByteSource σ] (codec : Codec δ)

/-- A stage that has read nothing. -/
def opened (encoding : TransportEncoding) (source : σ) (limits : DecodeLimits)
    (decoder : Option δ) : TransportDecoder δ σ where
  encoding := encoding
  source := source
  limits := limits
  decoder := decoder
  chunk := []
  transportTotal := 0
  canonicalTotal := 0
  sourceEnded := false
  drained := false
  failure := none

def new (encoding : TransportEncoding) (source : σ) (limits : DecodeLimits) :
    Except TransportDecodeError (TransportDecoder δ σ) :=
  match encoding with
  | .identity => .ok (opened .identity source limits none)
  | .zstd =>
    match codec.new with
    | none => .error .codecSetup
    | some state => .ok (opened .zstd source limits (some state))

/-- Record the first failure and hand it back. -/
def fail {α : Type} (d : TransportDecoder δ σ) (error : TransportDecodeError) :
    Except TransportDecodeError α × TransportDecoder δ σ :=
  (.error error, { d with failure := some error })

def enforceLimits (d : TransportDecoder δ σ) : Except TransportDecodeError Unit :=
  d.limits.enforce d.canonicalTotal d.transportTotal

/-- One slice into the chunk: how many canonical bytes it produced. -/
def decodeStep (d : TransportDecoder δ σ) (slice : List UInt8) :
    Except TransportDecodeError Nat × TransportDecoder δ σ :=
  match d.decoder with
  | none => (.ok slice.length, { d with chunk := d.chunk ++ slice })
  | some state =>
    match codec.update state slice with
    | (.error detail, state) => (.error (.malformedFrame detail), { d with decoder := some state })
    | (.ok output, state) =>
      (.ok output.length, { d with decoder := some state, chunk := d.chunk ++ output })

/-- The last chunk, or the end of the stream. -/
def lastChunk (d : TransportDecoder δ σ) :
    Except TransportDecodeError (Option (List UInt8)) × TransportDecoder δ σ :=
  if d.chunk = [] then (.ok none, { d with drained := true }) else (.ok (some d.chunk), d)

/-- End of source: drain what the frame buffered, then emit the final chunk or close. -/
def finishChunk (d : TransportDecoder δ σ) :
    Except TransportDecodeError (Option (List UInt8)) × TransportDecoder δ σ :=
  match d.decoder with
  | none => d.lastChunk
  | some state =>
    match codec.finish state with
    | (.error detail, state) => { d with decoder := some state }.fail (.malformedFrame detail)
    | (.ok output, state) =>
      let d := { d with
        decoder := some state
        chunk := d.chunk ++ output
        canonicalTotal := d.canonicalTotal + output.length }
      match d.enforceLimits with
      | .error error => d.fail error
      | .ok () => d.lastChunk

/-- The body of the loop of `nextChunk`. -/
def turn (d : TransportDecoder δ σ) : Turn (TransportDecoder δ σ)
    (Except TransportDecodeError (Option (List UInt8)) × TransportDecoder δ σ) :=
  if d.chunk.length ≥ TARGET_CHUNK_BYTES then .leave (.ok (some d.chunk), d)
  else if d.sourceEnded then .leave (d.finishChunk codec)
  else
    match PullSource.pull d.source FEED_SLICE_BYTES with
    | (.error kind, source) => .leave ({ d with source := source }.fail (.sourceRead kind))
    | (.ok slice, source) =>
      let d := { d with source := source }
      if slice = [] then .again { d with sourceEnded := true }
      else
        match d.decodeStep codec slice with
        | (.error error, d) => .leave (d.fail error)
        | (.ok produced, d) =>
          let d := { d with
            transportTotal := d.transportTotal + slice.length
            canonicalTotal := d.canonicalTotal + produced }
          match d.enforceLimits with
          | .error error => .leave (d.fail error)
          | .ok () => .again d

/-- The next chunk, or nothing once the stream is complete; at most `fuel` times around. -/
def nextChunk (fuel : Nat) (d : TransportDecoder δ σ) :
    Option (Except TransportDecodeError (Option (List UInt8)) × TransportDecoder δ σ) :=
  let d := { d with chunk := [] }
  match d.failure with
  | some error => some (.error error, d)
  | none =>
    if d.drained then some (.ok none, d)
    else (turns (turn codec) fuel d).map Prod.snd

theorem nextChunk_running {fuel} {d : TransportDecoder δ σ} (hfailure : d.failure = none)
    (hdrained : d.drained = false) :
    d.nextChunk codec fuel = (turns (turn codec) fuel { d with chunk := [] }).map Prod.snd := by
  cases d
  subst hfailure hdrained
  rfl

/-- `nextChunk` until the stream ends or fails: the bytes handed out, and the totals (canonical,
transport) or the error. -/
def drive (fuel : Nat) : Nat → TransportDecoder δ σ → List UInt8 →
    Option (List UInt8 × Except TransportDecodeError (Nat × Nat))
  | 0, _, _ => none
  | rounds + 1, d, emitted =>
    match d.nextChunk codec fuel with
    | none => none
    | some (.error error, _) => some (emitted, .error error)
    | some (.ok none, d) => some (emitted, .ok (d.canonicalTotal, d.transportTotal))
    | some (.ok (some chunk), d) => drive fuel rounds d (emitted ++ chunk)

/-- A whole decode: the stage is built and driven to its end. -/
def decode (encoding : TransportEncoding) (source : σ) (limits : DecodeLimits) (fuel : Nat) :
    Option (List UInt8 × Except TransportDecodeError (Nat × Nat)) :=
  match new codec encoding source limits with
  | .error error => some ([], .error error)
  | .ok d => drive codec fuel fuel d []

end TransportDecoder

end AgentArchivist.Server.Transport
