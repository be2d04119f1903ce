import AgentArchivist.Server.Framing

/-! # The two-part policy over the framing tokenizer

`TwoPartRequest.envelope` collects part one up to the cap, `payload` opens part
two, `PayloadStream.read` copies it out in pieces of the caller's size and
`finish` drains the rest and checks that the body closes. -/
namespace AgentArchivist.Server.Parts
open Protocol.Vocabulary Server.Framing FramingTokenizer

def ENVELOPE_PART_MEDIA_TYPE : String := "application/vnd.agent-archivist.envelope+json;version=1"

def DEFAULT_ENVELOPE_MAX_BYTES : Nat := 65536

inductive TwoPartError where
  | envelopeNotFirst
  | envelopeExceedsCap (limitBytes : Nat)
  | payloadPartMissing
  | trailingPart
  | framing (e : FramingError)
deriving DecidableEq, Repr

def TwoPartError.code : TwoPartError → ErrorCode
  | .envelopeExceedsCap _ => ⟨"envelope.size_exceeded", by decide⟩
  | .envelopeNotFirst => ⟨"envelope.media_type_unsupported", by decide⟩
  | .payloadPartMissing | .trailingPart | .framing _ => framingInvalid

variable {σ : Type} [ByteSource σ]

/-- A payload event leaves the payload stage, or has bytes in it; it fits the window. -/
theorem payload_follows {t t' : FramingTokenizer σ} {run : List UInt8}
    (h : t.nextEvent = (.ok (some (.payload run)), t')) :
    t.stage = .payload ∧ (t'.stage = .payload ∧ run ≠ [] ∨ t'.stage = .afterBoundary) ∧
      run.length ≤ FRAMING_WINDOW_BYTES := by
  obtain ⟨stage, hc, hf⟩ := nextEvent_follows h
  generalize t'.stage = stage' at hf ⊢
  cases hf with
  | run hne hle =>
    obtain hs | ⟨-, hs⟩ := hc
    · exact ⟨hs.symm, .inl ⟨rfl, hne⟩, hle⟩
    · cases hs
  | last hle =>
    obtain hs | ⟨-, hs⟩ := hc
    · exact ⟨hs.symm, .inr rfl, hle⟩
    · cases hs

/-! ## Part one -/

structure TwoPartRequest (σ : Type) where
  tokenizer : FramingTokenizer σ
  envelopeCap : Nat

namespace TwoPartRequest

def withEnvelopeCap (framing : RequestFraming) (source : σ) (envelopeCap : Nat) :
    TwoPartRequest σ :=
  ⟨.new framing source, envelopeCap⟩

def new (framing : RequestFraming) (source : σ) : TwoPartRequest σ :=
  withEnvelopeCap framing source DEFAULT_ENVELOPE_MAX_BYTES

/-- How often the collecting loop can still go around. -/
def runsLeft (cap : Nat) (bytes : List UInt8) (t : FramingTokenizer σ) : Nat :=
  2 * (cap - bytes.length) + if t.stage = .payload then 1 else 0

variable {t t' : FramingTokenizer σ}

theorem runsLeft_lt {cap} {bytes run : List UInt8}
    (h : t.nextEvent = (.ok (some (.payload run)), t')) (hcap : ¬ bytes.length + run.length > cap) :
    runsLeft cap (bytes ++ run) t' < runsLeft cap bytes t := by
  obtain ⟨hs, ⟨hs', hne⟩ | hs', -⟩ := payload_follows h
  · have := List.length_pos_iff.mpr hne
    simp only [runsLeft, hs, hs', List.length_append, if_true]
    omega
  · simp only [runsLeft, hs, hs', List.length_append, if_true, reduceCtorEq, if_false]
    omega

/-- The loop of `envelope`: keep the runs of the part, refuse the one that crosses the cap. -/
def collect (cap : Nat) (bytes : List UInt8) (t : FramingTokenizer σ) :
    Except TwoPartError (List UInt8) × FramingTokenizer σ :=
  match h : t.nextEvent with
  | (.error e, t') => (.error (.framing e), t')
  | (.ok none, t') => (.error (.framing .unexpectedEndOfStream), t')
  | (.ok (some (.payload run)), t') =>
    if hcap : bytes.length + run.length > cap then (.error (.envelopeExceedsCap cap), t')
    else
      have := runsLeft_lt h hcap
      collect cap (bytes ++ run) t'
  | (.ok (some .partEnded), t') => (.ok bytes, t')
  | (.ok (some .partStarted), t') | (.ok (some (.partContentType _)), t')
  | (.ok (some .endOfParts), t') => (.error (.framing .malformedDelimiter), t')
termination_by runsLeft cap bytes t

theorem collect_payload {cap} {bytes run} (h : t.nextEvent = (.ok (some (.payload run)), t'))
    (hle : bytes.length + run.length ≤ cap) :
    collect cap bytes t = collect cap (bytes ++ run) t' := by
  rw [collect]
  split <;> rename_i h' <;> rw [h] at h' <;> cases h'
  rw [dif_neg (by omega)]

theorem collect_ended {cap bytes} (h : t.nextEvent = (.ok (some .partEnded), t')) :
    collect cap bytes t = (.ok bytes, t') := by
  rw [collect]
  split <;> rename_i h' <;> rw [h] at h' <;> cases h'
  rfl

def envelope (r : TwoPartRequest σ) : Except TwoPartError (List UInt8) × TwoPartRequest σ :=
  match r.tokenizer.nextEvent with
  | (.error e, t) => (.error (.framing e), { r with tokenizer := t })
  | (.ok none, t) => (.error (.framing .unexpectedEndOfStream), { r with tokenizer := t })
  | (.ok (some .partStarted), t) =>
    match t.nextEvent with
    | (.error e, t) => (.error (.framing e), { r with tokenizer := t })
    | (.ok none, t) => (.error (.framing .unexpectedEndOfStream), { r with tokenizer := t })
    | (.ok (some (.partContentType mediaType)), t) =>
      if mediaType = ENVELOPE_PART_MEDIA_TYPE then
        let (result, t) := collect r.envelopeCap [] t
        (result, { r with tokenizer := t })
      else (.error .envelopeNotFirst, { r with tokenizer := t })
    | (.ok (some _), t) => (.error (.framing .malformedDelimiter), { r with tokenizer := t })
  | (.ok (some _), t) => (.error (.framing .malformedDelimiter), { r with tokenizer := t })

end TwoPartRequest

/-! ## Part two -/

structure PayloadStream (σ : Type) where
  tokenizer : FramingTokenizer σ
  remainder : List UInt8
  remainderPos : Nat
  mediaType : String
  ended : Bool

/-- Consume the handle: part two as a stream. -/
def TwoPartRequest.payload (r : TwoPartRequest σ) : Except TwoPartError (PayloadStream σ) :=
  match r.tokenizer.nextEvent with
  | (.error e, _) => .error (.framing e)
  | (.ok none, _) => .error (.framing .unexpectedEndOfStream)
  | (.ok (some .partStarted), t) =>
    match t.nextEvent with
    | (.error e, _) => .error (.framing e)
    | (.ok none, _) => .error (.framing .unexpectedEndOfStream)
    | (.ok (some (.partContentType mediaType)), t) => .ok ⟨t, [], 0, mediaType, false⟩
    | (.ok (some _), _) => .error (.framing .malformedDelimiter)
  | (.ok (some .endOfParts), _) => .error .payloadPartMissing
  | (.ok (some _), _) => .error (.framing .malformedDelimiter)

namespace PayloadStream

def bufferedBytes (s : PayloadStream σ) : Nat :=
  s.tokenizer.windowLen + s.remainder.length - s.remainderPos

/-- How many events a read can still pass over before it has to stop. -/
def skipsLeft : Stage → Nat
  | .opening | .nextPartOpening => 3
  | .headers => 2
  | .payload | .afterClose => 1
  | .afterBoundary | .closingPart | .done => 0

variable {t t' : FramingTokenizer σ}

theorem skipsLeft_lt {e} (h : t.nextEvent = (.ok (some e), t'))
    (hrun : e = .payload [] ∨ ∀ run, e ≠ .payload run) (hended : e ≠ .partEnded) :
    skipsLeft t'.stage < skipsLeft t.stage := by
  obtain ⟨stage, hc, hf⟩ := nextEvent_follows h
  generalize t'.stage = stage' at hf ⊢
  obtain hs | ⟨-, hs⟩ := hc
  · rw [← hs]
    cases hf <;> simp_all [skipsLeft]
  · cases hf <;> simp_all

/-- The loop of `read`: the next run that is not empty, or nothing at the part's end. -/
def nextRun (t : FramingTokenizer σ) :
    Except ErrorKind (Option (List UInt8)) × FramingTokenizer σ :=
  match h : t.nextEvent with
  | (.ok (some (.payload run)), t') =>
    if hrun : run = [] then
      have := skipsLeft_lt h (.inl (by rw [hrun])) (by simp)
      nextRun t'
    else (.ok (some run), t')
  | (.ok (some .partEnded), t') => (.ok none, t')
  | (.ok (some .partStarted), t') =>
    have := skipsLeft_lt h (.inr (by simp)) (by simp)
    nextRun t'
  | (.ok (some (.partContentType _)), t') =>
    have := skipsLeft_lt h (.inr (by simp)) (by simp)
    nextRun t'
  | (.ok (some .endOfParts), t') =>
    have := skipsLeft_lt h (.inr (by simp)) (by simp)
    nextRun t'
  | (.ok none, t') => (.error .unexpectedEof, t')
  | (.error (.sourceRead kind), t') => (.error kind, t')
  | (.error .unexpectedEndOfStream, t') => (.error .unexpectedEof, t')
  | (.error _, t') => (.error .invalidData, t')
termination_by skipsLeft t.stage

theorem nextRun_payload {run} (h : t.nextEvent = (.ok (some (.payload run)), t')) :
    nextRun t = if run = [] then nextRun t' else (.ok (some run), t') := by
  rw [nextRun]
  split <;> rename_i h' <;> rw [h] at h' <;> cases h'
  rw [dite_eq_ite]

theorem nextRun_ended (h : t.nextEvent = (.ok (some .partEnded), t')) : nextRun t = (.ok none, t') := by
  rw [nextRun]
  split <;> rename_i h' <;> rw [h] at h' <;> cases h'
  rfl

/-- A read into a buffer of `room` bytes: the bytes copied. -/
def read (s : PayloadStream σ) (room : Nat) : Except ErrorKind (List UInt8) × PayloadStream σ :=
  if room = 0 ∨ s.ended then (.ok [], s)
  else if s.remainderPos < s.remainder.length then
    let chunk := (s.remainder.drop s.remainderPos).take room
    (.ok chunk, { s with remainderPos := s.remainderPos + chunk.length })
  else
    match nextRun s.tokenizer with
    | (.error kind, t) => (.error kind, { s with tokenizer := t })
    | (.ok none, t) => (.ok [], { s with tokenizer := t, ended := true })
    | (.ok (some run), t) =>
      if min run.length room < run.length then
        (.ok (run.take room),
          { s with tokenizer := t, remainder := run.drop room, remainderPos := 0 })
      else (.ok (run.take room), { s with tokenizer := t })

/-- The draining loop of `finish`, at most `fuel` times around. -/
def drain : Nat → FramingTokenizer σ → Option (Except TwoPartError Unit × FramingTokenizer σ)
  | 0, _ => none
  | fuel + 1, t =>
    match t.nextEvent with
    | (.error e, t') => some (.error (.framing e), t')
    | (.ok (some (.payload _)), t') => drain fuel t'
    | (.ok (some .partEnded), t') => some (.ok (), t')
    | (.ok (some _), t') => some (.error (.framing .malformedDelimiter), t')
    | (.ok none, t') => some (.error (.framing .unexpectedEndOfStream), t')

/-- The closing delimiter, and nothing after it. -/
def checkClosed (t : FramingTokenizer σ) : Except TwoPartError Unit :=
  match t.nextEvent with
  | (.error e, _) => .error (.framing e)
  | (.ok (some .endOfParts), t) =>
    match t.nextEvent with
    | (.error e, _) => .error (.framing e)
    | (.ok none, _) => .ok ()
    | (.ok (some _), _) => .error .trailingPart
  | (.ok (some .partStarted), _) | (.ok (some (.partContentType _)), _) => .error .trailingPart
  | (.ok (some (.payload _)), _) | (.ok (some .partEnded), _) | (.ok none, _) =>
    .error (.framing .malformedDelimiter)

/-- Drain what is unread and check that the body closes; `none` when the fuel ran out first. -/
def finish (fuel : Nat) (s : PayloadStream σ) : Option (Except TwoPartError Unit) :=
  if s.ended then some (checkClosed s.tokenizer)
  else
    match drain fuel s.tokenizer with
    | none => none
    | some (.error e, _) => some (.error e)
    | some (.ok (), t) => some (checkClosed t)

end PayloadStream

end AgentArchivist.Server.Parts
