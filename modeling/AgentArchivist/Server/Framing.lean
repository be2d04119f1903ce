import AgentArchivist.Lib.Events
import AgentArchivist.Lib.Search
import AgentArchivist.Lib.Source
import AgentArchivist.Protocol.Vocabulary

/-! # The `multipart/related` framing layer

`RequestFraming.validateContentType` checks the request header on its own;
`FramingTokenizer.nextEvent` walks the body, pulling source bytes into a window
of `FRAMING_WINDOW_BYTES` bytes and yielding one framed item per call. The loop
of the source is cut into its turns (`step`): a turn refills the window and goes
around, yields an event, reports the end, or fails. -/
namespace AgentArchivist.Server.Framing
open Lib
open Utf8 Search Source Protocol.Vocabulary

def FRAMING_WINDOW_BYTES : Nat := 8 * 1024

def CONTENT_TYPE_HEADER_PREFIX : List UInt8 := utf8 "content-type: "

def CRLF : List UInt8 := [0x0d, 0x0a]

/-- The closed kinds a byte source fails with. -/
inductive ErrorKind where
  | notFound | permissionDenied | connectionRefused | connectionReset | connectionAborted
  | notConnected | brokenPipe | alreadyExists | wouldBlock | invalidInput | invalidData
  | timedOut | writeZero | interrupted | unsupported | unexpectedEof | outOfMemory | other
deriving DecidableEq, Repr

inductive FramingError where
  | notMultipartRelated
  | boundaryInvalid
  | missingOpeningBoundary
  | malformedDelimiter
  | partHeaderMalformed
  | unexpectedEndOfStream
  | trailingBytesAfterClosingDelimiter
  | sourceRead (kind : ErrorKind)
deriving DecidableEq, Repr

/-- Every framing rejection has one wire code. -/
def framingInvalid : ErrorCode := ⟨"request.framing_invalid", by decide⟩

def FramingError.code (_ : FramingError) : ErrorCode := framingInvalid

/-! ## The request header -/

/-- A boundary that passed the header grammar. -/
structure RequestFraming where
  boundary : List UInt8
  nonempty : 1 ≤ boundary.length
  length_le : boundary.length ≤ 70
  charset : boundary.all isBoundaryChar = true

namespace RequestFraming

/-- The boundary parameter of an accepted header value, with what the grammar pinned of it. -/
def ofContentType (value : ContentType) : RequestFraming :=
  have h : 1 ≤ ((utf8 value.asStr).drop contentTypePrefix.length).length ∧
      ((utf8 value.asStr).drop contentTypePrefix.length).length ≤ 70 ∧
      ((utf8 value.asStr).drop contentTypePrefix.length).all isBoundaryChar = true := by
    have hv := value.valid
    simp only [contentTypeGrammar, Bool.and_eq_true, decide_eq_true_eq] at hv
    exact ⟨hv.1.1.2, hv.1.2, hv.2⟩
  ⟨(utf8 value.asStr).drop contentTypePrefix.length, h.1, h.2.1, h.2.2⟩

def validateContentType (header : String) : Except FramingError RequestFraming :=
  match (Text.parse header : Except GrammarError ContentType) with
  | .ok value => .ok (ofContentType value)
  | .error _ =>
    let mediaType := utf8 "multipart/related"
    let next := (utf8 header)[mediaType.length]?
    if mediaType.isPrefixOf (utf8 header) ∧ (next = none ∨ next = some 0x3b) then
      .error .boundaryInvalid
    else .error .notMultipartRelated

def dashBoundary (f : RequestFraming) : List UInt8 := utf8 "--" ++ f.boundary

def payloadDelimiter (f : RequestFraming) : List UInt8 := CRLF ++ f.dashBoundary

end RequestFraming

/-! ## The tokenizer -/

/-- A pull of request bytes: the trait of the source, over the closed error kinds. -/
abbrev ByteSource (σ : Type) := PullSource σ UInt8 ErrorKind

/-- A byte slice hands out as much as there is room for. -/
instance : ByteSource (List UInt8) where
  pull data room := (.ok (data.take room), data.drop room)
  length_le h := by
    cases h
    exact List.length_take_le ..

inductive FramingEvent where
  | partStarted
  | partContentType (value : String)
  | payload (run : List UInt8)
  | partEnded
  | endOfParts
deriving DecidableEq, Repr

inductive Stage where
  | opening
  | headers
  | payload
  | afterBoundary
  | afterClose
  | nextPartOpening
  | closingPart
  | done
deriving DecidableEq, Repr

/-- The window: `pos` consumed bytes, which nothing reads again, then the `live` ones. -/
structure Window where
  pos : Nat
  live : List UInt8
  fits : pos + live.length ≤ FRAMING_WINDOW_BYTES

namespace Window

def empty : Window := ⟨0, [], Nat.zero_le _⟩

/-- `window.len()`, consumed bytes included. -/
def len (w : Window) : Nat := w.pos + w.live.length

/-- `pos += n`; every caller stays within the live bytes. -/
def advance (w : Window) (n : Nat) : Window where
  pos := w.pos + min n w.live.length
  live := w.live.drop n
  fits := by
    have := w.fits
    simp only [List.length_drop]
    omega

end Window

structure FramingTokenizer (σ : Type) where
  source : σ
  framing : RequestFraming
  window : Window
  stage : Stage

/-- How one turn of the `next_event` loop ends. -/
inductive Turn (σ : Type) where
  | again (t : FramingTokenizer σ)
  | event (e : FramingEvent) (t : FramingTokenizer σ)
  | finished (t : FramingTokenizer σ)
  | error (e : FramingError) (t : FramingTokenizer σ)

namespace FramingTokenizer

variable {σ : Type} [ByteSource σ]

def new (framing : RequestFraming) (source : σ) : FramingTokenizer σ :=
  ⟨source, framing, Window.empty, .opening⟩

def windowLen (t : FramingTokenizer σ) : Nat := t.window.len

/-- The unconsumed bytes of the window. -/
def live (t : FramingTokenizer σ) : List UInt8 := t.window.live

def startsWith (t : FramingTokenizer σ) (pre : List UInt8) : Bool := pre.isPrefixOf t.live

def matchesAt (t : FramingTokenizer σ) (offset : Nat) (pre : List UInt8) : Bool :=
  pre.isPrefixOf (t.live.drop offset)

/-- Consume `n` bytes and go on in `stage`. -/
def consume (t : FramingTokenizer σ) (n : Nat) (stage : Stage) : FramingTokenizer σ :=
  { t with window := t.window.advance n, stage }

/-- Compact the window and pull into its free room: how many bytes arrived. A failed pull leaves
the window at the full length it was resized to. -/
def fill (t : FramingTokenizer σ) : Except FramingError Nat × FramingTokenizer σ :=
  if hfull : FRAMING_WINDOW_BYTES ≤ t.live.length then
    (.ok 0, { t with window := ⟨0, t.live, by have := t.window.fits; simp only [live]; omega⟩ })
  else
    match hp : PullSource.pull t.source (FRAMING_WINDOW_BYTES - t.live.length) with
    | (.error kind, source) =>
      let padding := List.replicate (FRAMING_WINDOW_BYTES - t.live.length) 0
      (.error (.sourceRead kind),
        { t with source, window := ⟨0, t.live ++ padding, by simp [padding]; omega⟩ })
    | (.ok chunk, source) =>
      have hc : chunk.length ≤ FRAMING_WINDOW_BYTES - t.live.length :=
        PullSource.length_le (s := t.source) (by rw [hp])
      (.ok chunk.length,
        { t with source, window := ⟨0, t.live ++ chunk, by simp; omega⟩ })

/-- Refill and go around; at the end of the stream fail with what `ended` says of the window. -/
def refill (t : FramingTokenizer σ) (ended : FramingTokenizer σ → FramingError) : Turn σ :=
  match t.fill with
  | (.error e, t') => .error e t'
  | (.ok 0, t') => .error (ended t') t'
  | (.ok (_ + 1), t') => .again t'

def stepOpening (t : FramingTokenizer σ) : Turn σ :=
  let dash := t.framing.dashBoundary
  if t.live.length < dash.length ∧ ¬ t.startsWith (dash.take t.live.length) then
    .error .missingOpeningBoundary t
  else if t.live.length < dash.length + 2 then
    t.refill fun t' =>
      if t'.startsWith dash then .unexpectedEndOfStream else .missingOpeningBoundary
  else if ¬ t.startsWith dash then .error .missingOpeningBoundary t
  else if ¬ t.matchesAt dash.length CRLF then .error .malformedDelimiter t
  else .event .partStarted (t.consume (dash.length + 2) .headers)

/-- The value of a header block: after the pinned prefix, not empty, and UTF-8. -/
def headerValue (block : List UInt8) : Option String :=
  if CONTENT_TYPE_HEADER_PREFIX.isPrefixOf block then
    let value := block.drop CONTENT_TYPE_HEADER_PREFIX.length
    if value.isEmpty then none else fromUtf8 value
  else none

def stepHeaders (t : FramingTokenizer σ) : Turn σ :=
  if t.startsWith CRLF then .error .partHeaderMalformed t
  else
    match position (CRLF ++ CRLF) t.live with
    | none =>
      -- the window's length counts the consumed bytes too
      if FRAMING_WINDOW_BYTES ≤ t.windowLen then .error .partHeaderMalformed t
      else t.refill fun _ => .unexpectedEndOfStream
    | some found =>
      match headerValue (t.live.take found) with
      | none => .error .partHeaderMalformed t
      | some value => .event (.partContentType value) (t.consume (found + 4) .payload)

def stepPayload (t : FramingTokenizer σ) : Turn σ :=
  let delimiter := t.framing.payloadDelimiter
  if t.live.length = 0 then t.refill fun _ => .unexpectedEndOfStream
  else
    match position delimiter t.live with
    | some found =>
      .event (.payload (t.live.take found)) (t.consume (found + delimiter.length) .afterBoundary)
    | none =>
      -- a delimiter split across the refill edge is still found after the fill
      let retain := delimiter.length - 1
      if retain < t.live.length then
        let emit := t.live.length - retain
        .event (.payload (t.live.take emit)) (t.consume emit .payload)
      else t.refill fun _ => .unexpectedEndOfStream

def stepAfterBoundary (t : FramingTokenizer σ) : Turn σ :=
  if t.live.length < 2 then t.refill fun _ => .unexpectedEndOfStream
  else if t.startsWith (utf8 "--") then .again (t.consume 2 .closingPart)
  else if t.startsWith CRLF then .event .partEnded (t.consume 2 .nextPartOpening)
  else .error .malformedDelimiter t

def stepAfterClose (t : FramingTokenizer σ) : Turn σ :=
  if t.live.length < 2 then t.refill fun _ => .unexpectedEndOfStream
  else if ¬ t.startsWith CRLF then .error .malformedDelimiter t
  else .event .endOfParts (t.consume 2 .done)

def stepDone (t : FramingTokenizer σ) : Turn σ :=
  if 0 < t.live.length then .error .trailingBytesAfterClosingDelimiter t
  else
    match t.fill with
    | (.error e, t') => .error e t'
    | (.ok 0, t') => .finished t'
    | (.ok (_ + 1), t') => .error .trailingBytesAfterClosingDelimiter t'

/-- One turn of the loop. -/
def step (t : FramingTokenizer σ) : Turn σ :=
  match t.stage with
  | .opening => t.stepOpening
  | .headers => t.stepHeaders
  | .payload => t.stepPayload
  | .afterBoundary => t.stepAfterBoundary
  | .closingPart => .event .partEnded { t with stage := .afterClose }
  | .afterClose => t.stepAfterClose
  | .nextPartOpening => .event .partStarted { t with stage := .headers }
  | .done => t.stepDone

/-- A turn that goes around has more live bytes, or has nothing left but an owed event. -/
def turnsLeft (t : FramingTokenizer σ) : Nat :=
  if t.stage = .closingPart then 0 else 1 + (FRAMING_WINDOW_BYTES - t.live.length)

omit [ByteSource σ] in
theorem live_length_le (t : FramingTokenizer σ) : t.live.length ≤ FRAMING_WINDOW_BYTES := by
  have := t.window.fits
  simp only [live]
  omega

variable {t t' : FramingTokenizer σ}

/-- Bytes that arrived stand behind the live ones, in the same stage. -/
theorem fill_ok {n} (h : t.fill = (.ok n, t')) :
    ∃ chunk, chunk.length = n ∧ t'.live = t.live ++ chunk ∧ t'.window.pos = 0 ∧
      t'.stage = t.stage ∧ t'.framing = t.framing := by
  unfold fill at h
  split at h
  · cases h
    exact ⟨[], rfl, by simp [live], rfl, rfl, rfl⟩
  split at h
  · cases h
  · rename_i chunk source _
    cases h
    exact ⟨chunk, rfl, rfl, rfl, rfl, rfl⟩

theorem refill_again {ended : FramingTokenizer σ → FramingError} (h : t.refill ended = .again t') :
    ∃ n, t.fill = (.ok (n + 1), t') := by
  unfold refill at h
  split at h
  · cases h
  · cases h
  · rename_i n t1 hf
    cases h
    exact ⟨n, hf⟩

/-- Which event can be yielded in which stage, and where it leads. -/
inductive Follows : Stage → FramingEvent → Stage → Prop
  | opened : Follows .opening .partStarted .headers
  | typed (value : String) : Follows .headers (.partContentType value) .payload
  | run {run : List UInt8} : run ≠ [] → run.length ≤ FRAMING_WINDOW_BYTES →
      Follows .payload (.payload run) .payload
  | last {run : List UInt8} : run.length ≤ FRAMING_WINDOW_BYTES →
      Follows .payload (.payload run) .afterBoundary
  | ended : Follows .afterBoundary .partEnded .nextPartOpening
  | closed : Follows .closingPart .partEnded .afterClose
  | reopened : Follows .nextPartOpening .partStarted .headers
  | endOfParts : Follows .afterClose .endOfParts .done

/-- What a turn can do. -/
inductive Moves (t : FramingTokenizer σ) : Turn σ → Prop
  | refilled (ended : FramingTokenizer σ → FramingError) : t.stage ≠ .closingPart →
      Moves t (t.refill ended)
  | dashes : t.stage = .afterBoundary → t.startsWith (utf8 "--") → 2 ≤ t.live.length →
      Moves t (.again (t.consume 2 .closingPart))
  | yielded {e : FramingEvent} {t' : FramingTokenizer σ} : Follows t.stage e t'.stage →
      t'.source = t.source → Moves t (.event e t')
  | refused (e : FramingError) : Moves t (.error e t)
  | drained {r : Except FramingError Nat} {t' : FramingTokenizer σ} : t.fill = (r, t') →
      Moves t (.finished t')
  | failed {r : Except FramingError Nat} {t' : FramingTokenizer σ} (e : FramingError) :
      t.fill = (r, t') → Moves t (.error e t')

theorem step_moves (t : FramingTokenizer σ) : Moves t t.step := by
  cases hs : t.stage <;> simp only [step, hs]
  case opening =>
    unfold stepOpening
    dsimp only
    repeat' split
    all_goals first
      | exact .refused _ | exact .refilled _ (by simp [hs]) | exact .yielded (hs ▸ .opened) rfl
  case headers =>
    unfold stepHeaders
    repeat' split
    all_goals first
      | exact .refused _ | exact .refilled _ (by simp [hs]) | exact .yielded (hs ▸ .typed _) rfl
  case payload =>
    unfold stepPayload
    dsimp only
    split
    · exact .refilled _ (by simp [hs])
    split
    · exact .yielded (hs ▸ .last ((List.length_take_le' ..).trans t.live_length_le)) rfl
    split
    · rename_i hlong
      refine .yielded (hs ▸ .run ?_ ((List.length_take_le' ..).trans t.live_length_le)) rfl
      rw [Ne, List.take_eq_nil_iff, not_or]
      exact ⟨by omega, fun hnil => by simp [hnil] at hlong⟩
    · exact .refilled _ (by simp [hs])
  case afterBoundary =>
    unfold stepAfterBoundary
    split
    · exact .refilled _ (by simp [hs])
    split
    · exact .dashes hs ‹_› (by omega)
    split
    · exact .yielded (hs ▸ .ended) rfl
    · exact .refused _
  case afterClose =>
    unfold stepAfterClose
    repeat' split
    all_goals first
      | exact .refused _ | exact .refilled _ (by simp [hs]) | exact .yielded (hs ▸ .endOfParts) rfl
  case done =>
    unfold stepDone
    split
    · exact .refused _
    split <;> rename_i hfill
    · exact .failed _ hfill
    · exact .drained hfill
    · exact .failed _ hfill
  case closingPart => exact .yielded (hs ▸ .closed) rfl
  case nextPartOpening => exact .yielded (hs ▸ .reopened) rfl

/-- The only turns that go around: a refill that brought bytes, and the closing dashes. -/
theorem step_again (h : t.step = .again t') :
    (t.stage ≠ .closingPart ∧ ∃ n, t.fill = (.ok (n + 1), t')) ∨
    (t.stage = .afterBoundary ∧ t.startsWith (utf8 "--") ∧ 2 ≤ t.live.length ∧
      t' = t.consume 2 .closingPart) := by
  have hmoves := step_moves t
  generalize t.step = turn at h hmoves
  cases hmoves with
  | refilled ended hs => exact .inl ⟨hs, refill_again h⟩
  | dashes hs hdash hlen =>
    cases h
    exact .inr ⟨hs, hdash, hlen, rfl⟩
  | yielded | refused | drained | failed => cases h

theorem turnsLeft_lt (h : t.step = .again t') :
    t'.turnsLeft < t.turnsLeft := by
  obtain ⟨hs, n, hf⟩ | ⟨hs, -, -, rfl⟩ := step_again h
  · obtain ⟨chunk, hn, hl, -, hst, -⟩ := fill_ok hf
    have hle := t'.live_length_le
    simp only [turnsLeft, hst, hs, if_false]
    rw [hl, List.length_append] at hle ⊢
    omega
  · simp only [turnsLeft, consume, hs, if_true, reduceCtorEq, if_false]
    omega

/-- The loop: turns until an event, the end or a failure. -/
def nextEvent (t : FramingTokenizer σ) :
    Except FramingError (Option FramingEvent) × FramingTokenizer σ :=
  match _h : t.step with
  | .again t' => nextEvent t'
  | .event e t' => (.ok (some e), t')
  | .finished t' => (.ok none, t')
  | .error e t' => (.error e, t')
termination_by t.turnsLeft
decreasing_by exact turnsLeft_lt ‹_›

theorem nextEvent_eq (t : FramingTokenizer σ) : t.nextEvent =
    match t.step with
    | .again t' => t'.nextEvent
    | .event e t' => (.ok (some e), t')
    | .finished t' => (.ok none, t')
    | .error e t' => (.error e, t') := by
  rw [nextEvent]
  split <;> rename_i h <;> rw [h]

theorem nextEvent_again (h : t.step = .again t') : t.nextEvent = t'.nextEvent := by
  rw [nextEvent_eq, h]

variable {e : FramingEvent}

theorem nextEvent_event (h : t.step = .event e t') : t.nextEvent = (.ok (some e), t') := by
  rw [nextEvent_eq, h]

theorem nextEvent_finished (h : t.step = .finished t') : t.nextEvent = (.ok none, t') := by
  rw [nextEvent_eq, h]

theorem nextEvent_error {e} (h : t.step = .error e t') : t.nextEvent = (.error e, t') := by
  rw [nextEvent_eq, h]

/-! ## The order of events -/

theorem refill_event {ended : FramingTokenizer σ → FramingError} : t.refill ended ≠ .event e t' := by
  unfold refill
  split <;> simp

theorem step_follows (h : t.step = .event e t') :
    Follows t.stage e t'.stage := by
  have hmoves := step_moves t
  generalize t.step = turn at h hmoves
  cases hmoves with
  | refilled ended _ => exact absurd h refill_event
  | yielded hf _ =>
    cases h
    exact hf
  | dashes | refused | drained | failed => cases h

/-- The closing dashes are consumed inside one call, before the event they owe. -/
def callStage (stage stage' : Stage) : Prop :=
  stage' = stage ∨ (stage = .afterBoundary ∧ stage' = .closingPart)

/-- **Events come in the order of the framing**, from any source. -/
theorem nextEvent_follows (h : t.nextEvent = (.ok (some e), t')) :
    ∃ stage, callStage t.stage stage ∧ Follows stage e t'.stage := by
  fun_induction nextEvent t with
  | case1 t t1 hstep ih =>
    obtain ⟨stage, hc, hf⟩ := ih h
    obtain ⟨hst, n, hfill⟩ | ⟨hst, -, -, rfl⟩ := step_again hstep
    · obtain ⟨-, -, -, -, hsame, -⟩ := fill_ok hfill
      exact ⟨stage, hsame ▸ hc, hf⟩
    refine ⟨stage, .inr ⟨hst, ?_⟩, hf⟩
    obtain rfl | ⟨h1, -⟩ := hc
    · rfl
    · cases h1
  | case2 t e t1 hstep =>
    cases h
    exact ⟨t.stage, .inl rfl, step_follows hstep⟩
  | case3 | case4 => cases h

end FramingTokenizer

end AgentArchivist.Server.Framing
