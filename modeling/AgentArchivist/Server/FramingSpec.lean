import AgentArchivist.Server.Framing

/-! # The framing of a whole body

What the tokenizer is for, without windows and sources: `frame f stage rest`
reads the remaining bytes of a body in one piece and gives the framed items,
each payload as a single run, and how the body ends. The window survives in one
place: a header block, its blank line included, has to fit it. -/
namespace AgentArchivist.Server.FramingSpec
open Lib.Utf8 Lib.Search Server.Framing List

/-- The items of a body and its end. -/
abbrev Framed := List FramingEvent × Except FramingError Unit

/-! ## Merging payload runs -/

def mergeCons : FramingEvent → List FramingEvent → List FramingEvent
  | .payload a, .payload b :: rest => .payload (a ++ b) :: rest
  | e, rest => e :: rest

/-- Adjacent payload runs as one. -/
def mergePayload (evs : List FramingEvent) : List FramingEvent := evs.foldr mergeCons []

/-- One more event before what follows it. -/
def prepend (e : FramingEvent) (r : Framed) : Framed := (mergeCons e r.1, r.2)

/-- Whether a payload run comes first. -/
def startsPayload : List FramingEvent → Bool
  | .payload _ :: _ => true
  | _ => false

theorem mergeCons_of_not_payload {e} (he : ∀ run, e ≠ .payload run) (rest : List FramingEvent) :
    mergeCons e rest = e :: rest := by
  cases e with
  | payload run => exact absurd rfl (he run)
  | _ => rfl

theorem mergeCons_of_not_starts {e rest} (h : startsPayload rest = false) :
    mergeCons e rest = e :: rest := by
  unfold mergeCons
  split
  · simp [startsPayload] at h
  · rfl

/-- Runs are merged with what follows them only if that is a run. -/
theorem foldr_mergeCons {rest} (h : startsPayload rest = false) :
    ∀ evs : List FramingEvent, evs.foldr mergeCons rest = mergePayload evs ++ rest
  | [] => rfl
  | e :: evs => by
    rw [mergePayload, foldr_cons, foldr_cons, foldr_mergeCons h evs, ← mergePayload]
    cases hm : mergePayload evs with
    | nil =>
      rw [nil_append, mergeCons_of_not_starts h, mergeCons_of_not_starts rfl]
      rfl
    | cons w ws => cases e <;> cases w <;> rfl

theorem foldr_prepend (r : Framed) (evs : List FramingEvent) :
    evs.foldr prepend r = (evs.foldr mergeCons r.1, r.2) := by
  induction evs with
  | nil => rfl
  | cons e evs ih => rw [foldr_cons, ih]; rfl

theorem mergePayload_snoc {e} (he : ∀ run, e ≠ .payload run) (evs : List FramingEvent) :
    mergePayload (evs ++ [e]) = mergePayload evs ++ [e] := by
  rw [mergePayload, foldr_append, foldr_cons, foldr_nil,
    mergeCons_of_not_payload he]
  refine foldr_mergeCons ?_ evs
  cases e with
  | payload run => exact absurd rfl (he run)
  | _ => rfl

variable {p : FramingEvent → Bool}

theorem countP_mergeCons (hp : ∀ run, p (.payload run) = false)
    (e : FramingEvent) (rest : List FramingEvent) :
    (mergeCons e rest).countP p = (if p e then 1 else 0) + rest.countP p := by
  unfold mergeCons
  split
  · simp [hp]
  · simp only [countP_cons]
    omega

theorem countP_foldr_mergeCons (hp : ∀ run, p (.payload run) = false)
    (rest evs : List FramingEvent) :
    (evs.foldr mergeCons rest).countP p = evs.countP p + rest.countP p := by
  induction evs with
  | nil => simp
  | cons e evs ih =>
    rw [foldr_cons, countP_mergeCons hp, countP_cons, ih]
    omega

theorem countP_mergePayload (hp : ∀ run, p (.payload run) = false)
    (evs : List FramingEvent) : (mergePayload evs).countP p = evs.countP p :=
  countP_foldr_mergeCons hp [] evs

/-! ## One element of the grammar at a time -/

inductive Move where
  | fail (evs : List FramingEvent) (e : FramingError)
  | finished
  | go (evs : List FramingEvent) (stage : Stage) (rest : List UInt8)

def openingMove (f : RequestFraming) (rest : List UInt8) : Move :=
  if ¬ f.dashBoundary <+: rest then .fail [] .missingOpeningBoundary
  else if rest.length < f.dashBoundary.length + 2 then .fail [] .unexpectedEndOfStream
  else if ¬ CRLF <+: rest.drop f.dashBoundary.length then .fail [] .malformedDelimiter
  else .go [.partStarted] .headers (rest.drop (f.dashBoundary.length + 2))

def headersMove (rest : List UInt8) : Move :=
  if CRLF <+: rest then .fail [] .partHeaderMalformed
  else
    match position (CRLF ++ CRLF) (rest.take FRAMING_WINDOW_BYTES) with
    | none =>
      if FRAMING_WINDOW_BYTES ≤ rest.length then .fail [] .partHeaderMalformed
      else .fail [] .unexpectedEndOfStream
    | some found =>
      match FramingTokenizer.headerValue (rest.take found) with
      | none => .fail [] .partHeaderMalformed
      | some value => .go [.partContentType value] .payload (rest.drop (found + 4))

/-- A body that ends inside a payload has given out all of it but a possible delimiter's start. -/
def payloadMove (f : RequestFraming) (rest : List UInt8) : Move :=
  match position f.payloadDelimiter rest with
  | some found =>
    .go [.payload (rest.take found)] .afterBoundary (rest.drop (found + f.payloadDelimiter.length))
  | none =>
    let retain := f.payloadDelimiter.length - 1
    if retain < rest.length then
      .fail [.payload (rest.take (rest.length - retain))] .unexpectedEndOfStream
    else .fail [] .unexpectedEndOfStream

def afterBoundaryMove (rest : List UInt8) : Move :=
  if rest.length < 2 then .fail [] .unexpectedEndOfStream
  else if utf8 "--" <+: rest then .go [] .closingPart (rest.drop 2)
  else if CRLF <+: rest then .go [.partEnded] .nextPartOpening (rest.drop 2)
  else .fail [] .malformedDelimiter

def afterCloseMove (rest : List UInt8) : Move :=
  if rest.length < 2 then .fail [] .unexpectedEndOfStream
  else if CRLF <+: rest then .go [.endOfParts] .done (rest.drop 2)
  else .fail [] .malformedDelimiter

def move (f : RequestFraming) (rest : List UInt8) : Stage → Move
  | .opening => openingMove f rest
  | .headers => headersMove rest
  | .payload => payloadMove f rest
  | .afterBoundary => afterBoundaryMove rest
  | .closingPart => .go [.partEnded] .afterClose rest
  | .afterClose => afterCloseMove rest
  | .nextPartOpening => .go [.partStarted] .headers rest
  | .done => if rest = [] then .finished else .fail [] .trailingBytesAfterClosingDelimiter

/-- Bytes left, and the two events that are owed without a byte. -/
def size (stage : Stage) (rest : List UInt8) : Nat :=
  2 * rest.length + if stage = .closingPart ∨ stage = .nextPartOpening then 1 else 0

theorem delimiter_length (f : RequestFraming) :
    f.payloadDelimiter.length = f.boundary.length + 4 ∧
      f.dashBoundary.length = f.boundary.length + 2 := by
  have h : (utf8 "--").length = 2 := by decide
  simp only [RequestFraming.payloadDelimiter, RequestFraming.dashBoundary, length_append, h,
    CRLF, length_cons, length_nil]
  omega

variable {f : RequestFraming} {evs : List FramingEvent}

theorem size_lt_of_move {stage stage' rest rest'} (h : move f rest stage = .go evs stage' rest') :
    size stage' rest' < size stage rest := by
  cases stage <;> simp only [move] at h
  case headers =>
    unfold headersMove at h
    split at h
    · cases h
    split at h
    · split at h <;> cases h
    rename_i found hp
    split at h <;> cases h
    have hb := position_bound hp
    simp only [CRLF, length_append, length_cons, length_nil,
      length_take] at hb
    simp only [size, length_drop, reduceCtorEq, or_self, if_false]
    omega
  case payload =>
    unfold payloadMove at h
    split at h
    · rename_i found hp
      cases h
      have hb := position_bound hp
      have hd := (delimiter_length f).1
      simp only [size, length_drop, reduceCtorEq, or_self, if_false]
      omega
    · dsimp only at h
      split at h <;> cases h
  case closingPart | nextPartOpening =>
    cases h
    simp [size]
  case opening | afterBoundary | afterClose =>
    simp only [openingMove, afterBoundaryMove, afterCloseMove] at h
    repeat' split at h
    all_goals cases h
    all_goals
      simp only [size, length_drop, reduceCtorEq, true_or, or_true, or_self, if_true, if_false]
      omega
  case done =>
    split at h <;> cases h

/-- The framing of the remaining bytes of a body. -/
def frame (f : RequestFraming) (stage : Stage) (rest : List UInt8) : Framed :=
  match _h : move f rest stage with
  | .fail evs e => (evs, .error e)
  | .finished => ([], .ok ())
  | .go evs stage' rest' =>
    let r := frame f stage' rest'
    (evs ++ r.1, r.2)
termination_by size stage rest
decreasing_by exact size_lt_of_move ‹_›

theorem frame_fail {s rest e} (h : move f rest s = .fail evs e) :
    frame f s rest = (evs, .error e) := by
  rw [frame]
  split <;> rename_i h' <;> rw [h] at h' <;> cases h'
  rfl

theorem frame_finished {s rest} (h : move f rest s = .finished) :
    frame f s rest = ([], .ok ()) := by
  rw [frame]
  split <;> rename_i h' <;> rw [h] at h' <;> cases h'

theorem frame_go {s s' rest rest'} (h : move f rest s = .go evs s' rest') :
    frame f s rest = (evs ++ (frame f s' rest').1, (frame f s' rest').2) := by
  rw [frame]
  split <;> rename_i h' <;> rw [h] at h' <;> cases h'
  rfl

theorem frame_payload_some {rest} {found} (h : position f.payloadDelimiter rest = some found) :
    frame f .payload rest = (.payload (rest.take found) ::
      (frame f .afterBoundary (rest.drop (found + f.payloadDelimiter.length))).1,
      (frame f .afterBoundary (rest.drop (found + f.payloadDelimiter.length))).2) := by
  have hm : move f rest .payload = .go [.payload (rest.take found)] .afterBoundary
      (rest.drop (found + f.payloadDelimiter.length)) := by
    simp [move, payloadMove, h]
  rw [frame_go hm]
  rfl

theorem frame_payload_none {rest} (h : position f.payloadDelimiter rest = none) :
    frame f .payload rest = (if f.payloadDelimiter.length - 1 < rest.length then
      [.payload (rest.take (rest.length - (f.payloadDelimiter.length - 1)))] else [],
      .error .unexpectedEndOfStream) := by
  by_cases hl : f.payloadDelimiter.length - 1 < rest.length
  · exact frame_fail (by simp only [move, payloadMove, h, if_pos hl])
  · exact frame_fail (by simp only [move, payloadMove, h, if_neg hl])

/-- After a delimiter no payload follows directly, so a run before it is not merged. -/
theorem startsPayload_afterBoundary (f : RequestFraming) (rest : List UInt8) :
    startsPayload (frame f .afterBoundary rest).1 = false := by
  cases hm : move f rest .afterBoundary with
  | fail evs e =>
    rw [frame_fail hm]
    simp only [move, afterBoundaryMove] at hm
    repeat' split at hm
    all_goals (cases hm <;> rfl)
  | finished => rw [frame_finished hm]; rfl
  | go evs stage' rest' =>
    rw [frame_go hm]
    simp only [move, afterBoundaryMove] at hm
    repeat' split at hm
    all_goals cases hm
    · rw [frame_go (s := .closingPart) rfl]
      rfl
    · rfl

theorem startsPayload_headers (f : RequestFraming) (rest : List UInt8) :
    startsPayload (frame f .headers rest).1 = false := by
  cases hm : move f rest .headers with
  | fail evs e =>
    rw [frame_fail hm]
    simp only [move, headersMove] at hm
    repeat' split at hm
    all_goals (cases hm <;> rfl)
  | finished => rw [frame_finished hm]; rfl
  | go evs stage' rest' =>
    rw [frame_go hm]
    simp only [move, headersMove] at hm
    repeat' split at hm
    all_goals (cases hm <;> rfl)

end AgentArchivist.Server.FramingSpec
