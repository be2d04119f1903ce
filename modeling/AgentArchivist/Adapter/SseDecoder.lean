import AgentArchivist.Adapter.FileCapture
import AgentArchivist.Lib.Pieces
import AgentArchivist.Lib.Utf8

/-! # The event decoder of a streamed response

`SseDecoder` assembles the events of a `text/event-stream` body that arrives in chunks:
the caller feeds a chunk, takes complete events until none is left, and finishes at the
end of the body. What the body says is stated without chunks, by `events`: its lines,
their blocks, and one event for every block with data.

A feed accepts all lines of its chunk before an event can be taken, so the data lines of
a second block in one chunk join the event of the first. `Separated` says of a body and
its chunks that this does not happen; the decoder yields the body's events exactly then
(`decode_separated`, `decode_diverges`). -/
namespace AgentArchivist.Adapter

open Lib.Pieces Lib.Utf8 FileCapture List

/-! ## The decoder -/

def CARRIAGE_RETURN : UInt8 := 0x0d
def COLON : UInt8 := 0x3a
def SPACE : UInt8 := 0x20

structure SseDecoder where
  buffer : List UInt8
  dataLines : List (List UInt8)
  eventReady : Bool
deriving DecidableEq

namespace SseDecoder

def new : SseDecoder := ⟨[], [], false⟩

/-- The line without one trailing carriage return. -/
def trimmed (line : List UInt8) : List UInt8 :=
  if line.getLast? = some CARRIAGE_RETURN then line.dropLast else line

/-- The field name and the value of a line. -/
def fieldValue (trimmed : List UInt8) : List UInt8 × List UInt8 :=
  match trimmed.findIdx? (· == COLON) with
  | some colon =>
    (trimmed.take colon,
      if (trimmed.drop (colon + 1)).head? = some SPACE then trimmed.drop (colon + 2)
      else trimmed.drop (colon + 1))
  | none => (trimmed, [])

def acceptLine (decoder : SseDecoder) (line : List UInt8) : SseDecoder :=
  let trimmed := trimmed line
  if trimmed.isEmpty then
    -- a blank line dispatches the block, when it carried data
    if decoder.dataLines.isEmpty then decoder else { decoder with eventReady := true }
  else
    let (field, value) := fieldValue trimmed
    if field = utf8 "data" then { decoder with dataLines := decoder.dataLines ++ [value] }
    else decoder

/-- Accepts the lines of the buffer that a newline ends, and keeps the rest. -/
def acceptLines (decoder : SseDecoder) (buffer : List UInt8) : SseDecoder :=
  match h : buffer.findIdx? isNewline with
  | none => { decoder with buffer := buffer }
  | some newline =>
    acceptLines (decoder.acceptLine (buffer.take newline)) (buffer.drop (newline + 1))
termination_by buffer.length
decreasing_by
  obtain ⟨hlt, _⟩ := findIdx?_eq_some_iff_getElem.mp h
  rw [length_drop]
  omega

def feed (decoder : SseDecoder) (chunk : List UInt8) : SseDecoder :=
  decoder.acceptLines (decoder.buffer ++ chunk)

/-- The data lines of one event. -/
def joined (dataLines : List (List UInt8)) : List UInt8 := List.intercalate [0x0a] dataLines

def finish (decoder : SseDecoder) : Option (List UInt8) × SseDecoder :=
  let decoder :=
    if decoder.buffer.isEmpty then decoder
    else { decoder with buffer := [] }.acceptLine decoder.buffer
  if decoder.dataLines.isEmpty then (none, decoder)
  else (some (joined decoder.dataLines), { decoder with dataLines := [] })

def takeCompleteEvent (decoder : SseDecoder) : Option (List UInt8) × SseDecoder :=
  if decoder.eventReady then
    (some (joined decoder.dataLines), { decoder with eventReady := false, dataLines := [] })
  else (none, decoder)

/-- Takes complete events until none is left. -/
def takeEvents (decoder : SseDecoder) : List (List UInt8) × SseDecoder :=
  match _h : decoder.takeCompleteEvent with
  | (none, decoder) => ([], decoder)
  | (some event, left) =>
    let (events, left) := takeEvents left
    (event :: events, left)
termination_by decoder.eventReady.toNat
decreasing_by
  have htaken : decoder.eventReady = true ∧ left.eventReady = false := by
    rw [takeCompleteEvent] at _h
    split at _h
    · rename_i hready
      cases _h
      exact ⟨hready, rfl⟩
    · cases _h
  rw [htaken.1, htaken.2]
  exact Nat.zero_lt_one

/-- Feeds the chunks, taking what each completes, and finishes. -/
def decode (decoder : SseDecoder) : List (List UInt8) → List (List UInt8)
  | [] => decoder.finish.1.toList
  | chunk :: chunks =>
    let (events, decoder) := (decoder.feed chunk).takeEvents
    events ++ decoder.decode chunks

end SseDecoder

/-! ## What a body says -/

namespace EventStream

open SseDecoder

def isBlank (line : List UInt8) : Bool := (trimmed line).isEmpty

/-- The value of a data line. -/
def dataValue (line : List UInt8) : Option (List UInt8) :=
  if (fieldValue (trimmed line)).1 = utf8 "data" then some (fieldValue (trimmed line)).2 else none

/-- The values of the data lines. -/
def values (lines : List (List UInt8)) : List (List UInt8) := lines.filterMap dataValue

/-- The event of a block: none when the block carries no data line. -/
def eventOf (values : List (List UInt8)) : List (List UInt8) :=
  if values.isEmpty then [] else [joined values]

/-- The data values of each block of lines. -/
def blocks (lines : List (List UInt8)) : List (List (List UInt8)) :=
  (lines.splitOnP isBlank).map values

/-- The events of a body, whatever chunks it arrives in. -/
def events (body : List UInt8) : List (List UInt8) :=
  (blocks (body.splitOnP isNewline)).flatMap eventOf

/-- The data values of the block that no blank line has ended. -/
def openValues (lines : List (List UInt8)) : List (List UInt8) := values (pending isBlank lines)

/-- After `region`, `chunk` completes no data line behind the end of a block with data
that it completes too. -/
def Clean (region chunk : List UInt8) : Prop :=
  ∀ before line after,
    finished isNewline (region ++ chunk) = finished isNewline region ++ before ++ line :: after →
    isBlank line = true → openValues (finished isNewline region ++ before) ≠ [] →
    values after = []

/-- Every chunk is clean where it arrives, behind `region`. -/
def Separated (region : List UInt8) (chunks : List (List UInt8)) : Prop :=
  ∀ before chunk after, chunks = before ++ chunk :: after → Clean (region ++ before.flatten) chunk

/-! ## The lines a decoder accepts -/

variable {decoder : SseDecoder} {line : List UInt8} {lines rest : List (List UInt8)}

theorem dataValue_blank (h : isBlank line = true) : dataValue line = none := by
  rw [isBlank, List.isEmpty_iff] at h
  rw [dataValue, h]
  decide

theorem acceptLine_blank (h : isBlank line = true) : decoder.acceptLine line =
    { decoder with eventReady := decoder.eventReady || !decoder.dataLines.isEmpty } := by
  rw [isBlank] at h
  simp only [acceptLine, h, if_true]
  cases decoder.dataLines.isEmpty <;> simp

theorem acceptLine_filled (h : isBlank line = false) : decoder.acceptLine line =
    { decoder with dataLines := decoder.dataLines ++ (dataValue line).toList } := by
  rw [isBlank] at h
  simp only [acceptLine, h, dataValue, Bool.false_eq_true, if_false]
  split <;> simp

theorem values_cons : values (line :: lines) = (dataValue line).toList ++ values lines := by
  cases h : dataValue line <;> simp [values, h]

@[simp] theorem values_nil : values [] = [] := rfl

@[simp] theorem values_append : values (lines ++ rest) = values lines ++ values rest :=
  filterMap_append

/-- Whatever a line is, its data joins the pending data. -/
theorem acceptLine_dataLines : (decoder.acceptLine line).dataLines =
    decoder.dataLines ++ (dataValue line).toList := by
  cases h : isBlank line with
  | false => rw [acceptLine_filled h]
  | true => rw [acceptLine_blank h, dataValue_blank h, Option.toList_none, append_nil]

theorem foldl_dataLines : (lines.foldl acceptLine decoder).dataLines =
    decoder.dataLines ++ values lines := by
  induction lines generalizing decoder with
  | nil => exact (append_nil _).symm
  | cons line lines ih =>
    rw [foldl_cons, ih, acceptLine_dataLines, values_cons, append_assoc]

theorem foldl_ready (h : decoder.eventReady = true) :
    (lines.foldl acceptLine decoder).eventReady = true := by
  induction lines generalizing decoder with
  | nil => exact h
  | cons line lines ih =>
    apply ih
    cases hb : isBlank line with
    | false => rw [acceptLine_filled hb, h]
    | true => rw [acceptLine_blank hb, h, Bool.true_or]

/-- From the values held, no blank line among the lines ends a block with data. -/
def Quiet (held : List (List UInt8)) : List (List UInt8) → Prop
  | [] => True
  | line :: lines =>
    (isBlank line = true → held = []) ∧ Quiet (held ++ (dataValue line).toList) lines

theorem foldl_quiet (hready : decoder.eventReady = false) (h : Quiet decoder.dataLines lines) :
    (lines.foldl acceptLine decoder).eventReady = false := by
  induction lines generalizing decoder with
  | nil => exact hready
  | cons line lines ih =>
    refine ih ?_ (acceptLine_dataLines ▸ h.2)
    cases hb : isBlank line with
    | false => rw [acceptLine_filled hb, hready]
    | true => rw [acceptLine_blank hb, hready, h.1 hb]; rfl

/-- Lines are quiet, or there is a first one that ends a block with data. -/
theorem quiet_or_dispatch (held lines : List (List UInt8)) : Quiet held lines ∨
    ∃ before line after, lines = before ++ line :: after ∧ Quiet held before ∧
      isBlank line = true ∧ held ++ values before ≠ [] := by
  induction lines generalizing held with
  | nil => exact .inl trivial
  | cons line lines ih =>
    by_cases hends : isBlank line = true ∧ held ≠ []
    · exact .inr ⟨[], line, lines, rfl, trivial, hends.1, by simpa using hends.2⟩
    have hline : isBlank line = true → held = [] := fun hb =>
      not_not.mp fun hne => hends ⟨hb, hne⟩
    rcases ih (held ++ (dataValue line).toList) with hq | ⟨before, l, after, rfl, hq, hl, hne⟩
    · exact .inl ⟨hline, hq⟩
    · refine .inr ⟨line :: before, l, after, rfl, ⟨hline, hq⟩, hl, ?_⟩
      rwa [values_cons, ← append_assoc]

theorem quiet_of_values (h : values lines = []) : Quiet [] lines := by
  induction lines with
  | nil => trivial
  | cons line lines ih =>
    rw [values_cons, append_eq_nil_iff] at h
    refine ⟨fun _ => rfl, ?_⟩
    rw [h.1]
    exact ih h.2

theorem Quiet.ends {held before after} (h : Quiet held (before ++ line :: after))
    (hb : isBlank line = true) : held ++ values before = [] := by
  induction before generalizing held with
  | nil => rw [values_nil, append_nil, h.1 hb]
  | cons l before ih =>
    rw [values_cons, ← append_assoc]
    exact ih h.2

theorem Quiet.of_append {held before after} (h : Quiet held (before ++ after)) :
    Quiet held before := by
  induction before generalizing held with
  | nil => trivial
  | cons l before ih => exact ⟨h.1, ih h.2⟩

theorem openValues_blank (h : isBlank line = true) : openValues (lines ++ [line]) = [] := by
  rw [openValues, pending_sep h, values_nil]

theorem openValues_quiet (h : Quiet (openValues lines) rest) :
    openValues (lines ++ rest) = openValues lines ++ values rest := by
  induction rest generalizing lines with
  | nil => rw [values_nil, append_nil, append_nil]
  | cons line rest ih =>
    have hsnoc : openValues (lines ++ [line]) = openValues lines ++ (dataValue line).toList := by
      cases hb : isBlank line with
      | false =>
        rw [openValues, pending_snoc hb, values_append, values_cons, values_nil, append_nil,
          openValues]
      | true => rw [openValues_blank hb, h.1 hb, dataValue_blank hb]; rfl
    rw [append_cons, ih (hsnoc ▸ h.2), hsnoc, values_cons, append_assoc]

/-! ## The events, from the values held -/

/-- The events of lines that follow the values held. -/
def eventsFrom (held lines : List (List UInt8)) : List (List UInt8) :=
  ((blocks lines).modifyHead (held ++ ·)).flatMap eventOf

variable {held : List (List UInt8)}

theorem events_eq (body : List UInt8) : events body = eventsFrom [] (body.splitOnP isNewline) := by
  rw [eventsFrom, events]
  cases blocks (body.splitOnP isNewline) <;> simp

theorem eventsFrom_nil : eventsFrom held [] = eventOf held := by
  simp [eventsFrom, blocks, values]

theorem eventsFrom_blank (h : isBlank line = true) :
    eventsFrom held (line :: lines) = eventOf held ++ eventsFrom [] lines := by
  simp only [eventsFrom, blocks, splitOnP_cons_eq_if_modifyHead, h, if_true]
  cases lines.splitOnP isBlank <;> simp

theorem eventsFrom_filled (h : isBlank line = false) : eventsFrom held (line :: lines) =
    eventsFrom (held ++ (dataValue line).toList) lines := by
  simp only [eventsFrom, blocks, splitOnP_cons_eq_if_modifyHead, h, Bool.false_eq_true, if_false]
  cases lines.splitOnP isBlank <;> simp [values_cons]

theorem eventsFrom_quiet (h : Quiet held lines) :
    eventsFrom held (lines ++ rest) = eventsFrom (held ++ values lines) rest := by
  induction lines generalizing held with
  | nil => simp
  | cons line lines ih =>
    rw [cons_append, values_cons, ← append_assoc, ← ih h.2]
    cases hb : isBlank line with
    | false => exact eventsFrom_filled hb
    | true => rw [eventsFrom_blank hb, h.1 hb, dataValue_blank hb]; rfl

/-! ## One chunk -/

theorem acceptLines_eq (decoder : SseDecoder) (buffer : List UInt8) : decoder.acceptLines buffer =
    { (finished isNewline buffer).foldl acceptLine decoder with
      buffer := pending isNewline buffer } := by
  fun_induction acceptLines decoder buffer with
  | case1 decoder buffer h =>
    obtain ⟨hfinished, hpending⟩ := open_eq (findIdx?_eq_none_iff.mp h)
    rw [hfinished, hpending, foldl_nil]
  | case2 decoder buffer newline h ih =>
    obtain ⟨hlt, hnewline, hbefore⟩ := findIdx?_eq_some_iff_getElem.mp h
    have hopen : ∀ byte ∈ buffer.take newline, isNewline byte = false := by
      intro byte hbyte
      obtain ⟨i, hi, rfl⟩ := mem_take_iff_getElem.mp hbyte
      exact Bool.not_eq_true _ ▸ hbefore i (by omega)
    have hbuffer : buffer = buffer.take newline ++ buffer[newline] :: buffer.drop (newline + 1) := by
      rw [getElem_cons_drop, take_append_drop]
    have hsplit := separated_eq (buffer.take newline) (buffer.drop (newline + 1)) hnewline
    rw [← hbuffer, splitOnP_eq_singleton hopen] at hsplit
    rw [ih, hsplit.1, hsplit.2, singleton_append, foldl_cons]

theorem takeEvents_waiting (h : decoder.eventReady = false) : decoder.takeEvents = ([], decoder) := by
  have htake : decoder.takeCompleteEvent = (none, decoder) := by
    rw [takeCompleteEvent, h]
    rfl
  rw [takeEvents]
  split
  · rename_i heq
    rw [htake] at heq
    cases heq
    rfl
  · rename_i heq
    rw [htake] at heq
    cases heq

theorem takeEvents_ready (h : decoder.eventReady = true) : decoder.takeEvents =
    ([joined decoder.dataLines], { decoder with eventReady := false, dataLines := [] }) := by
  have htake : decoder.takeCompleteEvent =
      (some (joined decoder.dataLines), { decoder with eventReady := false, dataLines := [] }) := by
    rw [takeCompleteEvent, h]
    rfl
  rw [takeEvents]
  split
  · rename_i heq
    rw [htake] at heq
    cases heq
  · rename_i heq
    rw [htake] at heq
    cases heq
    rw [takeEvents_waiting rfl]

/-- The decoder that has taken every event of `region`. -/
structure After (region : List UInt8) (decoder : SseDecoder) : Prop where
  buffer : decoder.buffer = pending isNewline region
  dataLines : decoder.dataLines = openValues (finished isNewline region)
  waiting : decoder.eventReady = false

theorem after_new : After [] SseDecoder.new := ⟨rfl, rfl, rfl⟩

/-- The lines that a chunk completes. -/
def completes (decoder : SseDecoder) (chunk : List UInt8) : List (List UInt8) :=
  finished isNewline (decoder.buffer ++ chunk)

variable {region chunk : List UInt8}

theorem feed_eq : decoder.feed chunk = { (completes decoder chunk).foldl acceptLine decoder with
    buffer := pending isNewline (decoder.buffer ++ chunk) } :=
  acceptLines_eq decoder _

section
variable (h : After region decoder)
include h

theorem After.lines_eq : finished isNewline (region ++ chunk) =
    finished isNewline region ++ completes decoder chunk := by
  rw [(append_eq isNewline region chunk).1, completes, h.buffer]

theorem After.tail_eq :
    pending isNewline (region ++ chunk) =
      pending isNewline (decoder.buffer ++ chunk) := by
  rw [(append_eq isNewline region chunk).2, h.buffer]

theorem After.clean_iff : Clean region chunk ↔
    ∀ before line after, completes decoder chunk = before ++ line :: after → isBlank line = true →
      openValues (finished isNewline region ++ before) ≠ [] → values after = [] := by
  simp [Clean, h.lines_eq]

/-- A chunk that ends no block with data. -/
theorem After.feed_quiet (hquiet : Quiet decoder.dataLines (completes decoder chunk)) :
    Clean region chunk ∧ ∃ decoder', (decoder.feed chunk).takeEvents = ([], decoder') ∧
      After (region ++ chunk) decoder' ∧
      ∀ rest, eventsFrom decoder.dataLines (completes decoder chunk ++ rest) =
        eventsFrom decoder'.dataLines rest := by
  have hopen : Quiet (openValues (finished isNewline region)) (completes decoder chunk) :=
    h.dataLines ▸ hquiet
  constructor
  · rw [h.clean_iff]
    intro before line after heq hb hne
    rw [heq] at hopen
    rw [openValues_quiet hopen.of_append, hopen.ends hb] at hne
    exact absurd rfl hne
  · have hready : (decoder.feed chunk).eventReady = false := by
      rw [feed_eq]
      exact foldl_quiet h.waiting hquiet
    have hdata : (decoder.feed chunk).dataLines =
        decoder.dataLines ++ values (completes decoder chunk) := by
      rw [feed_eq]
      exact foldl_dataLines
    refine ⟨decoder.feed chunk, takeEvents_waiting hready, ⟨?_, ?_, hready⟩, fun rest => ?_⟩
    · rw [feed_eq, h.tail_eq]
    · rw [hdata, h.lines_eq, openValues_quiet hopen, h.dataLines]
    · rw [hdata, eventsFrom_quiet hquiet]

/-- A chunk that ends a block with data: what is taken is its values with every value
that the chunk completes after it. -/
theorem After.feed_dispatch {before after} (heq : completes decoder chunk = before ++ line :: after)
    (hquiet : Quiet decoder.dataLines before) (hb : isBlank line = true)
    (hne : decoder.dataLines ++ values before ≠ []) :
    ∃ decoder', (decoder.feed chunk).takeEvents =
        ([joined (decoder.dataLines ++ values before ++ values after)], decoder') ∧
      (Clean region chunk ↔ values after = []) ∧
      (values after = [] → After (region ++ chunk) decoder') ∧ decoder'.dataLines = [] := by
  have hopen : Quiet (openValues (finished isNewline region)) before :=
    h.dataLines ▸ hquiet
  have hvalues : openValues (finished isNewline region ++ before) =
      decoder.dataLines ++ values before := by
    rw [openValues_quiet hopen, h.dataLines]
  have hready : (decoder.feed chunk).eventReady = true := by
    rw [feed_eq, heq, foldl_append, foldl_cons]
    refine foldl_ready ?_
    rw [acceptLine_blank hb, foldl_dataLines]
    have hfilled : (decoder.dataLines ++ values before).isEmpty = false := by simpa using hne
    rw [hfilled, Bool.not_false, Bool.or_true]
  have hdata : (decoder.feed chunk).dataLines =
      decoder.dataLines ++ values before ++ values after := by
    rw [feed_eq]
    refine foldl_dataLines.trans ?_
    rw [heq, values_append, values_cons, dataValue_blank hb, Option.toList_none, nil_append,
      append_assoc]
  refine ⟨_, hdata ▸ takeEvents_ready hready, ?_, fun hafter => ⟨?_, ?_, rfl⟩, rfl⟩
  · rw [h.clean_iff]
    constructor
    · exact fun hclean => hclean before line after heq hb (hvalues ▸ hne)
    · intro hafter before' line' after' heq' hb' hne'
      -- the other blank line stands before this one, where nothing is open, or after it
      rcases append_eq_append_iff.mp (heq.symm.trans heq') with
        ⟨more, rfl, hmore⟩ | ⟨more, rfl, hmore⟩
      · cases more with
        | nil =>
          cases hmore
          exact hafter
        | cons _ more =>
          cases hmore
          have hmore : values more ++ values (line' :: after') = [] := values_append.symm.trans hafter
          rw [values_cons, append_eq_nil_iff, append_eq_nil_iff] at hmore
          exact hmore.2.2
      · cases more with
        | nil =>
          cases hmore
          exact hafter
        | cons _ more =>
          cases hmore
          rw [openValues_quiet hopen.of_append, hopen.ends hb'] at hne'
          exact absurd rfl hne'
  · rw [feed_eq, h.tail_eq]
  have hrest : openValues (finished isNewline region ++ before ++ [line] ++ after) =
      [] ++ values after := by
    have hended : openValues (finished isNewline region ++ before ++ [line]) = [] :=
      openValues_blank hb
    have hrest : Quiet (openValues (finished isNewline region ++ before ++ [line])) after := by
      rw [hended]
      exact quiet_of_values hafter
    rw [openValues_quiet hrest, hended]
  rw [h.lines_eq, heq, ← append_assoc, append_cons, hrest, hafter, append_nil]

end

/-! ## The whole body -/

/-- Two sequences that differ where both have an element. -/
def Diverge {α : Type} (xs ys : List α) : Prop :=
  ∃ common x y xs' ys', xs = common ++ x :: xs' ∧ ys = common ++ y :: ys' ∧ x ≠ y

theorem Diverge.append_ne {α : Type} {xs ys} (h : Diverge xs ys) (more : List α) :
    xs ++ more ≠ ys := by
  obtain ⟨common, x, y, xs', ys', rfl, rfl, hne⟩ := h
  intro heq
  rw [append_assoc, append_cancel_left_eq] at heq
  exact hne (List.cons.inj heq).1

theorem Diverge.append_left {α : Type} {xs ys} (h : Diverge xs ys) (common : List α) :
    Diverge (common ++ xs) (common ++ ys) := by
  obtain ⟨common', x, y, xs', ys', rfl, rfl, hne⟩ := h
  exact ⟨common ++ common', x, y, xs', ys', by simp, by simp, hne⟩

theorem length_joined_append {xs ys} (hx : xs ≠ []) (hy : ys ≠ []) :
    (joined (xs ++ ys)).length = (joined xs).length + 1 + (joined ys).length := by
  induction xs with
  | nil => exact absurd rfl hx
  | cons x xs ih =>
    cases xs with
    | nil =>
      obtain ⟨y, ys, rfl⟩ := exists_cons_of_ne_nil hy
      simp only [joined, singleton_append, intercalate_cons_cons,
        intercalate_singleton, length_append, length_singleton]
    | cons x' xs =>
      have htail := ih (cons_ne_nil x' xs)
      simp only [joined, cons_append, intercalate_cons_cons, length_append] at htail ⊢
      omega

theorem separated_cons {chunks} : Separated region (chunk :: chunks) ↔
    Clean region chunk ∧ Separated (region ++ chunk) chunks := by
  constructor
  · intro h
    refine ⟨?_, fun before c after heq => ?_⟩
    · simpa using h [] chunk chunks rfl
    · simpa using h (chunk :: before) c after (by rw [heq]; rfl)
  · intro ⟨hclean, h⟩ before c after heq
    cases before with
    | nil =>
      cases heq
      simpa using hclean
    | cons b before =>
      cases heq
      simpa using h before c after rfl

/-- The last line is accepted, and the block it stands in is the last event. -/
theorem finish_eq : decoder.finish =
    ((eventOf (decoder.dataLines ++ (dataValue decoder.buffer).toList)).head?,
      { buffer := []
        dataLines := []
        eventReady := decoder.eventReady ||
          (!decoder.buffer.isEmpty && isBlank decoder.buffer && !decoder.dataLines.isEmpty) }) := by
  obtain ⟨buffer, dataLines, ready⟩ := decoder
  have hlast (values : List (List UInt8)) (r : Bool) :
      (if values.isEmpty then ((none : Option (List UInt8)), (⟨[], values, r⟩ : SseDecoder))
        else (some (joined values), ⟨[], [], r⟩)) = ((eventOf values).head?, ⟨[], [], r⟩) := by
    cases values <;> rfl
  cases buffer with
  | nil =>
    have hnone : dataValue [] = none := dataValue_blank rfl
    rw [hnone, Option.toList_none, append_nil]
    simpa [finish] using hlast dataLines ready
  | cons byte buffer =>
    cases hb : isBlank (byte :: buffer) with
    | false =>
      simp only [finish, isEmpty_cons, Bool.false_eq_true, if_false, acceptLine_filled hb,
        Bool.and_false, Bool.false_and, Bool.or_false]
      exact hlast _ ready
    | true =>
      rw [dataValue_blank hb, Option.toList_none, append_nil]
      simpa [finish, acceptLine_blank hb] using hlast dataLines _

theorem finish_events (hopen : ∀ byte ∈ decoder.buffer, isNewline byte = false) :
    decoder.finish.1.toList = eventsFrom decoder.dataLines (decoder.buffer.splitOnP isNewline) := by
  have hevent (values : List (List UInt8)) : (eventOf values).head?.toList = eventOf values := by
    cases values <;> rfl
  rw [finish_eq, hevent, splitOnP_eq_singleton hopen]
  cases hb : isBlank decoder.buffer with
  | false => rw [eventsFrom_filled hb, eventsFrom_nil]
  | true =>
    rw [eventsFrom_blank hb, eventsFrom_nil, dataValue_blank hb, Option.toList_none, append_nil]
    exact (append_nil _).symm

/-- What the decoder is to yield from here on. -/
def owed (decoder : SseDecoder) (chunks : List (List UInt8)) : List (List UInt8) :=
  eventsFrom decoder.dataLines ((decoder.buffer ++ chunks.flatten).splitOnP isNewline)

theorem owed_cons {chunks} : owed decoder (chunk :: chunks) =
    eventsFrom decoder.dataLines (completes decoder chunk ++
      (pending isNewline (decoder.buffer ++ chunk) ++ chunks.flatten).splitOnP isNewline) := by
  rw [owed, flatten_cons, ← append_assoc, splitOnP_append, completes]

/-- One chunk: where it is clean, the events taken are those owed, and otherwise the one
event taken is not the next one owed. -/
theorem After.feed_step (h : After region decoder) (chunk : List UInt8) :
    (∃ taken decoder', (decoder.feed chunk).takeEvents = (taken, decoder') ∧ Clean region chunk ∧
      After (region ++ chunk) decoder' ∧
      ∀ chunks, owed decoder (chunk :: chunks) = taken ++ owed decoder' chunks) ∨
    (∃ event decoder', (decoder.feed chunk).takeEvents = ([event], decoder') ∧
      ¬ Clean region chunk ∧
      ∀ chunks, ∃ next more, owed decoder (chunk :: chunks) = next :: more ∧ event ≠ next) := by
  rcases quiet_or_dispatch decoder.dataLines (completes decoder chunk) with
    hquiet | ⟨before, line, after, heq, hquiet, hb, hne⟩
  · obtain ⟨hclean, decoder', htake, hafter, hevents⟩ := h.feed_quiet hquiet
    refine .inl ⟨[], decoder', htake, hclean, hafter, fun chunks => ?_⟩
    rw [owed_cons, hevents, nil_append, owed, hafter.buffer, h.tail_eq]
  obtain ⟨decoder', htake, hclean, hafter, hdata⟩ := h.feed_dispatch heq hquiet hb hne
  have howed (chunks : List (List UInt8)) : owed decoder (chunk :: chunks) =
      joined (decoder.dataLines ++ values before) :: eventsFrom [] (after ++
        (pending isNewline (decoder.buffer ++ chunk) ++ chunks.flatten).splitOnP isNewline) := by
    rw [owed_cons, heq, append_assoc, cons_append, eventsFrom_quiet hquiet,
      eventsFrom_blank hb, eventOf, if_neg (by simpa using hne)]
    rfl
  by_cases hvalues : values after = []
  · refine .inl ⟨_, decoder', htake, hclean.mpr hvalues, hafter hvalues, fun chunks => ?_⟩
    rw [howed, hvalues, append_nil, eventsFrom_quiet (quiet_of_values hvalues), hvalues, owed,
      hdata, (hafter hvalues).buffer, h.tail_eq]
    rfl
  · refine .inr ⟨_, decoder', htake, fun hc => hvalues (hclean.mp hc), fun chunks => ?_⟩
    refine ⟨_, _, howed chunks, fun hsame => ?_⟩
    have hlength := length_joined_append hne hvalues
    rw [hsame] at hlength
    omega

theorem After.decode_separated {chunks : List (List UInt8)} (h : After region decoder)
    (hsep : Separated region chunks) : decoder.decode chunks = owed decoder chunks := by
  induction chunks generalizing region decoder with
  | nil =>
    rw [decode, owed, flatten_nil, append_nil]
    exact finish_events (h.buffer ▸ pending_open isNewline region)
  | cons chunk chunks ih =>
    obtain ⟨hclean, hrest⟩ := separated_cons.mp hsep
    rcases h.feed_step chunk with ⟨taken, decoder', htake, _, hafter, howed⟩ | ⟨_, _, _, hnot, _⟩
    · simp only [decode, htake]
      rw [howed chunks, ih hafter hrest]
    · exact absurd hclean hnot

theorem After.decode_diverges {chunks : List (List UInt8)} (h : After region decoder)
    (hsep : ¬ Separated region chunks) : Diverge (decoder.decode chunks) (owed decoder chunks) := by
  induction chunks generalizing region decoder with
  | nil => exact absurd (fun before chunk after heq => absurd heq (by simp)) hsep
  | cons chunk chunks ih =>
    rcases h.feed_step chunk with ⟨taken, decoder', htake, hclean, hafter, howed⟩ |
      ⟨event, decoder', htake, _, howed⟩
    · have hrest : ¬ Separated (region ++ chunk) chunks := fun hrest =>
        hsep (separated_cons.mpr ⟨hclean, hrest⟩)
      simp only [decode, htake]
      rw [howed chunks]
      exact (ih hafter hrest).append_left taken
    · obtain ⟨next, more, hnext, hne⟩ := howed chunks
      simp only [decode, htake]
      exact ⟨[], event, next, _, more, rfl, hnext, hne⟩

theorem owed_new (chunks : List (List UInt8)) : owed SseDecoder.new chunks = events chunks.flatten :=
  (events_eq _).symm

/-- The decoder yields the events of the body exactly where no chunk mixes two blocks. -/
theorem decode_eq_events_iff (chunks : List (List UInt8)) :
    SseDecoder.new.decode chunks = events chunks.flatten ↔ Separated [] chunks := by
  rw [← owed_new]
  constructor
  · intro heq
    by_contra hsep
    exact (after_new.decode_diverges hsep).append_ne [] (by rw [append_nil, heq])
  · exact after_new.decode_separated

end EventStream
end AgentArchivist.Adapter
