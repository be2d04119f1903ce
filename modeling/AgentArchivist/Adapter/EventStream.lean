import AgentArchivist.Adapter.BodyReader
import AgentArchivist.Adapter.SseDecoder

/-! # Streamed events under every framing

`EventStream` pulls a body through its reader, within a cap, and hands out the events the
decoder completes. What it yields up to the end of the stream is what the decoder yields
on the chunks pulled, and one empty event more when the body ends in a carriage return
behind open data (`yields_decode`). So the events of the body are yielded exactly where no
chunk mixes two blocks and the body does not end so. -/
namespace AgentArchivist.Adapter

open FileCapture Lib.Pieces Lib.Utf8 SseDecoder List

structure EventStream where
  reader : Option BodyReader
  decoder : SseDecoder
  bodyCap : UInt64
  observedBytes : Nat
deriving DecidableEq

namespace EventStream

def new (reader : BodyReader) (bodyCap : UInt64) : EventStream :=
  { reader := some reader, decoder := SseDecoder.new, bodyCap, observedBytes := 0 }

/-- What is left to read, and the end of it. -/
def unread (stream : EventStream) : Nat :=
  match stream.reader with
  | none => 0
  | some reader => reader.stream.length + 1

def nextEvent (stream : EventStream) : Except TransportFailure (Option (List UInt8)) × EventStream :=
  match stream.decoder.takeCompleteEvent with
  | (some event, decoder) => (.ok (some event), { stream with decoder })
  | (none, _) =>
    match _hreader : stream.reader with
    | none =>
      let (event, decoder) := stream.decoder.finish
      (.ok event, { stream with decoder })
    | some reader =>
      let capRemaining := stream.bodyCap.toNat - stream.observedBytes
      match _hchunk : reader.nextChunk (max capRemaining 1) with
      | (.error failure, reader) => (.error failure, { stream with reader := some reader })
      | (.ok (some chunk), reader) =>
        let observedBytes := saturatingAdd stream.observedBytes chunk.length
        if observedBytes > stream.bodyCap.toNat then
          (.error (.of .other), { stream with reader := none, observedBytes })
        else
          nextEvent { stream with
            reader := some reader, observedBytes, decoder := stream.decoder.feed chunk }
      | (.ok none, _) => nextEvent { stream with reader := none }
termination_by stream.unread
decreasing_by
  · have hshorter := BodyReader.nextChunk_shorter _hchunk
    simp only [unread, _hreader]
    omega
  · simp only [unread, _hreader]
    omega

/-- The events that calls of `nextEvent` return, up to the end of the stream. -/
inductive Yields : EventStream → List (List UInt8) → Prop
  | done {stream stream' : EventStream} : stream.nextEvent = (.ok none, stream') → Yields stream []
  | next {stream stream' : EventStream} {event : List UInt8} {events : List (List UInt8)} :
      stream.nextEvent = (.ok (some event), stream') → Yields stream' events →
      Yields stream (event :: events)

/-- The chunks a stream pulls, behind what it has observed. -/
inductive Pulls (cap : Nat) : BodyReader → Nat → List (List UInt8) → Prop
  | done {reader reader' : BodyReader} {observed : Nat} :
      reader.nextChunk (max (cap - observed) 1) = (.ok none, reader') → Pulls cap reader observed []
  | next {reader reader' : BodyReader} {observed : Nat} {chunk : List UInt8}
      {chunks : List (List UInt8)} :
      reader.nextChunk (max (cap - observed) 1) = (.ok (some chunk), reader') →
      Pulls cap reader' (observed + chunk.length) chunks → Pulls cap reader observed (chunk :: chunks)

/-! ## Turns of the loop -/

variable {stream : EventStream} {yielded : List (List UInt8)}

theorem Yields.congr {stream'} (h : Yields stream' yielded)
    (heq : stream.nextEvent = stream'.nextEvent) : Yields stream yielded := by
  cases h with
  | done hdone => exact .done (heq.trans hdone)
  | next hnext hrest => exact .next (heq.trans hnext) hrest

variable {decoder : SseDecoder}

theorem takeCompleteEvent_waiting (h : decoder.eventReady = false) :
    decoder.takeCompleteEvent = (none, decoder) := by
  rw [takeCompleteEvent, h]
  rfl

theorem takeCompleteEvent_ready (h : decoder.eventReady = true) :
    decoder.takeCompleteEvent =
      (some (joined decoder.dataLines), { decoder with eventReady := false, dataLines := [] }) := by
  rw [takeCompleteEvent, h]
  rfl

/-- Events that the decoder holds come first. -/
theorem Yields.take {taken} (htake : stream.decoder.takeEvents = (taken, decoder))
    (h : Yields { stream with decoder } yielded) : Yields stream (taken ++ yielded) := by
  cases hready : stream.decoder.eventReady with
  | false =>
    rw [takeEvents_waiting hready] at htake
    cases htake
    exact h
  | true =>
    rw [takeEvents_ready hready] at htake
    cases htake
    refine .next ?_ h
    rw [nextEvent, takeCompleteEvent_ready hready]

section
variable (hwaiting : stream.decoder.eventReady = false)
include hwaiting

theorem nextEvent_pull {reader reader' chunk} (hreader : stream.reader = some reader)
    (hchunk : reader.nextChunk (max (stream.bodyCap.toNat - stream.observedBytes) 1) =
      (.ok (some chunk), reader'))
    (hcap : stream.observedBytes + chunk.length ≤ stream.bodyCap.toNat) :
    stream.nextEvent = nextEvent { stream with
      reader := some reader', observedBytes := stream.observedBytes + chunk.length,
      decoder := stream.decoder.feed chunk } := by
  have hlt : stream.bodyCap.toNat < 2 ^ 64 := stream.bodyCap.toNat_lt
  have hobserved : saturatingAdd stream.observedBytes chunk.length =
      stream.observedBytes + chunk.length :=
    Nat.min_eq_left (by rw [U64_MAX]; omega)
  rw [nextEvent, takeCompleteEvent_waiting hwaiting]
  dsimp only
  split
  · rename_i hnone
    cases hreader.symm.trans hnone
  rename_i hsome
  cases hreader.symm.trans hsome
  split <;> rename_i heq <;> cases hchunk.symm.trans heq
  rw [hobserved, if_neg (Nat.not_lt_of_le hcap)]

theorem nextEvent_end {reader reader'} (hreader : stream.reader = some reader)
    (hchunk : reader.nextChunk (max (stream.bodyCap.toNat - stream.observedBytes) 1) =
      (.ok none, reader')) : stream.nextEvent = nextEvent { stream with reader := none } := by
  rw [nextEvent, takeCompleteEvent_waiting hwaiting]
  dsimp only
  split
  · rename_i hnone
    cases hreader.symm.trans hnone
  rename_i hsome
  cases hreader.symm.trans hsome
  split <;> rename_i heq <;> cases hchunk.symm.trans heq
  rfl

theorem nextEvent_finish (hreader : stream.reader = none) :
    stream.nextEvent =
      (.ok stream.decoder.finish.1, { stream with decoder := stream.decoder.finish.2 }) := by
  rw [nextEvent, takeCompleteEvent_waiting hwaiting]
  dsimp only
  split
  · rfl
  · rename_i hsome
    cases hreader.symm.trans hsome

end

/-! ## The end of the body -/

/-- A last line that is a lone carriage return ends a block with data. -/
def returns (decoder : SseDecoder) : Bool :=
  !decoder.buffer.isEmpty && isBlank decoder.buffer && !decoder.dataLines.isEmpty

/-- The empty event that follows the last one where `finish` leaves the ready flag. -/
def trailing (decoder : SseDecoder) : List (List UInt8) :=
  if returns decoder then [[]] else []

/-- An exhausted stream with nothing held has ended. -/
theorem yields_nil (hreader : stream.reader = none) (hdecoder : stream.decoder = SseDecoder.new) :
    Yields stream [] := by
  have hwaiting : stream.decoder.eventReady = false := by rw [hdecoder]; rfl
  have hnext := nextEvent_finish hwaiting hreader
  have hfinish : stream.decoder.finish.1 = none := by rw [hdecoder]; rfl
  rw [hfinish] at hnext
  exact .done hnext

theorem yields_finish (hwaiting : stream.decoder.eventReady = false) (hreader : stream.reader = none) :
    Yields stream (stream.decoder.finish.1.toList ++ trailing stream.decoder) := by
  have hnext := nextEvent_finish hwaiting hreader
  have hdecoder : stream.decoder.finish.2 = ⟨[], [], returns stream.decoder⟩ := by
    rw [finish_eq, hwaiting, Bool.false_or]
    rfl
  cases hevent : stream.decoder.finish.1 with
  | none =>
    -- without data there is nothing to end
    have hreturns : returns stream.decoder = false := by
      rw [finish_eq] at hevent
      cases hdata : stream.decoder.dataLines with
      | nil => rw [returns, hdata, isEmpty_nil, Bool.not_true, Bool.and_false]
      | cons value values =>
        rw [hdata] at hevent
        cases hevent
    rw [hevent] at hnext
    rw [trailing, hreturns]
    exact .done hnext
  | some event =>
    rw [hevent, hdecoder] at hnext
    refine .next hnext ?_
    rw [trailing]
    cases hreturns : returns stream.decoder with
    | false => exact yields_nil hreader rfl
    | true =>
      have hended : Yields { stream with decoder := SseDecoder.new } [] := yields_nil hreader rfl
      refine .next ?_ hended
      rw [nextEvent]
      rfl

/-! ## The whole stream -/

/-- The decoder after the chunks, every complete event taken. -/
def fed (decoder : SseDecoder) (chunks : List (List UInt8)) : SseDecoder :=
  chunks.foldl (fun decoder chunk => (decoder.feed chunk).takeEvents.2) decoder

theorem takeEvents_waits (decoder : SseDecoder) : decoder.takeEvents.2.eventReady = false := by
  cases h : decoder.eventReady with
  | false => rw [takeEvents_waiting h, h]
  | true => rw [takeEvents_ready h]

/-- A stream within its cap pulls the body and yields what the decoder does on the chunks. -/
theorem yields_decode {reader} {body} (hreader : stream.reader = some reader)
    (hwaiting : stream.decoder.eventReady = false) (hdelivers : Delivers reader body)
    (hcap : stream.observedBytes + body.length ≤ stream.bodyCap.toNat) :
    ∃ chunks, Pulls stream.bodyCap.toNat reader stream.observedBytes chunks ∧
      chunks.flatten = body ∧
      Yields stream (stream.decoder.decode chunks ++ trailing (fed stream.decoder chunks)) := by
  induction hn : body.length using Nat.strongRecOn generalizing stream reader body with
  | ind n ih =>
    rcases nextChunk_delivers (Nat.lt_of_lt_of_le Nat.zero_lt_one (Nat.le_max_right
        (stream.bodyCap.toNat - stream.observedBytes) 1)) hdelivers with
      ⟨rfl, reader', hend⟩ | ⟨chunk, rest, reader', hchunk, hne, -, rfl, hdelivers'⟩
    · refine ⟨[], .done hend, rfl, Yields.congr ?_ (nextEvent_end hwaiting hreader hend)⟩
      exact yields_finish hwaiting rfl
    rw [length_append] at hcap hn
    have hpos := length_pos_iff.mpr hne
    let fedStream : EventStream := { stream with
      reader := some reader', observedBytes := stream.observedBytes + chunk.length,
      decoder := (stream.decoder.feed chunk).takeEvents.2 }
    have hrest : fedStream.observedBytes + rest.length ≤ fedStream.bodyCap.toNat := by
      simp only [fedStream]
      omega
    obtain ⟨chunks, hpulls, hflatten, hyields⟩ :=
      ih rest.length (by omega) (show fedStream.reader = some reader' from rfl) (takeEvents_waits _)
        hdelivers' hrest rfl
    refine ⟨chunk :: chunks, .next hchunk hpulls, by rw [flatten_cons, hflatten], ?_⟩
    refine Yields.congr ?_ (nextEvent_pull hwaiting hreader hchunk (by omega))
    rw [decode, append_assoc]
    exact Yields.take rfl hyields

theorem After.fed {region} {chunks} (h : After region decoder) (hsep : Separated region chunks) :
    After (region ++ chunks.flatten) (fed decoder chunks) := by
  induction chunks generalizing region decoder with
  | nil =>
    rw [flatten_nil, append_nil]
    exact h
  | cons chunk chunks ih =>
    obtain ⟨hclean, hrest⟩ := separated_cons.mp hsep
    rcases h.feed_step chunk with ⟨taken, decoder', htake, _, hafter, _⟩ | ⟨_, _, _, hnot, _⟩
    · rw [flatten_cons, ← append_assoc, EventStream.fed, foldl_cons, htake]
      exact ih hafter hrest
    · exact absurd hclean hnot

/-- The body ends in a line of its own that is a carriage return, behind open data. -/
def EndsInReturn (body : List UInt8) : Prop :=
  pending isNewline body = [CARRIAGE_RETURN] ∧ openValues (finished isNewline body) ≠ []

theorem blank_line_eq {line} (hne : line ≠ []) :
    isBlank line = true ↔ line = [CARRIAGE_RETURN] := by
  rw [isBlank, List.isEmpty_iff, trimmed]
  constructor
  · intro h
    split at h
    · rename_i hlast
      rw [← dropLast_append_getLast? _ hlast, h, nil_append]
    · exact absurd h hne
  · rintro rfl
    rfl

theorem After.returns_iff {body} (h : After body decoder) :
    returns decoder = true ↔ EndsInReturn body := by
  rw [returns, Bool.and_eq_true, Bool.and_eq_true, Bool.not_eq_true', Bool.not_eq_true',
    isEmpty_eq_false_iff, isEmpty_eq_false_iff, EndsInReturn, ← h.buffer, ← h.dataLines]
  refine and_congr_left fun _ => ⟨fun hb => (blank_line_eq hb.1).mp hb.2, fun hb => ?_⟩
  have hne : decoder.buffer ≠ [] := by rw [hb]; exact cons_ne_nil _ _
  exact ⟨hne, (blank_line_eq hne).mpr hb⟩

/-- Events do not depend on chunks or framing exactly where no chunk completes data behind
a block that it ends, and, for a stream, the body does not end in a carriage return
behind open data. -/
theorem event_decoding_iff (chunks : List (List UInt8)) (reader : BodyReader) (body : List UInt8)
    (bodyCap : UInt64) :
    (SseDecoder.new.decode chunks = events chunks.flatten ↔ Separated [] chunks) ∧
    (Delivers reader body → body.length ≤ bodyCap.toNat →
      ∃ chunks yielded, Pulls bodyCap.toNat reader 0 chunks ∧ chunks.flatten = body ∧
        Yields (EventStream.new reader bodyCap) yielded ∧
        (yielded = events body ↔ Separated [] chunks ∧ ¬ EndsInReturn body)) := by
  refine ⟨decode_eq_events_iff chunks, fun hdelivers hcap => ?_⟩
  have hobserved : (new reader bodyCap).observedBytes + body.length ≤ bodyCap.toNat := by
    rwa [new, Nat.zero_add]
  obtain ⟨chunks, hpulls, rfl, hyields⟩ := yields_decode rfl rfl hdelivers hobserved
  refine ⟨chunks, _, hpulls, rfl, hyields, ?_⟩
  by_cases hsep : Separated [] chunks
  · have hreturns := (after_new.fed hsep).returns_iff
    rw [nil_append] at hreturns
    have hdecode : SseDecoder.new.decode chunks = events chunks.flatten :=
      (decode_eq_events_iff chunks).mpr hsep
    rw [← hreturns]
    by_cases hreturn : returns (fed SseDecoder.new chunks) = true
    · simp [new, hdecode, trailing, hreturn]
    · simp [new, hdecode, trailing, hreturn, hsep]
  · refine ⟨fun heq => ?_, fun h => absurd h.1 hsep⟩
    have hdiverge := after_new.decode_diverges hsep
    rw [owed_new] at hdiverge
    exact absurd heq (hdiverge.append_ne _)

/-- Two blocks in one chunk become one event. -/
theorem blocks_of_one_chunk_merged :
    ¬ SseDecoder.new.decode [utf8 "data: a\n\ndata: b\n\n"] =
      events [utf8 "data: a\n\ndata: b\n\n"].flatten := by
  decide +kernel

/-- One chunk with one block, coded with its size and without trailers. -/
def oneBlock : TcpStream := (utf8 "9\r\ndata: a\n\n\r\n0\r\n\r\n").map .byte

theorem oneBlock_delivers : Delivers (.chunked oneBlock .size) (utf8 "data: a\n\n") := by
  have hsize (text : String) : chunkSize (utf8 text) = fromHex (trim (text.toList.takeWhile (· ≠ ';'))) := by
    rw [chunkSize, fromUtf8_utf8]
  have hcode : oneBlock.wire = utf8 "9\r\n" ++ (utf8 "data: a\n\n" ++ (utf8 "\r\n" ++
      (utf8 "0\r\n" ++ (utf8 "\r\n" ++ [])))) := by decide
  have hend : ChunkedBody (utf8 "0\r\n" ++ (utf8 "\r\n" ++ [])) [] :=
    .last ⟨utf8 "0\r", by decide, by decide +kernel, by decide⟩ ((hsize _).trans (by decide)) (.last (by decide))
  refine ⟨fun kind hmem => ?_, ?_⟩
  · obtain ⟨_, _, h⟩ := mem_map.mp hmem
    cases h
  change ChunkedBody oneBlock.wire (utf8 "data: a\n\n" ++ [])
  rw [hcode]
  exact .chunk ⟨utf8 "9\r", by decide, by decide +kernel, by decide⟩ ((hsize _).trans (by decide))
    (by decide) (by decide) hend

theorem one_block_decoded :
    Delivers (.chunked oneBlock .size) (utf8 "data: a\n\n") ∧
    ∃ chunks yielded, Pulls (9 : UInt64).toNat (.chunked oneBlock .size) 0 chunks ∧
      chunks.flatten = utf8 "data: a\n\n" ∧
      Yields (EventStream.new (.chunked oneBlock .size) 9) yielded ∧
      (yielded = events (utf8 "data: a\n\n") ↔
        Separated [] chunks ∧ ¬ EndsInReturn (utf8 "data: a\n\n")) :=
  ⟨oneBlock_delivers, (event_decoding_iff [] _ _ 9).2 oneBlock_delivers (by decide)⟩

theorem one_block_buffered : (BodyReader.chunked oneBlock .size).buffered 9 [] =
    .ok (utf8 "data: a\n\n") := buffered_delivers (by decide) (by decide) oneBlock_delivers

end EventStream
end AgentArchivist.Adapter
