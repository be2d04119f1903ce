import AgentArchivist.Adapter.FileCapture
import AgentArchivist.Protocol.Vocabulary

/-! # Transfer-decoded response bodies

`BodyReader` pulls a response body off a connection in bounded chunks, under one of three
framings: a content length, the end of the connection, or chunked coding. A connection is
the sequence of what its reads find; how many bytes one read returns is up to it. Whatever
the framing and the reads, the chunks pulled are not empty and are the body
(`nextChunk_delivers`). -/
namespace AgentArchivist.Adapter

open FileCapture Lib.Utf8 Protocol.Vocabulary List

/-! ## The connection -/

inductive ErrorKind where
  | timedOut
  | wouldBlock
  | connectionReset
  | connectionAborted
  | brokenPipe
  | unexpectedEof
  | connectionRefused
  | interrupted
  | other
deriving DecidableEq, Repr

/-- What the reads of a connection find: a read returns with what it has when it comes to
a pause, and one that starts at a pause waits for what follows. -/
inductive Arrival where
  | byte (value : UInt8)
  | pause
  | error (kind : ErrorKind)
deriving DecidableEq, Repr

abbrev TcpStream := List Arrival

namespace TcpStream

/-- The bytes at hand, at most `count`. -/
def available : Nat → TcpStream → List UInt8 × TcpStream
  | count + 1, .byte value :: stream =>
    let (bytes, stream) := available count stream
    (value :: bytes, stream)
  | _, stream => ([], stream)

def read (count : Nat) : TcpStream → Except ErrorKind (List UInt8) × TcpStream
  | .pause :: stream => read count stream
  | .error kind :: stream => (.error kind, stream)
  | stream =>
    let (bytes, stream) := available count stream
    (.ok bytes, stream)

/-- Reads until the count is reached; an interrupted read is made again. -/
def readExact : Nat → TcpStream → Except ErrorKind (List UInt8) × TcpStream
  | 0, stream => (.ok [], stream)
  | _ + 1, [] => (.error .unexpectedEof, [])
  | count + 1, .pause :: stream => readExact (count + 1) stream
  | count + 1, .error kind :: stream =>
    if kind = .interrupted then readExact (count + 1) stream else (.error kind, stream)
  | count + 1, .byte value :: stream =>
    match readExact count stream with
    | (.ok bytes, stream) => (.ok (value :: bytes), stream)
    | (.error kind, stream) => (.error kind, stream)

end TcpStream

inductive Direction where
  | read
  | write
deriving DecidableEq, Repr

structure TransportFailure where
  errorClass : TransportErrorClass
  timeoutMs : Option Nat
deriving DecidableEq, Repr

namespace TransportFailure

def of (c : TransportErrorClass) : TransportFailure := ⟨c, none⟩

def fromIo (kind : ErrorKind) (direction : Direction) (timeoutMs : Option Nat) : TransportFailure :=
  let c : TransportErrorClass := match kind with
    | .timedOut | .wouldBlock => match direction with
      | .read => .readTimeout
      | .write => .writeTimeout
    | .connectionReset | .connectionAborted | .brokenPipe | .unexpectedEof => .connectionReset
    | .connectionRefused => .connect
    | _ => .other
  ⟨c, timeoutMs⟩

end TransportFailure

def HEAD_LINE_MAX_BYTES : Nat := 16 * 1024
def READ_CHUNK_BYTES : Nat := 8 * 1024

/-- One line of chunked coding, behind what is read of it already. -/
def readChunkLine (line : List UInt8) : TcpStream → Except TransportFailure (List UInt8) × TcpStream
  | [] => (.error (.of .connectionReset), [])
  | .pause :: stream => readChunkLine line stream
  | .error kind :: stream => (.error (.fromIo kind .read none), stream)
  | .byte value :: stream =>
    let line := line ++ [value]
    if line.length > HEAD_LINE_MAX_BYTES then (.error (.of .transferDecode), stream)
    else if isNewline value then (.ok line, stream)
    else readChunkLine line stream

/-! ## The size line of a chunk -/

/-- Unicode white space (`char::is_whitespace`). -/
def isWhitespace (c : Char) : Bool :=
  let n := c.toNat
  (9 ≤ n && n ≤ 13) || n == 0x20 || n == 0x85 || n == 0xa0 || n == 0x1680 ||
    (0x2000 ≤ n && n ≤ 0x200a) || n == 0x2028 || n == 0x2029 || n == 0x202f || n == 0x205f ||
    n == 0x3000

def trim (text : List Char) : List Char :=
  ((text.dropWhile isWhitespace).reverse.dropWhile isWhitespace).reverse

def hexDigit (c : Char) : Option Nat :=
  if '0' ≤ c ∧ c ≤ '9' then some (c.toNat - '0'.toNat)
  else if 'a' ≤ c ∧ c ≤ 'f' then some (c.toNat - 'a'.toNat + 10)
  else if 'A' ≤ c ∧ c ≤ 'F' then some (c.toNat - 'A'.toNat + 10)
  else none

def hexDigits (value : Nat) : List Char → Option Nat
  | [] => some value
  | c :: rest =>
    match hexDigit c with
    | none => none
    | some digit => if value * 16 + digit > U64_MAX then none else hexDigits (value * 16 + digit) rest

/-- `u64::from_str_radix(digits, 16)`: a leading plus sign is allowed before digits. -/
def fromHex (digits : List Char) : Option Nat :=
  match digits with
  | [] => none
  | ['+'] => none
  | '+' :: rest => hexDigits 0 rest
  | digits => hexDigits 0 digits

/-- The size a chunk's line gives, without its extensions. -/
def chunkSize (line : List UInt8) : Option Nat :=
  match fromUtf8 line with
  | none => none
  | some text => fromHex (trim (text.toList.takeWhile (· ≠ ';')))

/-! ## The reader -/

inductive ChunkedState where
  | size
  | data (remaining : Nat)
  | dataCrlf
  | trailers
  | done
deriving DecidableEq, Repr

inductive BodyReader where
  | length (stream : TcpStream) (remaining : Nat)
  | eof (stream : TcpStream) (complete : Bool)
  | chunked (stream : TcpStream) (state : ChunkedState)
deriving DecidableEq, Repr

def isLineEnd (line : List UInt8) : Bool := line = utf8 "\r\n" || line = utf8 "\n"

theorem readChunkLine_shorter {line text} {stream stream'}
    (h : readChunkLine line stream = (.ok text, stream')) : stream'.length < stream.length := by
  fun_induction readChunkLine line stream with
  | case1 | case3 | case4 => cases h
  | case2 line stream ih
  | case6 line value stream line' hlen hnewline ih => exact Nat.lt_succ_of_lt (ih h)
  | case5 line value stream =>
    obtain rfl : stream = stream' := congrArg Prod.snd h
    exact Nat.lt_succ_self _

/-- The loop over the states of chunked coding, up to the next piece of data. -/
def nextData (cap : Nat) (stream : TcpStream) (state : ChunkedState) :
    Except TransportFailure (Option (List UInt8)) × BodyReader :=
  match state with
  | .size =>
    match _h : readChunkLine [] stream with
    | (.error failure, stream) => (.error failure, .chunked stream .size)
    | (.ok line, stream) =>
      match chunkSize line with
      | none => (.error (.of .transferDecode), .chunked stream .size)
      | some size => nextData cap stream (if size = 0 then .trailers else .data size)
  | .data remaining =>
    let want := min (min remaining READ_CHUNK_BYTES) cap
    if want = 0 then (.error (.of .other), .chunked stream (.data remaining))
    else match stream.readExact want with
      | (.error kind, stream) => (.error (.fromIo kind .read none), .chunked stream (.data remaining))
      | (.ok chunk, stream) =>
        let remaining := remaining - want
        (.ok (some chunk), .chunked stream (if remaining = 0 then .dataCrlf else .data remaining))
  | .dataCrlf =>
    match _h : readChunkLine [] stream with
    | (.error failure, stream) => (.error failure, .chunked stream .dataCrlf)
    | (.ok line, stream) =>
      if isLineEnd line then nextData cap stream .size
      else (.error (.of .transferDecode), .chunked stream .dataCrlf)
  | .trailers =>
    match _h : readChunkLine [] stream with
    | (.error failure, stream) => (.error failure, .chunked stream .trailers)
    | (.ok line, stream) =>
      nextData cap stream (if isLineEnd line || line.isEmpty then .done else .trailers)
  | .done => (.ok none, .chunked stream .done)
termination_by stream.length
decreasing_by
  all_goals exact readChunkLine_shorter _h

namespace BodyReader

def nextChunk (reader : BodyReader) (capRemaining : Nat) :
    Except TransportFailure (Option (List UInt8)) × BodyReader :=
  match reader with
  | .length stream remaining =>
    if remaining = 0 then (.ok none, reader)
    else
      let want := min (min remaining READ_CHUNK_BYTES) capRemaining
      if want = 0 then (.error (.of .other), reader)
      else match stream.readExact want with
        | (.error kind, stream) => (.error (.fromIo kind .read none), .length stream remaining)
        | (.ok chunk, stream) => (.ok (some chunk), .length stream (remaining - want))
  | .eof stream complete =>
    if complete then (.ok none, reader)
    else match stream.read (min READ_CHUNK_BYTES (max capRemaining 1)) with
      | (.error kind, stream) => (.error (.fromIo kind .read none), .eof stream false)
      | (.ok chunk, stream) =>
        if chunk.length = 0 then (.ok none, .eof stream true)
        else (.ok (some chunk), .eof stream false)
  | .chunked stream state => nextData capRemaining stream state

def stream : BodyReader → TcpStream
  | .length stream _ => stream
  | .eof stream _ => stream
  | .chunked stream _ => stream

end BodyReader

/-! ## Every piece is read off the connection -/

theorem TcpStream.available_shorter {count} {stream stream' : TcpStream} {bytes : List UInt8}
    (h : stream.available count = (bytes, stream')) :
    stream'.length + bytes.length = stream.length := by
  fun_induction TcpStream.available count stream generalizing bytes with
  | case1 count value stream bytes1 stream1 heq ih =>
    cases h
    rw [length_cons, length_cons, ← ih heq, Nat.add_assoc]
  | case2 => cases h; rfl

theorem TcpStream.read_shorter {count} {stream stream' : TcpStream} {bytes : List UInt8}
    (h : stream.read count = (.ok bytes, stream')) :
    stream'.length + bytes.length ≤ stream.length := by
  fun_induction TcpStream.read count stream with
  | case1 stream ih => exact Nat.le_succ_of_le (ih h)
  | case2 => cases h
  | case3 =>
    rename_i heq
    cases h
    exact (TcpStream.available_shorter heq).le

theorem TcpStream.readExact_shorter {count} {stream stream' : TcpStream} {bytes}
    (h : stream.readExact count = (.ok bytes, stream')) :
    stream'.length + count ≤ stream.length := by
  fun_induction TcpStream.readExact count stream generalizing bytes with
  | case1 => cases h; exact Nat.le_refl _
  | case2 | case5 | case7 => cases h
  | case3 count stream ih | case4 count stream ih => exact Nat.le_succ_of_le (ih h)
  | case6 count value stream bytes1 stream1 heq ih =>
    cases h
    exact Nat.succ_le_succ (ih heq)

theorem nextData_shorter {cap} {stream : TcpStream} {state chunk} {reader : BodyReader}
    (h : nextData cap stream state = (.ok (some chunk), reader)) :
    reader.stream.length < stream.length := by
  fun_induction nextData cap stream state with
  | case1 | case2 | case4 | case5 | case7 | case9 | case10 | case12 => cases h
  | case3 stream line stream' hread size hsize ih =>
    exact Nat.lt_trans (ih h) (readChunkLine_shorter hread)
  | case6 stream remaining want hwant bytes stream' hread =>
    cases h
    have hshorter := TcpStream.readExact_shorter hread
    simp only [BodyReader.stream]
    omega
  | case8 stream line stream' hread hend ih =>
    exact Nat.lt_trans (ih h) (readChunkLine_shorter hread)
  | case11 stream line stream' hread ih =>
    exact Nat.lt_trans (ih h) (readChunkLine_shorter hread)

theorem BodyReader.nextChunk_shorter {reader reader' : BodyReader} {cap chunk}
    (h : reader.nextChunk cap = (.ok (some chunk), reader')) :
    reader'.stream.length < reader.stream.length := by
  revert h
  fun_cases BodyReader.nextChunk reader cap with
  | case1 | case2 | case3 | case5 | case6 | case7 => exact nofun
  | case4 stream remaining hremaining want hwant bytes stream' hread =>
    intro h
    cases h
    have hshorter := TcpStream.readExact_shorter hread
    simp only [BodyReader.stream]
    omega
  | case8 stream complete hcomplete bytes stream' hread hlength =>
    intro h
    cases h
    have hshorter := TcpStream.read_shorter hread
    simp only [BodyReader.stream]
    omega
  | case9 stream state => exact nextData_shorter

/-! ## What a connection holds -/

namespace TcpStream

/-- The bytes on the wire. -/
def wire (stream : TcpStream) : List UInt8 :=
  stream.filterMap fun
    | .byte value => some value
    | _ => none

/-- No read fails. -/
def Intact (stream : TcpStream) : Prop := ∀ kind, Arrival.error kind ∉ stream

@[simp] theorem wire_byte {value stream} :
    wire (.byte value :: stream) = value :: wire stream := rfl

theorem Intact.tail {arrival stream} (h : Intact (arrival :: stream)) :
    Intact stream := fun kind hmem => h kind (mem_cons_of_mem _ hmem)

theorem Intact.not_error {kind stream} (h : Intact (.error kind :: stream)) :
    False := h kind mem_cons_self

theorem available_spec (count : Nat) {stream} (h : Intact stream) :
    ∃ bytes stream', available count stream = (bytes, stream') ∧ bytes.length ≤ count ∧
      wire stream = bytes ++ wire stream' ∧ Intact stream' := by
  fun_induction available count stream with
  | case1 count value stream bytes stream' heq ih =>
    obtain ⟨bytes1, stream1, h1, hlen, hwire, hintact⟩ := ih h.tail
    cases heq.symm.trans h1
    exact ⟨value :: bytes, stream', rfl, Nat.succ_le_succ hlen, by rw [wire_byte, hwire]; rfl, hintact⟩
  | case2 count stream => exact ⟨[], stream, rfl, Nat.zero_le _, rfl, h⟩

/-- A read finds the end of the bytes, or some of them. -/
theorem read_spec {count} (hcount : 0 < count) {stream} (h : Intact stream) :
    ∃ bytes stream', read count stream = (.ok bytes, stream') ∧ bytes.length ≤ count ∧
      wire stream = bytes ++ wire stream' ∧ Intact stream' ∧ (bytes = [] → wire stream = []) := by
  induction stream with
  | nil => exact ⟨[], [], by cases count <;> rfl, Nat.zero_le _, rfl, h, fun _ => rfl⟩
  | cons arrival stream ih =>
    cases arrival with
    | pause => exact ih h.tail
    | error kind => exact h.not_error.elim
    | byte value =>
      obtain ⟨count, rfl⟩ := Nat.exists_eq_succ_of_ne_zero (Nat.ne_of_gt hcount)
      obtain ⟨bytes, stream', heq, hlen, hwire, hintact⟩ := available_spec count h.tail
      refine ⟨value :: bytes, stream', ?_, Nat.succ_le_succ hlen, ?_, hintact, nofun⟩
      · simp [read, available, heq]
      · rw [wire_byte, hwire, cons_append]

theorem readExact_spec {data rest} {stream} (h : Intact stream) (hwire : wire stream = data ++ rest) :
    ∃ stream',
      readExact data.length stream = (.ok data, stream') ∧ wire stream' = rest ∧ Intact stream' := by
  induction stream generalizing data with
  | nil =>
    obtain ⟨rfl, rfl⟩ := append_eq_nil_iff.mp hwire.symm
    exact ⟨[], rfl, rfl, h⟩
  | cons arrival stream ih =>
    cases data with
    | nil => exact ⟨arrival :: stream, by simp [readExact], hwire, h⟩
    | cons value data =>
      cases arrival with
      | pause => exact ih h.tail hwire
      | error kind => exact h.not_error.elim
      | byte value' =>
        obtain ⟨rfl, hrest⟩ := List.cons.inj hwire
        obtain ⟨stream', heq, hrest', hintact⟩ := ih h.tail hrest
        exact ⟨stream', by simp only [length_cons, readExact, heq], hrest', hintact⟩

end TcpStream

open TcpStream

/-- A line of chunked coding within the bound. -/
def IsLine (line : List UInt8) : Prop :=
  ∃ text, line = text ++ [0x0a] ∧ (∀ byte ∈ text, isNewline byte = false) ∧
    line.length ≤ HEAD_LINE_MAX_BYTES

/-- A line, part of it read already, is read to its end. -/
theorem readChunkLine_rest {line text rest stream} (h : Intact stream)
    (hwire : wire stream = text ++ 0x0a :: rest) (htext : ∀ byte ∈ text, isNewline byte = false)
    (hlen : (line ++ text).length + 1 ≤ HEAD_LINE_MAX_BYTES) : ∃ stream',
      readChunkLine line stream = (.ok (line ++ text ++ [0x0a]), stream') ∧ wire stream' = rest ∧
        Intact stream' := by
  induction stream generalizing line text with
  | nil => exact absurd hwire.symm (by simp [wire])
  | cons arrival stream ih =>
    cases arrival with
    | pause => exact ih h.tail hwire htext hlen
    | error kind => exact h.not_error.elim
    | byte value =>
      rw [length_append] at hlen
      have hshort : ¬ (line ++ [value]).length > HEAD_LINE_MAX_BYTES := by
        rw [length_append, length_singleton]
        omega
      cases text with
      | nil =>
        obtain ⟨rfl, hrest⟩ := List.cons.inj hwire
        refine ⟨stream, ?_, hrest, h.tail⟩
        rw [readChunkLine, if_neg hshort, append_nil]
        rfl
      | cons first text =>
        obtain ⟨rfl, hrest⟩ := List.cons.inj hwire
        obtain ⟨hfirst, htext⟩ := forall_mem_cons.mp htext
        have hlen' : (line ++ [value] ++ text).length + 1 ≤ HEAD_LINE_MAX_BYTES := by
          simp only [length_append, length_cons, length_nil] at hlen ⊢
          omega
        obtain ⟨stream', heq, hrest', hintact⟩ := ih h.tail hrest htext hlen'
        refine ⟨stream', ?_, hrest', hintact⟩
        rw [readChunkLine, if_neg hshort, hfirst, if_neg Bool.false_ne_true, heq, append_assoc line]
        rfl

theorem IsLine.read {line rest stream} (hline : IsLine line) (h : Intact stream)
    (hwire : wire stream = line ++ rest) : ∃ stream',
      readChunkLine [] stream = (.ok line, stream') ∧ wire stream' = rest ∧ Intact stream' := by
  obtain ⟨text, rfl, htext, hlen⟩ := hline
  rw [append_assoc] at hwire
  exact readChunkLine_rest h hwire htext (by simpa using hlen)

theorem isLine_of_isLineEnd {line} (h : isLineEnd line = true) : IsLine line := by
  rw [isLineEnd, Bool.or_eq_true, decide_eq_true_iff, decide_eq_true_iff] at h
  rcases h with rfl | rfl
  · exact ⟨[0x0d], by decide, forall_mem_singleton.mpr (by decide), by decide⟩
  · exact ⟨[], by decide, forall_mem_nil _, by decide⟩

/-! ## Bodies as framed -/

/-- The lines after the last chunk, through an empty one. -/
inductive TrailerPart : List UInt8 → Prop
  | last {line rest : List UInt8} : isLineEnd line = true → TrailerPart (line ++ rest)
  | trailer {line rest : List UInt8} : IsLine line → isLineEnd line = false → TrailerPart rest →
      TrailerPart (line ++ rest)

/-- The wire begins with the chunked coding of the body. -/
inductive ChunkedBody : List UInt8 → List UInt8 → Prop
  | last {line rest : List UInt8} : IsLine line → chunkSize line = some 0 → TrailerPart rest →
      ChunkedBody (line ++ rest) []
  | chunk {line data ending rest body : List UInt8} : IsLine line →
      chunkSize line = some data.length → data ≠ [] → isLineEnd ending = true →
      ChunkedBody rest body → ChunkedBody (line ++ (data ++ (ending ++ rest))) (data ++ body)

/-- The rest of a chunked body, in a state of the reader. -/
def Coded (wire body : List UInt8) : ChunkedState → Prop
  | .size => ChunkedBody wire body
  | .data remaining => ∃ data ending rest body', data.length = remaining ∧ data ≠ [] ∧
      isLineEnd ending = true ∧ ChunkedBody rest body' ∧ wire = data ++ (ending ++ rest) ∧
      body = data ++ body'
  | .dataCrlf => ∃ ending rest, isLineEnd ending = true ∧ ChunkedBody rest body ∧
      wire = ending ++ rest
  | .trailers => TrailerPart wire ∧ body = []
  | .done => body = []

/-- The body that the reader's framing gives on an intact connection. -/
def Delivers (reader : BodyReader) (body : List UInt8) : Prop :=
  Intact reader.stream ∧
  match reader with
  | .length stream remaining => remaining = body.length ∧ body <+: wire stream
  | .eof stream complete => body = if complete then [] else wire stream
  | .chunked stream state => Coded (wire stream) body state

/-- What a pull gives: the end of the body, or a piece of it. -/
def Pulled (cap : Nat) (body : List UInt8)
    (result : Except TransportFailure (Option (List UInt8)) × BodyReader) : Prop :=
  (body = [] ∧ ∃ reader, result = (.ok none, reader)) ∨
  ∃ chunk rest reader, result = (.ok (some chunk), reader) ∧ chunk ≠ [] ∧ chunk.length ≤ cap ∧
    body = chunk ++ rest ∧ Delivers reader rest

variable {cap : Nat} {stream : TcpStream} {body : List UInt8}

theorem nextData_trailers (h : TrailerPart (wire stream)) (hintact : Intact stream) :
    ∃ reader, nextData cap stream .trailers = (.ok none, reader) := by
  generalize hw : wire stream = w at h
  induction h generalizing stream with
  | last hend =>
    obtain ⟨stream', hread, -, -⟩ := (isLine_of_isLineEnd hend).read hintact hw
    rw [nextData]
    split <;> rename_i heq <;> cases heq.symm.trans hread
    rw [hend, Bool.true_or, if_pos rfl, nextData]
    exact ⟨_, rfl⟩
  | trailer hline hend htail ih =>
    obtain ⟨stream', hread, hw', hintact'⟩ := hline.read hintact hw
    rw [nextData]
    split <;> rename_i heq <;> cases heq.symm.trans hread
    have hfilled : ∀ line : List UInt8, IsLine line → line.isEmpty = false := by
      rintro _ ⟨text, rfl, -, -⟩
      simp
    rw [hend, hfilled _ hline, Bool.or_self, if_neg Bool.false_ne_true]
    exact ih hintact' hw'

/-- A piece of data as long as the bounds allow. -/
theorem split_want {remaining} {data : List UInt8} (hcap : 0 < cap) (hlen : data.length = remaining)
    (hne : data ≠ []) : ∃ chunk rest, data = chunk ++ rest ∧
      chunk.length = min (min remaining READ_CHUNK_BYTES) cap ∧ chunk ≠ [] ∧ chunk.length ≤ cap ∧
      rest.length = remaining - min (min remaining READ_CHUNK_BYTES) cap := by
  have hpos := length_pos_iff.mpr hne
  have hread : 0 < READ_CHUNK_BYTES := by decide
  refine ⟨data.take (min (min remaining READ_CHUNK_BYTES) cap), data.drop _,
    (take_append_drop _ data).symm, ?_, ?_, ?_, ?_⟩
  · rw [length_take]
    omega
  · rw [← length_pos_iff, length_take]
    omega
  · rw [length_take]
    omega
  · rw [length_drop, hlen]

theorem nextData_data {remaining} (hcap : 0 < cap) (hintact : Intact stream)
    (h : Coded (wire stream) body (.data remaining)) :
    Pulled cap body (nextData cap stream (.data remaining)) := by
  obtain ⟨data, ending, rest, body', hlen, hne, hend, hbody, hwire, rfl⟩ := h
  obtain ⟨chunk, more, rfl, hchunk, hchunkne, hle, hmore⟩ := split_want hcap hlen hne
  rw [append_assoc] at hwire
  obtain ⟨stream', hread, hwire', hintact'⟩ := readExact_spec hintact hwire
  have hwant : ¬ min (min remaining READ_CHUNK_BYTES) cap = 0 := by
    rw [← hchunk]
    exact fun hzero => hchunkne (length_eq_zero_iff.mp hzero)
  refine .inr ⟨chunk, more ++ body',
    .chunked stream' (if more.length = 0 then .dataCrlf else .data more.length), ?_, hchunkne, hle,
    append_assoc .., hintact', ?_⟩
  · rw [hchunk] at hread
    rw [nextData]
    simp only [if_neg hwant, hread, hmore]
  · cases more with
    | nil => exact ⟨ending, rest, hend, hbody, hwire'⟩
    | cons first more => exact ⟨first :: more, ending, rest, body', rfl, nofun, hend, hbody, hwire', rfl⟩

theorem nextData_size (hcap : 0 < cap) (hintact : Intact stream)
    (h : ChunkedBody (wire stream) body) : Pulled cap body (nextData cap stream .size) := by
  generalize hw : wire stream = w at h
  cases h with
  | last hline hsize htrailers =>
    obtain ⟨stream', hread, hw', hintact'⟩ := hline.read hintact hw
    rw [nextData]
    split <;> rename_i heq <;> cases heq.symm.trans hread
    rw [hsize]
    exact .inl ⟨rfl, nextData_trailers (hw' ▸ htrailers) hintact'⟩
  | @chunk line data ending rest body hline hsize hne hend hbody =>
    obtain ⟨stream', hread, hw', hintact'⟩ := hline.read hintact hw
    rw [nextData]
    split <;> rename_i heq <;> cases heq.symm.trans hread
    rw [hsize]
    dsimp only
    rw [if_neg fun hzero => hne (length_eq_zero_iff.mp hzero)]
    exact nextData_data hcap hintact' ⟨data, ending, rest, body, rfl, hne, hend, hbody, hw', rfl⟩

theorem nextData_coded (hcap : 0 < cap) (hintact : Intact stream) {state}
    (h : Coded (wire stream) body state) : Pulled cap body (nextData cap stream state) := by
  cases state with
  | size => exact nextData_size hcap hintact h
  | data remaining => exact nextData_data hcap hintact h
  | dataCrlf =>
    obtain ⟨ending, rest, hend, hbody, hwire⟩ := h
    obtain ⟨stream', hread, hw', hintact'⟩ := (isLine_of_isLineEnd hend).read hintact hwire
    rw [nextData]
    split <;> rename_i heq <;> cases heq.symm.trans hread
    rw [if_pos hend]
    exact nextData_size hcap hintact' (hw' ▸ hbody)
  | trailers => exact .inl ⟨h.2, nextData_trailers h.1 hintact⟩
  | done =>
    rw [nextData]
    exact .inl ⟨h, _, rfl⟩

/-- Every framing delivers its body, piece by piece. -/
theorem nextChunk_delivers {reader : BodyReader} (hcap : 0 < cap) (h : Delivers reader body) :
    Pulled cap body (reader.nextChunk cap) := by
  obtain ⟨hintact, hbody⟩ := h
  cases reader with
  | length stream remaining =>
    obtain ⟨rfl, more, hwire⟩ := hbody
    by_cases hnil : body = []
    · exact .inl ⟨hnil, _, by rw [BodyReader.nextChunk, if_pos (by rw [hnil]; rfl)]⟩
    obtain ⟨chunk, rest, hsplit, hchunk, hchunkne, hle, hrest⟩ := split_want hcap rfl hnil
    have hlen : ¬ body.length = 0 := fun hzero => hnil (length_eq_zero_iff.mp hzero)
    have hwant : ¬ min (min body.length READ_CHUNK_BYTES) cap = 0 := by
      rw [← hchunk]
      exact fun hzero => hchunkne (length_eq_zero_iff.mp hzero)
    have hwire' : wire stream = chunk ++ (rest ++ more) := by
      rw [← hwire, hsplit, append_assoc]
    have hstream : Intact stream := hintact
    obtain ⟨stream', hread, hw', hintact'⟩ := readExact_spec hstream hwire'
    rw [hchunk] at hread
    refine .inr ⟨chunk, rest, .length stream' rest.length, ?_, hchunkne, hle, hsplit, hintact', rfl,
      ⟨more, hw'.symm⟩⟩
    rw [BodyReader.nextChunk, if_neg hlen]
    simp only [if_neg hwant, hread, hrest]
  | eof stream complete =>
    cases complete with
    | true => exact .inl ⟨hbody, _, rfl⟩
    | false =>
      have hcount : 0 < min READ_CHUNK_BYTES (max cap 1) := by
        have hread : 0 < READ_CHUNK_BYTES := by decide
        omega
      obtain ⟨chunk, stream', hread, hlen, hwire, hintact', hnil⟩ := read_spec hcount hintact
      have hbody' : body = wire stream := hbody
      by_cases hchunk : chunk = []
      · refine .inl ⟨hbody'.trans (hnil hchunk), .eof stream' true, ?_⟩
        simp only [BodyReader.nextChunk, Bool.false_eq_true, if_false, BodyReader.stream] at hread ⊢
        rw [hread, hchunk]
        rfl
      refine .inr ⟨chunk, wire stream', .eof stream' false, ?_, hchunk, by omega,
        hbody'.trans hwire, hintact', rfl⟩
      have hlength : ¬ chunk.length = 0 := fun hzero => hchunk (length_eq_zero_iff.mp hzero)
      simp only [BodyReader.nextChunk, Bool.false_eq_true, if_false, BodyReader.stream] at hread ⊢
      rw [hread]
      simp only [if_neg hlength]
  | chunked stream state => exact nextData_coded hcap hintact hbody

/-! ## Buffered bodies -/

/-- The loop of `finish_response` that buffers a body. -/
def BodyReader.buffered (reader : BodyReader) (maxBodyBytes : Nat) (body : List UInt8) :
    Except TransportFailure (List UInt8) :=
  match _hchunk : reader.nextChunk maxBodyBytes with
  | (.error failure, _) => .error failure
  | (.ok none, _) => .ok body
  | (.ok (some chunk), reader) =>
    if (body ++ chunk).length > maxBodyBytes then .error (.of .other)
    else buffered reader maxBodyBytes (body ++ chunk)
termination_by reader.stream.length
decreasing_by exact nextChunk_shorter _hchunk

/-- A body is buffered whole where it fits, and refused where not, however it arrives. -/
theorem buffered_delivers {reader : BodyReader} {held} (hcap : 0 < cap) (hheld : held.length ≤ cap)
    (h : Delivers reader body) : reader.buffered cap held =
      if (held ++ body).length ≤ cap then .ok (held ++ body) else .error (.of .other) := by
  induction hn : body.length using Nat.strongRecOn generalizing reader held body with
  | ind n ih =>
    rw [BodyReader.buffered]
    rcases nextChunk_delivers hcap h with
      ⟨rfl, reader', hend⟩ | ⟨chunk, rest, reader', hchunk, hne, -, rfl, hrest⟩
    · split <;> rename_i heq <;> cases hend.symm.trans heq
      rw [append_nil, if_pos hheld]
    split <;> rename_i heq <;> cases hchunk.symm.trans heq
    have hpos := length_pos_iff.mpr hne
    rw [← append_assoc]
    split
    · rw [if_neg (by rw [length_append]; omega)]
    · rw [length_append] at hn
      exact ih rest.length (by omega) (by omega) hrest rfl

end AgentArchivist.Adapter
