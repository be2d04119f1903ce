import AgentArchivist.Protocol.IngestEnvelope
import AgentArchivist.Server.FramingAccept
import AgentArchivist.Server.PartsRoundTrip
import Mathlib.Algebra.Ring.Nat

/-! # The body of a request, as it is read

`BodyChannel` is the blocking side of the bridge that the body is fed through: it digests
every byte that leaves it. `parseIngestWithCap` takes the envelope from it and leaves the
payload as a stream, and `DigestingPayload` digests that stream as it is read.

What is read from a stream whose body closes behind it is the second part of that body, and
all bytes of the body have left the bridge by then (`closed_body`). -/
namespace AgentArchivist.Server.RequestBody
open Lib List
open Events Source Protocol Protocol.IngestEnvelope FramedBody Framing FramingAccept FramingChunks
open FramingRefine FramingSpec Parts PartsRoundTrip FramingTokenizer

/-- What is left behind a cursor that was moved by what was copied. -/
theorem drop_copied (data : List UInt8) (cursor room : Nat) :
    data.drop (cursor + ((data.drop cursor).take room).length) = (data.drop cursor).drop room := by
  rw [← drop_drop, length_take]
  rcases Nat.le_total room (data.drop cursor).length with hle | hle
  · rw [Nat.min_eq_left hle]
  · rw [Nat.min_eq_right hle, drop_length, drop_of_length_le hle]

/-! ## The bridge -/

structure BodyChannel where
  /-- The chunks that are fed and were not taken. -/
  receiver : List (List UInt8)
  chunk : List UInt8
  cursor : Nat
  requestHasher : Sha256.Hasher

namespace BodyChannel

/-- A bridge that nothing has left. -/
def fed (chunks : List (List UInt8)) : BodyChannel := ⟨chunks, [], 0, Sha256.new⟩

/-- The loop of `pull`: an empty chunk carries nothing. -/
def pullFrom (room : Nat) (hasher : Sha256.Hasher) :
    List (List UInt8) → List UInt8 → Nat → List UInt8 × BodyChannel
  | receiver, chunk, cursor =>
    if cursor < chunk.length then
      let copied := (chunk.drop cursor).take room
      (copied, ⟨receiver, chunk, cursor + copied.length, Sha256.update hasher copied⟩)
    else
      match receiver with
      | [] => ([], ⟨[], chunk, cursor, hasher⟩)
      | next :: receiver =>
        if next = [] then pullFrom room hasher receiver chunk cursor
        else pullFrom room hasher receiver next 0

def pull (b : BodyChannel) (room : Nat) : List UInt8 × BodyChannel :=
  pullFrom room b.requestHasher b.receiver b.chunk b.cursor

/-- What has not left the bridge. -/
def remaining (b : BodyChannel) : List UInt8 := b.chunk.drop b.cursor ++ b.receiver.flatten

/-- What a pull copies: the first bytes that remain, and some unless there are none. -/
structure Copied (before : List UInt8) (hasher : Sha256.Hasher) (room : Nat)
    (out : List UInt8 × BodyChannel) : Prop where
  split : before = out.1 ++ out.2.remaining
  fits : out.1.length ≤ room
  ended : 0 < room → out.1 = [] → out.2.remaining = []
  hashed : out.2.requestHasher = Sha256.update hasher out.1

theorem copied_chunk {chunk} {cursor} (h : cursor < chunk.length) (room : Nat)
    (hasher : Sha256.Hasher) (receiver : List (List UInt8)) :
    Copied (chunk.drop cursor ++ receiver.flatten) hasher room ((chunk.drop cursor).take room,
      ⟨receiver, chunk, cursor + ((chunk.drop cursor).take room).length,
        Sha256.update hasher ((chunk.drop cursor).take room)⟩) := by
  refine ⟨?_, length_take_le .., fun hroom hnil => ?_, rfl⟩
  · simp only [remaining, drop_copied]
    rw [← append_assoc, take_append_drop]
  rcases take_eq_nil_iff.mp hnil with hzero | hzero
  · omega
  · rw [drop_eq_nil_iff] at hzero
    omega

theorem pullFrom_copied (room : Nat) (hasher : Sha256.Hasher) (receiver : List (List UInt8))
    (chunk : List UInt8) (cursor : Nat) : Copied (chunk.drop cursor ++ receiver.flatten) hasher room
      (pullFrom room hasher receiver chunk cursor) := by
  induction receiver generalizing chunk cursor with
  | nil =>
    unfold pullFrom
    split
    · exact copied_chunk ‹_› room hasher []
    · rename_i hend
      refine ⟨rfl, Nat.zero_le _, fun _ _ => ?_, (Sha256.update_nil _).symm⟩
      simp [remaining, not_lt.mp hend]
  | cons next receiver ih =>
    unfold pullFrom
    split
    · exact copied_chunk ‹_› room hasher (next :: receiver)
    rename_i hend
    rw [drop_of_length_le (not_lt.mp hend), nil_append, flatten_cons]
    by_cases hnext : next = []
    · have hempty := ih chunk cursor
      rw [drop_of_length_le (not_lt.mp hend), nil_append] at hempty
      simpa only [hnext, if_true, nil_append] using hempty
    · simpa only [hnext, if_false, drop_zero] using ih next 0

theorem pull_copied (b : BodyChannel) (room : Nat) :
    Copied b.remaining b.requestHasher room (b.pull room) :=
  pullFrom_copied room b.requestHasher b.receiver b.chunk b.cursor

end BodyChannel

/-- The bridge never fails: a body that broke off is one that ended. -/
instance : ByteSource BodyChannel where
  pull b room := (.ok (b.pull room).1, (b.pull room).2)
  length_le h := by
    cases h
    exact (BodyChannel.pull_copied ..).fits

theorem BodyChannel.delivers (b : BodyChannel) : Delivers b b.remaining := by
  refine ⟨fun b data => b.remaining = data, rfl, ?_⟩
  rintro b _ room rfl hroom
  have hcopied := b.pull_copied room
  exact ⟨_, _, _, rfl, hcopied.split, hcopied.ended hroom, rfl⟩

/-- The first pull takes a chunk that fits as a whole. -/
theorem BodyChannel.pull_fed {first} (rest : List (List UInt8)) {room} (hne : first ≠ [])
    (hroom : first.length ≤ room) :
    ∃ b, PullSource.pull (BodyChannel.fed (first :: rest)) room = (.ok first, b) := by
  have hempty : ¬ 0 < ([] : List UInt8).length := Nat.lt_irrefl 0
  have hcopied : ((BodyChannel.fed (first :: rest)).pull room).1 = first := by
    show (pullFrom room Sha256.new (first :: rest) [] 0).1 = first
    rw [pullFrom, if_neg hempty, if_neg hne, pullFrom.eq_def]
    dsimp only
    rw [if_pos (length_pos_iff.mpr hne)]
    exact take_of_length_le hroom
  exact ⟨_, Prod.ext (congrArg Except.ok hcopied) rfl⟩

/-- The digest of a bridge is the digest of what has left it. -/
def Digested (body : List UInt8) (b : BodyChannel) : Prop :=
  ∃ left, b.requestHasher = Sha256.update Sha256.new left ∧ body = left ++ b.remaining

theorem Digested.pull {body b} (h : Digested body b) (room : Nat) :
    Digested body (PullSource.pull b room).2 := by
  obtain ⟨left, hhasher, rfl⟩ := h
  have hcopied := b.pull_copied room
  refine ⟨left ++ (b.pull room).1, ?_, ?_⟩
  · show (b.pull room).2.requestHasher = _
    rw [hcopied.hashed, hhasher, Sha256.update_update]
  · rw [append_assoc]
    exact congrArg (left ++ ·) hcopied.split

/-! ## What a run of the tokenizer does to its source -/

section
variable {σ : Type} [ByteSource σ] {P : σ → Prop} {t t' : FramingTokenizer σ}

/-- The tokenizer that a turn leaves. -/
def tokenizerOf : Turn σ → FramingTokenizer σ
  | .again t | .event _ t | .finished t | .error _ t => t

section
variable (hP : ∀ s room, P s → P (PullSource.pull s room).2)
include hP

theorem fill_kept (h : P t.source) : P t.fill.2.source := by
  have hpull := hP t.source (FRAMING_WINDOW_BYTES - t.live.length) h
  unfold fill
  split
  · exact h
  · split <;> rename_i heq <;> rw [heq] at hpull <;> exact hpull

theorem refill_kept (h : P t.source) (ended : FramingTokenizer σ → FramingError) :
    P (tokenizerOf (t.refill ended)).source := by
  have hfill := fill_kept hP h
  unfold refill
  split <;> rename_i heq <;> rw [heq] at hfill <;> exact hfill

theorem step_kept (h : P t.source) : P (tokenizerOf t.step).source := by
  have hmoves := step_moves t
  generalize t.step = turn at hmoves ⊢
  cases hmoves with
  | refilled ended _ => exact refill_kept hP h ended
  | yielded _ hsource => exact hsource ▸ h
  | dashes | refused => exact h
  | drained hfill | failed _ hfill =>
    have hkept := fill_kept hP h
    rwa [hfill] at hkept

/-- What a pull keeps of a source is kept by every event. -/
theorem nextEvent_kept (h : P t.source) : P t.nextEvent.2.source := by
  fun_induction nextEvent t with
  | case1 t t1 hturn ih => exact ih (hturn ▸ step_kept hP h :)
  | case2 t _ t1 hturn | case3 t t1 hturn | case4 t _ t1 hturn => exact (hturn ▸ step_kept hP h :)

theorem reaches_kept {evs} (hr : Reaches nextEvent t evs t') (h : P t.source) : P t'.source := by
  induction hr with
  | refl => exact h
  | step hn _ ih =>
    have hkept := nextEvent_kept hP h
    rw [hn] at hkept
    exact ih hkept

end

/-- The end of a body is found by a pull that brings nothing. -/
theorem nextEvent_ended (hs : t.stage = .done) (h : t.nextEvent = (.ok none, t')) :
    ∃ s room, 0 < room ∧ PullSource.pull s room = (.ok [], t'.source) := by
  have hstep : t.step = t.stepDone := by simp only [step, hs]
  unfold stepDone at hstep
  split at hstep
  · rw [nextEvent_error hstep] at h
    cases h
  split at hstep
  · rw [nextEvent_error hstep] at h
    cases h
  · rename_i t1 hfill
    rw [nextEvent_finished hstep] at h
    cases h
    have hroom : ¬ FRAMING_WINDOW_BYTES ≤ t.live.length := by
      unfold FRAMING_WINDOW_BYTES
      omega
    unfold fill at hfill
    rw [dif_neg hroom] at hfill
    split at hfill
    · cases hfill
    rename_i chunk source hpull
    obtain ⟨hlen, rfl⟩ := Prod.mk.inj hfill
    obtain rfl := length_eq_zero_iff.mp (Except.ok.inj hlen)
    exact ⟨_, _, by omega, hpull⟩
  · rw [nextEvent_error hstep] at h
    cases h

end

/-! ## The ingest parse -/

inductive IngestParseError where
  | framing (error : TwoPartError)
  | envelope (error : EnvelopeError)
deriving DecidableEq

section
variable {σ : Type} [ByteSource σ]

/-- The parts of a request: the envelope, and the payload as a stream. -/
def parseIngestWithCap (framing : RequestFraming) (source : σ) (envelopeCap : Nat) :
    Except IngestParseError (Envelope × PayloadStream σ) :=
  match (TwoPartRequest.withEnvelopeCap framing source envelopeCap).envelope with
  | (.error error, _) => .error (.framing error)
  | (.ok partOne, request) =>
    match IngestEnvelope.parse partOne with
    | .error error => .error (.envelope error)
    | .ok envelope =>
      match request.payload with
      | .error error => .error (.framing error)
      | .ok stream => .ok (envelope, stream)

section
variable {f : RequestFraming} {cap : Nat} (body : TwoPartBody f cap)

/-- A body in two chunks, the second of which starts with the second header block. -/
def inTwo : List (List UInt8) :=
  [beforeSecond f body.partOne, body.bytes.drop (beforeSecond f body.partOne).length]

theorem inTwo_flatten : (inTwo body).flatten = body.bytes := by
  obtain ⟨tail, hbody⟩ := framedBody_two f body.partOne body.partTwo
  have hbytes : body.bytes = _ := hbody
  simp [inTwo, hbytes]

/-- A body with a short envelope that is fed so is parsed, and its payload can be read. -/
theorem parse_inTwo {envelope} (henvelope : IngestEnvelope.parse body.envelope = .ok envelope)
    (hshort : body.envelope.length + (2 * f.dashBoundary.length + 79) < FRAMING_WINDOW_BYTES) :
    ∃ stream, parseIngestWithCap f (BodyChannel.fed (inTwo body)) cap = .ok (envelope, stream) ∧
      Streams stream body.payload := by
  have hlen : (beforeSecond f body.partOne).length =
      body.envelope.length + (2 * f.dashBoundary.length + 79) := by
    have hpayload : body.partOne.payload = body.envelope := rfl
    simp only [beforeSecond, partBytes, length_append, body.partOne_length, CRLF, hpayload,
      length_cons, length_nil]
    omega
  have hne : beforeSecond f body.partOne ≠ [] := by simp [beforeSecond, CRLF]
  rw [← hlen] at hshort
  obtain ⟨b, hpull⟩ := BodyChannel.pull_fed
    [body.bytes.drop (beforeSecond f body.partOne).length] hne hshort.le
  have hdelivers : Delivers (BodyChannel.fed (inTwo body)) (inTwo body).flatten :=
    BodyChannel.delivers _
  rw [inTwo_flatten] at hdelivers
  have hcut := not_cut_of_pull (body.framable _ mem_cons_self) hshort ⟨_, hdelivers⟩ hpull
  obtain ⟨request, stream, hpartOne, hpayload, -, hstreams⟩ := split_of_not_cut hcut
  refine ⟨stream, ?_, hstreams⟩
  rw [parseIngestWithCap, hpartOne]
  dsimp only
  rw [henvelope]
  dsimp only
  rw [hpayload]

end

/-- `checkClosed`, with the tokenizer that it leaves. -/
def closing (t : FramingTokenizer σ) : Except TwoPartError Unit × FramingTokenizer σ :=
  match t.nextEvent with
  | (.error e, t) => (.error (.framing e), t)
  | (.ok (some .endOfParts), t) =>
    match t.nextEvent with
    | (.error e, t) => (.error (.framing e), t)
    | (.ok none, t) => (.ok (), t)
    | (.ok (some _), t) => (.error .trailingPart, t)
  | (.ok (some .partStarted), t) | (.ok (some (.partContentType _)), t) => (.error .trailingPart, t)
  | (.ok (some (.payload _)), t) | (.ok (some .partEnded), t) | (.ok none, t) =>
    (.error (.framing .malformedDelimiter), t)

/-- `finish`, with the tokenizer that it leaves: the digest of the body is read after it. -/
def finishing (fuel : Nat) (s : PayloadStream σ) :
    Option (Except TwoPartError Unit × FramingTokenizer σ) :=
  if s.ended then some (closing s.tokenizer)
  else
    match PayloadStream.drain fuel s.tokenizer with
    | none => none
    | some (.error e, t) => some (.error e, t)
    | some (.ok (), t) => some (closing t)

theorem closing_fst (t : FramingTokenizer σ) : (closing t).1 = PayloadStream.checkClosed t := by
  unfold closing PayloadStream.checkClosed
  rcases t.nextEvent with ⟨_ | _ | e, t1⟩
  · rfl
  · rfl
  cases e with
  | endOfParts =>
    dsimp only
    rcases t1.nextEvent with ⟨_ | _ | _, _⟩ <;> rfl
  | _ => rfl

/-! ### The stream is digested as it is read -/

theorem read_length_le {s : PayloadStream σ} {room} {chunk : List UInt8}
    (h : (s.read room).1 = .ok chunk) : chunk.length ≤ room := by
  unfold PayloadStream.read at h
  repeat' split at h
  all_goals cases h
  all_goals first | exact Nat.zero_le _ | exact length_take_le ..

structure DigestingPayload (σ : Type) where
  inner : PayloadStream σ
  transport : Sha256.Hasher

instance : ByteSource (DigestingPayload σ) where
  pull p room :=
    match p.inner.read room with
    | (.error kind, inner) => (.error kind, { p with inner })
    | (.ok chunk, inner) =>
      (.ok chunk, ⟨inner, if chunk = [] then p.transport else Sha256.update p.transport chunk⟩)
  length_le {p room chunk} h := by
    split at h
    · cases h
    · rename_i heq
      cases h
      exact read_length_le (by rw [heq])

theorem pull_eq (p : DigestingPayload σ) (room : Nat) : PullSource.pull p room =
    match p.inner.read room with
    | (.error kind, inner) => (.error kind, { p with inner })
    | (.ok chunk, inner) =>
      (.ok chunk, ⟨inner, if chunk = [] then p.transport else Sha256.update p.transport chunk⟩) := rfl

theorem pull_of_read {p : DigestingPayload σ} {inner room chunk}
    (h : p.inner.read room = (.ok chunk, inner)) :
    PullSource.pull p room = (.ok chunk, ⟨inner, Sha256.update p.transport chunk⟩) := by
  rw [pull_eq, h]
  dsimp only
  split
  · rename_i hnil
    rw [hnil, Sha256.update_nil]
  · rfl

theorem pull_digesting {p p' : DigestingPayload σ} {room chunk}
    (h : PullSource.pull p room = (.ok chunk, p')) : p.inner.read room = (.ok chunk, p'.inner) ∧
      p'.transport = Sha256.update p.transport chunk := by
  rcases hread : p.inner.read room with ⟨_ | chunk', inner⟩
  · rw [pull_eq, hread] at h
    cases h
  · rw [pull_of_read hread] at h
    cases h
    exact ⟨rfl, rfl⟩

/-! ## What was read -/

variable {t t' t₀ : FramingTokenizer σ} {s s' : PayloadStream σ}

/-- A payload stage yields runs, and the end of the part behind the last. -/
def InPayload (t : FramingTokenizer σ) : Prop := t.stage = .payload ∨ t.stage = .afterBoundary

/-- The stream began at `t₀`, and `p` was read from it. -/
def ReadFrom (t₀ : FramingTokenizer σ) (s : PayloadStream σ) (p : List UInt8) : Prop :=
  ∃ runs, (s.ended = false ∧ InPayload s.tokenizer ∧ Reaches nextEvent t₀ (runEvents runs) s.tokenizer ∧
      runs.flatten = p ++ s.remainder.drop s.remainderPos) ∨
    (s.ended = true ∧ Reaches nextEvent t₀ (runEvents runs ++ [.partEnded]) s.tokenizer ∧
      runs.flatten = p)

theorem collect_reaches {cap bytes out} (h : TwoPartRequest.collect cap bytes t = (.ok out, t')) :
    ∃ runs, Reaches nextEvent t (runEvents runs ++ [.partEnded]) t' ∧ out = bytes ++ runs.flatten := by
  fun_induction TwoPartRequest.collect cap bytes t with
  | case1 | case2 | case3 | case6 | case7 | case8 => cases h
  | case4 bytes t run t1 hn hcap _ ih =>
    obtain ⟨runs, hr, rfl⟩ := ih h
    exact ⟨run :: runs, .step hn hr, by simp⟩
  | case5 bytes t t1 hn =>
    cases h
    exact ⟨[], .step hn (.refl _), by simp⟩

theorem envelope_reaches {r r' : TwoPartRequest σ} {bytes} (h : r.envelope = (.ok bytes, r')) :
    ∃ runs, bytes = runs.flatten ∧
      Reaches nextEvent r.tokenizer (.partStarted :: .partContentType ENVELOPE_PART_MEDIA_TYPE ::
        (runEvents runs ++ [.partEnded])) r'.tokenizer := by
  revert h
  fun_cases TwoPartRequest.envelope r with
  | case5 t1 hstarted t2 result t3 hcollect htyped =>
    rintro ⟨⟩
    obtain ⟨runs, hr, rfl⟩ := collect_reaches hcollect
    exact ⟨runs, rfl, .step hstarted (.step htyped hr)⟩
  | _ => exact nofun

theorem payload_reaches {r : TwoPartRequest σ} (h : r.payload = .ok s) :
    Reaches nextEvent r.tokenizer [.partStarted, .partContentType s.mediaType] s.tokenizer ∧
      InPayload s.tokenizer ∧ s.remainder = [] ∧ s.ended = false := by
  revert h
  fun_cases TwoPartRequest.payload r with
  | case5 t1 hstarted mediaType t2 htyped =>
    rintro ⟨⟩
    refine ⟨.step hstarted (.step htyped (.refl _)), ?_, rfl, rfl⟩
    show t2.stage = .payload ∨ t2.stage = .afterBoundary
    obtain ⟨stage, -, hf⟩ := nextEvent_follows htyped
    generalize t2.stage = stage' at hf ⊢
    cases hf
    exact .inl rfl
  | _ => exact nofun

/-- The run that a parse makes: the first part, and the head of the second. -/
theorem parse_reaches {f source cap envelope}
    (h : parseIngestWithCap f source cap = .ok (envelope, s)) :
    ∃ runs, IngestEnvelope.parse runs.flatten = .ok envelope ∧
      Reaches nextEvent (new f source) (.partStarted :: .partContentType ENVELOPE_PART_MEDIA_TYPE ::
        (runEvents runs ++ .partEnded :: .partStarted :: [.partContentType s.mediaType]))
        s.tokenizer ∧ ReadFrom s.tokenizer s [] := by
  revert h
  fun_cases parseIngestWithCap f source cap with
  | case4 partOne request hpart parsed hparse stream hpayload =>
    rintro ⟨⟩
    obtain ⟨runs, rfl, hfirst⟩ := envelope_reaches hpart
    obtain ⟨hsecond, hstage, hremainder, hended⟩ := payload_reaches hpayload
    refine ⟨runs, hparse, ?_, [], .inl ⟨hended, hstage, .refl _, by simp [hremainder]⟩⟩
    have hboth := hfirst.trans hsecond
    rwa [cons_append, cons_append, append_assoc] at hboth
  | _ => exact nofun

theorem nextEvent_payload {e} (hs : InPayload t) (h : t.nextEvent = (.ok (some e), t')) :
    (∃ run, e = .payload run ∧ InPayload t') ∨ e = .partEnded := by
  obtain ⟨stage, hc, hf⟩ := nextEvent_follows h
  unfold InPayload at hs ⊢
  generalize t'.stage = stage' at hf ⊢
  generalize t.stage = before at hs hc
  rcases hs with rfl | rfl
  · rcases hc with rfl | ⟨hc, -⟩
    · cases hf with
      | run => exact .inl ⟨_, rfl, .inl rfl⟩
      | last => exact .inl ⟨_, rfl, .inr rfl⟩
    · cases hc
  · rcases hc with rfl | ⟨-, rfl⟩
    · cases hf
      exact .inr rfl
    · cases hf
      exact .inr rfl

theorem nextRun_reaches {r} (hs : InPayload t) (h : PayloadStream.nextRun t = (.ok r, t')) : ∃ runs,
      match r with
      | some run => Reaches nextEvent t (runEvents runs) t' ∧ InPayload t' ∧ runs.flatten = run ∧ run ≠ []
      | none => Reaches nextEvent t (runEvents runs ++ [.partEnded]) t' ∧ runs.flatten = [] := by
  fun_induction PayloadStream.nextRun t with
  | case1 t t1 hn hlt ih =>
    obtain ⟨run, hrun, hs1⟩ | hended := nextEvent_payload hs hn
    · obtain ⟨runs, hruns⟩ := ih hs1 h
      refine ⟨[] :: runs, ?_⟩
      cases r with
      | some | none => exact ⟨.step hn hruns.1, hruns.2⟩
    · cases hended
  | case2 t run t1 hn hne =>
    cases h
    obtain ⟨run', hrun, hs1⟩ | hended := nextEvent_payload hs hn
    · exact ⟨[run], .step hn (.refl _), hs1, by simp, hne⟩
    · cases hended
  | case3 t t1 hn =>
    cases h
    exact ⟨[], .step hn (.refl _), rfl⟩
  | case4 t t1 hn | case5 t value t1 hn | case6 t t1 hn =>
    -- no other event comes within a part
    obtain ⟨run, hrun, -⟩ | hended := nextEvent_payload hs hn
    · cases hrun
    · cases hended
  | case7 | case8 | case9 | case10 => cases h

/-- **One read**: the bytes copied come next, and there are none only at the end of the part. -/
theorem ReadFrom.read {p chunk room} (h : ReadFrom t₀ s p) (hroom : 0 < room)
    (hread : s.read room = (.ok chunk, s')) :
    ReadFrom t₀ s' (p ++ chunk) ∧ (chunk = [] → s'.ended = true) := by
  obtain ⟨runs, ⟨hended, hstage, hr, hp⟩ | ⟨hended, hr, hp⟩⟩ := h
  · unfold PayloadStream.read at hread
    rw [if_neg (by simp [hended]; omega)] at hread
    split at hread
    · cases hread
      refine ⟨⟨runs, .inl ⟨hended, hstage, hr, ?_⟩⟩, fun hnil => ?_⟩
      · simp only [drop_copied]
        rw [hp, append_assoc, take_append_drop]
      rcases take_eq_nil_iff.mp hnil with hzero | hzero
      · omega
      · rw [drop_eq_nil_iff] at hzero
        omega
    · rename_i hpos
      have hread' : s.remainder.drop s.remainderPos = [] := drop_of_length_le (not_lt.mp hpos)
      rw [hread', append_nil] at hp
      split at hread
      · cases hread
      · rename_i t1 hnext
        cases hread
        obtain ⟨runs', hr', hflat⟩ := nextRun_reaches hstage hnext
        refine ⟨⟨runs ++ runs', .inr ⟨rfl, ?_, ?_⟩⟩, fun _ => rfl⟩
        · have hboth := hr.trans hr'
          rwa [← append_assoc, runEvents, runEvents, ← map_append] at hboth
        · rw [flatten_append, hflat, hp]
      · rename_i run t1 hnext
        obtain ⟨runs', hr', hstage', hflat, hne⟩ := nextRun_reaches hstage hnext
        have hboth : Reaches nextEvent t₀ (runEvents (runs ++ runs')) t1 := by
          rw [runEvents, map_append]
          exact hr.trans hr'
        have hcopied : run.take room ≠ [] := by
          rw [Ne, take_eq_nil_iff, not_or]
          exact ⟨by omega, hne⟩
        split at hread
        · cases hread
          refine ⟨⟨runs ++ runs', .inl ⟨hended, hstage', hboth, ?_⟩⟩, fun hnil => absurd hnil hcopied⟩
          rw [flatten_append, hp, hflat, append_assoc, drop_zero,
            take_append_drop]
        · cases hread
          refine ⟨⟨runs ++ runs', .inl ⟨hended, hstage', hboth, ?_⟩⟩, fun hnil => absurd hnil hcopied⟩
          rw [flatten_append, hp, hflat, take_of_length_le (by omega)]
          simp [hread']
  · unfold PayloadStream.read at hread
    rw [if_pos (.inr hended)] at hread
    cases hread
    rw [append_nil]
    exact ⟨⟨runs, .inr ⟨hended, hr, hp⟩⟩, fun _ => hended⟩

/-! ## A stream ends -/

/-- The payload bytes of an event. -/
def runLength : FramingEvent → Nat
  | .payload run => run.length
  | _ => 0

/-- At most `n` bytes are still to be read from the stream, however its body goes on. -/
def Ahead (s : PayloadStream σ) (n : Nat) : Prop :=
  ∃ raw out, Completes nextEvent s.tokenizer raw out ∧
    (s.remainder.drop s.remainderPos).length + (raw.map runLength).sum ≤ n

theorem nextRun_ahead {raw} {out} {r} (hc : Completes nextEvent t raw out)
    (h : PayloadStream.nextRun t = (.ok r, t')) :
    ∃ raw', Completes nextEvent t' raw' out ∧
      (raw'.map runLength).sum + (r.getD []).length ≤ (raw.map runLength).sum := by
  fun_induction PayloadStream.nextRun t generalizing raw with
  | case1 t t1 hn _ ih | case4 t t1 hn _ ih | case5 t _ t1 hn _ ih | case6 t t1 hn _ ih =>
    obtain ⟨raw1, rfl, hc1⟩ := hc.step hn
    obtain ⟨raw', hc', hle⟩ := ih hc1 h
    exact ⟨raw', hc', by simpa [runLength] using hle⟩
  | case2 t run t1 hn =>
    cases h
    obtain ⟨raw', rfl, hc'⟩ := hc.step hn
    exact ⟨raw', hc', by simp [runLength, Nat.add_comm]⟩
  | case3 t t1 hn =>
    cases h
    obtain ⟨raw', rfl, hc'⟩ := hc.step hn
    exact ⟨raw', hc', by simp [runLength]⟩
  | case7 | case8 | case9 | case10 => cases h

theorem Ahead.read {n room} {chunk} (h : Ahead s n) (hread : s.read room = (.ok chunk, s')) :
    ∃ n', Ahead s' n' ∧ n' + chunk.length ≤ n := by
  obtain ⟨raw, out, hc, hn⟩ := h
  revert hread
  fun_cases PayloadStream.read s room with
  | case1 =>
    rintro ⟨⟩
    exact ⟨n, ⟨raw, out, hc, hn⟩, by simp⟩
  | case2 hopen hpos copied =>
    subst copied
    rintro ⟨⟩
    refine ⟨_, ⟨raw, out, hc, Nat.le_refl _⟩, ?_⟩
    simp only [length_drop, length_take] at hn ⊢
    omega
  | case3 => exact nofun
  | case4 hopen hpos t1 hnext | case5 hopen hpos run t1 hnext | case6 hopen hpos run t1 hnext =>
    rintro ⟨⟩
    obtain ⟨raw', hc', hle⟩ := nextRun_ahead hc hnext
    refine ⟨_, ⟨raw', out, hc', Nat.le_refl _⟩, ?_⟩
    simp only [length_drop, length_take, Option.getD, length_nil] at hle ⊢
    omega

end

theorem exists_ahead (s : PayloadStream BodyChannel) : ∃ n, Ahead s n := by
  have hreads : Reads s.tokenizer (s.tokenizer.live ++ s.tokenizer.source.remaining) :=
    ⟨_, s.tokenizer.source.delivers, rfl⟩
  obtain ⟨raw, out, hc, -⟩ | ⟨raw, t', hc, -⟩ := run_cases hreads
  · exact ⟨_, raw, out, hc, Nat.le_refl _⟩
  · exact ⟨_, raw, _, hc, Nat.le_refl _⟩

/-! ## A body that closes -/

theorem runEvents_inj {runs runs' tail tail'}
    (h : runEvents runs ++ .partEnded :: tail = runEvents runs' ++ .partEnded :: tail') :
    runs = runs' ∧ tail = tail' := by
  induction runs generalizing runs' with
  | nil =>
    cases runs' with
    | nil => exact ⟨rfl, (List.cons.inj h).2⟩
    | cons => cases (List.cons.inj h).1
  | cons run runs ih =>
    cases runs' with
    | nil => cases (List.cons.inj h).1
    | cons run' runs' =>
      obtain ⟨hrun, hrest⟩ := List.cons.inj h
      obtain ⟨rfl, rfl⟩ := ih hrest
      cases hrun
      exact ⟨rfl, rfl⟩

theorem mergePayload_part {mediaType} {runs} {tail parts}
    (h : mergePayload (.partStarted :: .partContentType mediaType ::
      (runEvents runs ++ .partEnded :: tail)) = bodyEvents parts) :
    ∃ rest, parts = ⟨mediaType, runs.flatten⟩ :: rest ∧ mergePayload tail = bodyEvents rest := by
  cases parts with
  | nil =>
    obtain ⟨raw', hraw, -⟩ := cons_of_mergePayload (w := .endOfParts) nofun h
    cases hraw
  | cons p rest =>
    obtain ⟨runs', raw', hraw, hflat, hrest⟩ := part_of_mergePayload h
    simp only [cons_append, append_assoc, List.cons.injEq, true_and] at hraw
    obtain ⟨htype, hruns⟩ := hraw
    obtain ⟨rfl, rfl⟩ := runEvents_inj hruns
    cases htype
    exact ⟨rest, by rw [hflat], hrest⟩

theorem closing_ok {σ : Type} [ByteSource σ] {t t' : FramingTokenizer σ}
    (h : closing t = (.ok (), t')) : ∃ t₁, t.nextEvent = (.ok (some .endOfParts), t₁) ∧
      t₁.stage = .done ∧ t₁.nextEvent = (.ok none, t') := by
  revert h
  fun_cases closing t with
  | case3 t₁ hclosed t₂ hnone =>
    rintro ⟨⟩
    refine ⟨t₁, hclosed, ?_, hnone⟩
    obtain ⟨stage, -, hf⟩ := nextEvent_follows hclosed
    generalize t₁.stage = stage' at hf ⊢
    cases hf
    rfl
  | _ => exact nofun

/-- **What a body was** that closed behind the payload read from it: the two parts, of which the
first is the envelope, and all of it is in the request's digest. -/
theorem closed_body {f} {chunks : List (List UInt8)} {cap fuel envelope}
    {stream s : PayloadStream BodyChannel} {p} {t' : FramingTokenizer BodyChannel}
    (hparse : parseIngestWithCap f (.fed chunks) cap = .ok (envelope, stream))
    (hread : ReadFrom stream.tokenizer s p) (hended : s.ended = true)
    (hclose : finishing fuel s = some (.ok (), t')) :
    (∃ partOne, IngestEnvelope.parse partOne = .ok envelope ∧
      chunks.flatten = framedBody f [⟨ENVELOPE_PART_MEDIA_TYPE, partOne⟩, ⟨stream.mediaType, p⟩]) ∧
    t'.source.requestHasher = Sha256.update Sha256.new chunks.flatten := by
  obtain ⟨runs1, henvelope, hfirst, -⟩ := parse_reaches hparse
  obtain ⟨runs2, ⟨hopen, -⟩ | ⟨-, hsecond, rfl⟩⟩ := hread
  · rw [hended] at hopen
    cases hopen
  unfold finishing at hclose
  rw [if_pos hended] at hclose
  obtain ⟨t1, hclosed, hdone, hnone⟩ := closing_ok (Option.some.inj hclose)
  have hlast : Reaches nextEvent (new f (.fed chunks)) _ t1 :=
    (hfirst.trans hsecond).trans (.step hclosed (.refl _))
  constructor
  · let c : Chunking BodyChannel chunks.flatten := ⟨.fed chunks, BodyChannel.delivers (.fed chunks)⟩
    have hyields : Yields (new f c.source) _ (.ok ()) :=
      ⟨_, hlast.completes (completes_none hnone), rfl⟩
    obtain ⟨parts, -, -, hbody, hevents⟩ := framedBody_of_frame (frame_of_yields_ok hyields).1
    simp only [cons_append, append_assoc, nil_append, append_nil] at hevents
    obtain ⟨rest, rfl, hevents'⟩ := mergePayload_part hevents
    obtain ⟨rest', rfl, hevents''⟩ := mergePayload_part hevents'
    have hend : rest' = [] := bodyEvents_injective (hevents''.symm.trans rfl)
    subst hend
    exact ⟨runs1.flatten, henvelope, hbody⟩
  · have hdigested : Digested chunks.flatten t'.source := by
      have hpull : ∀ b room, Digested chunks.flatten b →
          Digested chunks.flatten (PullSource.pull b room).2 := fun _ room h => h.pull room
      have hkept := reaches_kept hpull hlast ⟨[], (Sha256.update_nil _).symm, rfl⟩
      have hnext := nextEvent_kept hpull hkept
      rwa [hnone] at hnext
    -- the last pull found the bridge empty
    obtain ⟨b, room, hroom, hpull⟩ := nextEvent_ended hdone hnone
    have hcopied := b.pull_copied room
    obtain ⟨hchunk, hsource⟩ := Prod.mk.inj hpull
    have hempty := hcopied.ended hroom (Except.ok.inj hchunk)
    obtain ⟨left, hhasher, hleft⟩ := hdigested
    rw [← hsource, hempty, append_nil] at hleft
    rw [hhasher, hleft]

end AgentArchivist.Server.RequestBody
