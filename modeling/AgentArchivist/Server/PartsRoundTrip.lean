import AgentArchivist.Server.FramingChunks
import AgentArchivist.Server.Parts

/-! # The two-part split gives the parts back

Over a body framed from an envelope and a payload, the split returns the
envelope, the media type and, read by read, the payload, within fixed buffers,
unless the source cuts the second header block (`roundTrip_iff`). The proofs
look at the events of the run only: `collect`, `nextRun` and `drain` are each
described by the runs that are still to come. -/
namespace AgentArchivist.Server.PartsRoundTrip
open Lib List
open Utf8 Search Source Events Framing FramingSpec FramedBody FramingRefine FramingChunks Parts
open FramingTokenizer

variable {σ : Type} [ByteSource σ]

/-- Payload events, run by run. -/
def runEvents (runs : List (List UInt8)) : List FramingEvent := runs.map .payload

/-- A merged event that is no run comes from the event itself. -/
theorem cons_of_mergePayload {w} (hw : ∀ run, w ≠ .payload run) {raw evs}
    (h : mergePayload raw = w :: evs) : ∃ raw', raw = w :: raw' ∧ mergePayload raw' = evs := by
  cases raw with
  | nil => cases h
  | cons e raw =>
    change mergeCons e (mergePayload raw) = w :: evs at h
    have he : ∀ run, e ≠ .payload run := by
      rintro run rfl
      cases hm : mergePayload raw with
      | nil => rw [hm] at h; cases h; exact hw run rfl
      | cons x xs =>
        rw [hm] at h
        cases x <;> cases h <;> exact hw _ rfl
    rw [mergeCons_of_not_payload he] at h
    cases h
    exact ⟨raw, rfl, rfl⟩

theorem mergePayload_eq_nil {raw} (h : mergePayload raw = []) : raw = [] := by
  cases raw with
  | nil => rfl
  | cons e raw =>
    change mergeCons e (mergePayload raw) = [] at h
    unfold mergeCons at h
    split at h <;> cases h

variable {p : List UInt8}

/-- Events that merge to a payload and its end are runs of it. -/
theorem runs_of_mergePayload {evs} :
    ∀ {raw : List FramingEvent}, mergePayload raw = .payload p :: .partEnded :: evs →
      ∃ runs raw', raw = runEvents runs ++ .partEnded :: raw' ∧ runs.flatten = p ∧
        mergePayload raw' = evs := by
  intro raw
  induction raw generalizing p with
  | nil => intro h; cases h
  | cons e raw ih =>
    intro h
    change mergeCons e (mergePayload raw) = .payload p :: .partEnded :: evs at h
    cases e with
    | payload a =>
      cases hm : mergePayload raw with
      | nil => rw [hm] at h; cases h
      | cons x xs =>
        rw [hm] at h
        cases x with
        | payload b =>
          obtain ⟨rfl, rfl⟩ := h
          obtain ⟨runs, raw', rfl, rfl, h3⟩ := ih hm
          exact ⟨a :: runs, raw', rfl, rfl, h3⟩
        | partEnded =>
          cases h
          obtain ⟨raw', rfl, h3⟩ := cons_of_mergePayload (by simp) hm
          exact ⟨[p], raw', rfl, by simp, h3⟩
        | _ => cases h
    | _ => cases h

/-- The raw events of a part: the runs of its payload add up. -/
theorem part_of_mergePayload {raw mediaType p tail} (h : mergePayload raw =
      .partStarted :: .partContentType mediaType :: .payload p :: .partEnded :: tail) :
    ∃ runs raw', raw = (.partStarted :: .partContentType mediaType ::
      (runEvents runs ++ [.partEnded])) ++ raw' ∧ runs.flatten = p ∧ mergePayload raw' = tail := by
  obtain ⟨raw1, rfl, h1⟩ := cons_of_mergePayload (by simp) h
  obtain ⟨raw2, rfl, h2⟩ := cons_of_mergePayload (by simp) h1
  obtain ⟨runs, raw3, rfl, hruns, h3⟩ := runs_of_mergePayload h2
  exact ⟨runs, raw3, by simp, hruns, h3⟩

/-! ## Part one -/

variable {t' : FramingTokenizer σ}

/-- Collecting a part's runs within the cap gives their bytes. -/
theorem collect_runs {cap} :
    ∀ {runs : List (List UInt8)} (bytes : List UInt8) {t : FramingTokenizer σ},
      Reaches nextEvent t (runEvents runs ++ [.partEnded]) t' →
      bytes.length + runs.flatten.length ≤ cap →
      TwoPartRequest.collect cap bytes t = (.ok (bytes ++ runs.flatten), t')
  | [], bytes, t, hr, _ => by
    cases hr with
    | step hn hr =>
      cases hr
      rw [TwoPartRequest.collect_ended hn]
      simp
  | run :: runs, bytes, t, hr, hle => by
    simp only [flatten_cons, length_append] at hle
    cases hr with
    | step hn hr =>
      rw [TwoPartRequest.collect_payload hn (by omega),
        collect_runs _ hr (by simp only [length_append]; omega)]
      simp

/-- `envelope` over the events of a first part of the pinned media type. -/
theorem envelope_runs {r : TwoPartRequest σ} {runs : List (List UInt8)}
    (hr : Reaches nextEvent r.tokenizer (.partStarted ::
      .partContentType ENVELOPE_PART_MEDIA_TYPE :: (runEvents runs ++ [.partEnded])) t')
    (hle : runs.flatten.length ≤ r.envelopeCap) :
    r.envelope = (.ok runs.flatten, { r with tokenizer := t' }) := by
  cases hr with
  | step h1 hr =>
    cases hr with
    | step h2 hr =>
      have hc := collect_runs [] hr (by simpa using hle)
      simp [TwoPartRequest.envelope, h1, h2, hc]

/-! ## Part two -/

/-- What a stream has still to give, and that the body closes after it. -/
structure Streams (s : PayloadStream σ) (p : List UInt8) : Prop where
  bounded : s.remainder.length ≤ FRAMING_WINDOW_BYTES
  unread : (s.ended = true ∧ p = [] ∧ Completes nextEvent s.tokenizer [.endOfParts] (.ok ())) ∨
    (s.ended = false ∧ ∃ runs, p = s.remainder.drop s.remainderPos ++ runs.flatten ∧
      Completes nextEvent s.tokenizer (runEvents runs ++ [.partEnded, .endOfParts]) (.ok ()))

/-- The next run of a stream that has more to give, or its end. -/
theorem nextRun_runs {tail} :
    ∀ {runs : List (List UInt8)} {t : FramingTokenizer σ},
      Completes nextEvent t (runEvents runs ++ .partEnded :: tail) (.ok ()) →
      (runs.flatten = [] ∧ ∃ t', PayloadStream.nextRun t = (.ok none, t') ∧
        Completes nextEvent t' tail (.ok ())) ∨
      (∃ run runs' t', run ≠ [] ∧ run.length ≤ FRAMING_WINDOW_BYTES ∧
        runs.flatten = run ++ runs'.flatten ∧ PayloadStream.nextRun t = (.ok (some run), t') ∧
        Completes nextEvent t' (runEvents runs' ++ .partEnded :: tail) (.ok ()))
  | [], t, h => by
    obtain ⟨t', hn, hc⟩ := h.cons
    exact .inl ⟨rfl, t', PayloadStream.nextRun_ended hn, hc⟩
  | run :: runs, t, h => by
    obtain ⟨t', hn, hc⟩ := Completes.cons h
    by_cases hne : run = []
    · subst hne
      rw [PayloadStream.nextRun_payload hn, if_pos rfl]
      change Completes nextEvent t' (runEvents runs ++ .partEnded :: tail) _ at hc
      have ih := nextRun_runs hc
      exact ih
    · exact .inr ⟨run, runs, t', hne, (payload_follows hn).2.2, rfl,
        (PayloadStream.nextRun_payload hn).trans (if_neg hne), hc⟩

variable {s : PayloadStream σ}

/-- **One read** gives some first bytes of what is still to come; nothing only at the end. -/
theorem read_streams (h : Streams s p) {room} (hroom : 0 < room) :
    ∃ chunk s' p', s.read room = (.ok chunk, s') ∧ Streams s' p' ∧ p = chunk ++ p' ∧
      (chunk = [] → p = []) := by
  unfold PayloadStream.read
  obtain ⟨hbound, ⟨he, rfl, hc⟩ | ⟨he, runs, rfl, hc⟩⟩ := h
  · rw [if_pos (.inr he)]
    exact ⟨[], s, [], rfl, ⟨hbound, .inl ⟨he, rfl, hc⟩⟩, rfl, fun _ => rfl⟩
  rw [if_neg (by simp [he]; omega)]
  split
  · rename_i hpos
    -- the tail of the last run is read first
    refine ⟨_, _, (s.remainder.drop s.remainderPos).drop room ++ runs.flatten, rfl,
      ⟨hbound, .inr ⟨he, runs, ?_, hc⟩⟩, ?_, ?_⟩
    · simp only [length_take, length_drop, drop_drop]
      by_cases hle : room ≤ s.remainder.length - s.remainderPos
      · rw [Nat.min_eq_left hle]
      · rw [Nat.min_eq_right (by omega), drop_of_length_le (by omega),
          drop_of_length_le (by omega)]
    · rw [← append_assoc, take_append_drop]
    · intro hnil
      rw [take_eq_nil_iff, drop_eq_nil_iff] at hnil
      omega
  · rw [drop_of_length_le (by omega), nil_append]
    obtain ⟨hnil, t', hn, hc'⟩ | ⟨run, runs', t', hne, hlen, hp, hn, hc'⟩ := nextRun_runs hc
    · rw [hn, hnil]
      exact ⟨[], _, [], rfl, ⟨hbound, .inl ⟨rfl, rfl, hc'⟩⟩, rfl, fun _ => rfl⟩
    rw [hn, hp]
    have hrun : run.take room ≠ [] := by
      rw [Ne, take_eq_nil_iff]
      rintro (hz | hz)
      · omega
      · exact hne hz
    dsimp only
    split
    · refine ⟨_, _, run.drop room ++ runs'.flatten, rfl,
        ⟨by rw [length_drop]; omega, .inr ⟨he, runs', by simp, hc'⟩⟩, ?_,
        fun hz => absurd hz hrun⟩
      rw [← append_assoc, take_append_drop]
    · refine ⟨_, _, runs'.flatten, rfl,
        ⟨hbound, .inr ⟨he, runs', ?_, hc'⟩⟩, ?_, fun hz => absurd hz hrun⟩
      · rw [drop_of_length_le (by simp only; omega), nil_append]
      · rw [take_of_length_le (by omega)]

/-- Reads into buffers of the given sizes: the chunks, in order. -/
def readAll : PayloadStream σ → List Nat → Except ErrorKind (List (List UInt8)) × PayloadStream σ
  | s, [] => (.ok [], s)
  | s, room :: rooms =>
    match s.read room with
    | (.error kind, s') => (.error kind, s')
    | (.ok chunk, s') =>
      match readAll s' rooms with
      | (.error kind, s'') => (.error kind, s'')
      | (.ok chunks, s'') => (.ok (chunk :: chunks), s'')

theorem readAll_streams : ∀ (rooms : List Nat) {s : PayloadStream σ} {p : List UInt8},
    Streams s p → (∀ room ∈ rooms, 0 < room) →
    ∃ chunks s' p', readAll s rooms = (.ok chunks, s') ∧ Streams s' p' ∧
      p = chunks.flatten ++ p' ∧ chunks.length = rooms.length ∧ ([] ∈ chunks → p' = [])
  | [], s, p, h, _ => ⟨[], s, p, rfl, h, rfl, rfl, by simp⟩
  | room :: rooms, s, p, h, hpos => by
    obtain ⟨chunk, s₁, p₁, hread, h₁, rfl, hend⟩ := read_streams h (hpos room (by simp))
    obtain ⟨chunks, s', p', hall, h', rfl, hlen, hnil⟩ :=
      readAll_streams rooms h₁ fun r hr => hpos r (by simp [hr])
    refine ⟨chunk :: chunks, s', p', by simp [readAll, hread, hall], h', by simp, by simp [hlen], ?_⟩
    intro hmem
    obtain hc | hc := mem_cons.mp hmem
    · simpa using (append_eq_nil_iff.mp (append_eq_nil_iff.mp (hend hc.symm)).2).2
    · exact hnil hc

theorem bufferedBytes_le (h : Streams s p) :
    s.bufferedBytes ≤ 2 * FRAMING_WINDOW_BYTES := by
  have h1 : s.tokenizer.windowLen ≤ FRAMING_WINDOW_BYTES := s.tokenizer.window.fits
  have h2 := h.bounded
  unfold PayloadStream.bufferedBytes
  omega

theorem checkClosed_of_completes {t : FramingTokenizer σ}
    (h : Completes nextEvent t [.endOfParts] (.ok ())) : PayloadStream.checkClosed t = .ok () := by
  obtain ⟨t', hn, hc⟩ := h.cons
  obtain ⟨t'', hn'⟩ := hc.nil
  simp [PayloadStream.checkClosed, hn, hn']

theorem drain_runs {tail} :
    ∀ {runs : List (List UInt8)} {t : FramingTokenizer σ},
      Completes nextEvent t (runEvents runs ++ .partEnded :: tail) (.ok ()) →
      ∃ t', PayloadStream.drain (runs.length + 1) t = some (.ok (), t') ∧
        Completes nextEvent t' tail (.ok ())
  | [], t, h => by
    obtain ⟨t', hn, hc⟩ := h.cons
    exact ⟨t', by simp [PayloadStream.drain, hn], hc⟩
  | run :: runs, t, h => by
    obtain ⟨t₁, hn, hc⟩ := Completes.cons h
    obtain ⟨t', hd, hc'⟩ := drain_runs hc
    refine ⟨t', ?_, hc'⟩
    rw [length_cons, PayloadStream.drain, hn]
    exact hd

theorem finish_streams (h : Streams s p) :
    ∃ fuel, s.finish fuel = some (.ok ()) := by
  obtain ⟨-, ⟨he, -, hc⟩ | ⟨he, runs, -, hc⟩⟩ := h
  · exact ⟨0, by simp [PayloadStream.finish, he, checkClosed_of_completes hc]⟩
  · obtain ⟨t', hd, hc'⟩ := drain_runs hc
    exact ⟨runs.length + 1, by simp [PayloadStream.finish, he, hd, checkClosed_of_completes hc']⟩

/-! ## The first header block -/

/-- The opening line is all that is consumed before the first header block. -/
theorem pos_of_opening {t t' : FramingTokenizer σ} {e} (hs : t.stage = .opening)
    (hpos : t.window.pos = 0) (h : t.nextEvent = (.ok (some e), t')) :
    t'.window.pos ≤ t.framing.dashBoundary.length + 2 := by
  fun_induction nextEvent t with
  | case1 t t1 hstep ih =>
    obtain ⟨-, n, hfill⟩ | ⟨hst, -⟩ := step_again hstep
    · obtain ⟨-, -, -, hpos1, hs1, hf1⟩ := fill_ok hfill
      rw [← hf1]
      exact ih (hs1.trans hs) hpos1 h
    · rw [hs] at hst; cases hst
  | case2 t e' t1 hstep =>
    cases h
    simp only [step, hs, stepOpening] at hstep
    repeat' split at hstep
    all_goals first | exact absurd hstep refill_event | cases hstep
    simp only [consume, Window.advance, hpos]
    omega
  | case3 | case4 => cases h

/-- A run that has started one part only has yielded nothing else. -/
theorem reaches_first {f body} (c : Chunking σ body) {evs}
    (hr : Reaches nextEvent (new f c.source) evs t') (hs : t'.stage = .headers)
    (hcount : evs.countP isPartStarted = 1) : evs = [.partStarted] := by
  cases hr with
  | refl => cases hs
  | @step _ t1 _ e evs hn hr =>
    have he : e = .partStarted := by
      obtain ⟨stage, hc, hf⟩ := nextEvent_follows hn
      obtain rfl | ⟨h1, -⟩ := hc
      · generalize t1.stage = stage' at hf
        change Follows .opening e stage' at hf
        cases hf
        rfl
      · cases h1
    subst he
    obtain ⟨rest, h1, -⟩ := Reaches.frame_eq (.step hn (.refl t1)) (reads_new f c)
    obtain ⟨-, -, -, -, hlast⟩ := Reaches.frame_eq hr h1
    by_cases hne : evs = []
    · rw [hne]
    · obtain ⟨evs', rfl⟩ := hlast hne hs
      rw [countP_cons, countP_append] at hcount
      simp [isPartStarted] at hcount

/-- A first header block that fits the window behind the opening line is never cut. -/
theorem first_not_cut {f : RequestFraming} {p ps} (hall : ∀ q ∈ p :: ps, Framable f q)
    (hfit : f.dashBoundary.length + 2 + (headerBlock p).length + 4 ≤ FRAMING_WINDOW_BYTES)
    (c : Chunking σ (framedBody f (p :: ps))) : ¬ CutAt (new f c.source) 1 := by
  rintro ⟨evs, t', hr, hc, hcount⟩
  obtain rfl := reaches_first c hr hc.1 hcount
  obtain ⟨rest, hreads, -, hframe, -⟩ := Reaches.frame_eq hr (reads_new f c)
  change frame f .opening (framedBody f (p :: ps)) = prepend _ (frame f t'.stage rest) at hframe
  rw [frame_framedBody (by simp) hall, hc.1] at hframe
  obtain ⟨⟨evs, out⟩, hX⟩ : ∃ X, frame f .headers rest = X := ⟨_, rfl⟩
  rw [hX] at hframe
  obtain ⟨hevs, rfl⟩ := Prod.mk.inj hframe
  obtain ⟨p', tail, evs', hp', hrest, rfl, -⟩ := frame_headers_ok hX
  -- the block that is to be read is the one of the first part
  have hblock : headerBlock p' = headerBlock p := by
    simp only [bodyEvents, flatMap_cons, partEvents, cons_append, mergeCons,
      List.cons.injEq, FramingEvent.partContentType.injEq, true_and] at hevs
    rw [headerBlock, headerBlock, hevs.1]
  obtain ⟨-, hfull, hnone, -⟩ := hc
  cases hr with
  | step hn hr =>
    cases hr
    have hpos := pos_of_opening rfl rfl hn
    have hlive : (headerBlock p').length + 4 ≤ t'.live.length := by
      rw [hblock]
      simp only [windowLen, Window.len, new, live] at *
      omega
    have hcrlf : (CRLF ++ CRLF).length = 4 := rfl
    have hfound := position_take (n := t'.live.length) (position_append hp'.blankLine
      (p'.payload ++ f.payloadDelimiter ++ tail)) (by rw [hcrlf]; exact hlive)
    rw [← hrest, ← prefix_iff_eq_take.mp hreads.live_isPrefix, hnone] at hfound
    cases hfound

/-! ## The round trip -/

/-- An envelope within the cap and a payload of a single-line media type, neither with the
delimiter in it. -/
structure TwoPartBody (f : RequestFraming) (cap : Nat) where
  envelope : List UInt8
  payload : List UInt8
  mediaType : String
  envelope_le : envelope.length ≤ cap
  envelope_delimiter :
    position f.payloadDelimiter (envelope ++ f.payloadDelimiter) = some envelope.length
  payload_delimiter :
    position f.payloadDelimiter (payload ++ f.payloadDelimiter) = some payload.length
  mediaType_ne : mediaType ≠ ""
  singleLine : ¬ CRLF <:+: utf8 mediaType
  fits : CONTENT_TYPE_HEADER_PREFIX.length + (utf8 mediaType).length + 4 ≤ FRAMING_WINDOW_BYTES

namespace TwoPartBody

variable {f : RequestFraming} {cap : Nat}

def partOne (b : TwoPartBody f cap) : Part := ⟨ENVELOPE_PART_MEDIA_TYPE, b.envelope⟩

def partTwo (b : TwoPartBody f cap) : Part := ⟨b.mediaType, b.payload⟩

def bytes (b : TwoPartBody f cap) : List UInt8 := framedBody f [b.partOne, b.partTwo]

theorem partOne_length (b : TwoPartBody f cap) : (headerBlock b.partOne).length = 69 := by
  have h : (CONTENT_TYPE_HEADER_PREFIX ++ utf8 ENVELOPE_PART_MEDIA_TYPE).length = 69 := by decide
  exact h

theorem framable (b : TwoPartBody f cap) : ∀ p ∈ [b.partOne, b.partTwo], Framable f p := by
  intro p hp
  simp only [mem_cons, not_mem_nil, or_false] at hp
  obtain rfl | rfl := hp
  · have hline : ¬ CRLF <:+: utf8 ENVELOPE_PART_MEDIA_TYPE := by decide
    have hne : ENVELOPE_PART_MEDIA_TYPE ≠ "" := by decide
    refine ⟨hne, position_blankLine (headerBlock_singleLine hline), ?_, b.envelope_delimiter⟩
    rw [b.partOne_length]
    decide
  · refine ⟨b.mediaType_ne, position_blankLine (headerBlock_singleLine b.singleLine), ?_,
      b.payload_delimiter⟩
    rw [headerBlock, length_append]
    exact b.fits

theorem frame_bytes (b : TwoPartBody f cap) :
    frame f .opening b.bytes = (bodyEvents [b.partOne, b.partTwo], .ok ()) :=
  frame_framedBody (by simp) b.framable

end TwoPartBody

/-- The split of a two-part body: the envelope, the media type, and for every sequence of read
buffers the payload, complete as soon as a read returns nothing, with bounded buffering and a
successful close at every point. -/
def RoundTrip {f : RequestFraming} {cap : Nat} (b : TwoPartBody f cap) (c : Chunking σ b.bytes) :
    Prop :=
  ∃ req stream, (TwoPartRequest.withEnvelopeCap f c.source cap).envelope = (.ok b.envelope, req) ∧
    req.payload = .ok stream ∧ stream.mediaType = b.mediaType ∧
    ∀ rooms : List Nat, (∀ room ∈ rooms, 0 < room) →
      ∃ chunks s, readAll stream rooms = (.ok chunks, s) ∧ chunks.flatten <+: b.payload ∧
        ([] ∈ chunks → chunks.flatten = b.payload) ∧
        (b.payload.length < rooms.length → [] ∈ chunks) ∧
        s.bufferedBytes ≤ 2 * FRAMING_WINDOW_BYTES ∧ ∃ fuel, s.finish fuel = some (.ok ())

section TwoParts

variable {f : RequestFraming} {cap : Nat} {b : TwoPartBody f cap}

/-- Chunks that are not empty are at most as many as their bytes. -/
theorem length_le_flatten : ∀ {chunks : List (List UInt8)}, [] ∉ chunks →
    chunks.length ≤ chunks.flatten.length
  | [], _ => by simp
  | chunk :: chunks, h => by
    have h1 : 0 < chunk.length := length_pos_iff.mpr fun hz => h (by simp [hz])
    have h2 := length_le_flatten fun hz => h (mem_cons_of_mem chunk hz)
    simp only [length_cons, flatten_cons, length_append]
    omega

variable {c : Chunking σ b.bytes}

/-- Only the second header block of a two-part body can be cut. -/
theorem cutAt_second {part} (h : CutAt (new f c.source) part) : part = 2 := by
  obtain ⟨evs, t', hr, hc, hcount⟩ := h
  obtain ⟨pre, hpre, hle⟩ := prefix_of_cut c hr hc
  have hne : part ≠ 1 := by
    rintro rfl
    refine first_not_cut b.framable ?_ c ⟨evs, t', hr, hc, hcount⟩
    have h1 := (delimiter_length f).2
    have h2 := f.length_le
    rw [b.partOne_length]
    unfold FRAMING_WINDOW_BYTES
    omega
  have hcount' := countP_mergePayload (p := isPartStarted) (fun _ => rfl) evs
  have hmono := hle.sublist.countP_le (p := isPartStarted)
  rw [b.frame_bytes] at hmono
  rw [hpre] at hcount'
  have hpos : 0 < (pre ++ [FramingEvent.partStarted]).countP isPartStarted :=
    countP_pos_iff.mpr ⟨.partStarted, by simp, rfl⟩
  have htwo : (bodyEvents [b.partOne, b.partTwo]).countP isPartStarted = 2 := rfl
  rw [htwo] at hmono
  omega

/-- Without a cut the whole split goes through. -/
theorem split_of_not_cut (hcut : ¬ CutAt (new f c.source) 2) :
    ∃ req stream, (TwoPartRequest.withEnvelopeCap f c.source cap).envelope = (.ok b.envelope, req) ∧
      req.payload = .ok stream ∧ stream.mediaType = b.mediaType ∧ Streams stream b.payload := by
  obtain ⟨raw, hc, hmerge⟩ := yields_of_not_cut (c := c)
    fun part h => hcut (cutAt_second h ▸ h)
  rw [b.frame_bytes] at hc hmerge
  obtain ⟨runs, raw1, rfl, hruns, h1⟩ := part_of_mergePayload hmerge
  obtain ⟨runs', raw2, rfl, hruns', h2⟩ := part_of_mergePayload h1
  obtain ⟨raw3, rfl, h3⟩ := cons_of_mergePayload (by simp) h2
  obtain rfl := mergePayload_eq_nil h3
  -- the state after part one, where the handle is consumed
  obtain ⟨t1, hr, hc1⟩ := hc.split
  obtain ⟨t2, hn2, hc2⟩ := hc1.cons
  obtain ⟨t3, hn3, hc3⟩ := hc2.cons
  rw [List.append_eq, append_assoc] at hc3
  have henv := envelope_runs (r := TwoPartRequest.withEnvelopeCap f c.source cap) hr
    (by rw [hruns]; exact b.envelope_le)
  rw [hruns] at henv
  refine ⟨_, ⟨t3, [], 0, b.mediaType, false⟩, henv, ?_, rfl, by simp, .inr ⟨rfl, runs', ?_, hc3⟩⟩
  · simp [TwoPartRequest.payload, hn2, hn3, TwoPartBody.partTwo]
  · exact hruns'.symm

theorem roundTrip_of_not_cut (hcut : ¬ CutAt (new f c.source) 2) :
    RoundTrip b c := by
  obtain ⟨req, stream, henvelope, hpayload, htype, hstreams⟩ := split_of_not_cut hcut
  refine ⟨req, stream, henvelope, hpayload, htype, fun rooms hpos => ?_⟩
  obtain ⟨chunks, s, p', hread, hs, hsplit, hlen, hnil⟩ := readAll_streams rooms hstreams hpos
  rw [hsplit]
  refine ⟨chunks, s, hread, prefix_append .., ?_, ?_, bufferedBytes_le hs, finish_streams hs⟩
  · intro hmem
    rw [hnil hmem, append_nil]
  intro hlong
  by_contra hmem
  have hle := length_le_flatten hmem
  rw [length_append] at hlong
  omega

/-- A cut of the second header block refuses the payload part. -/
theorem not_roundTrip_of_cut (hcut : CutAt (new f c.source) 2) :
    ¬ RoundTrip b c := by
  rintro ⟨req, stream, henv, hpay, -⟩
  obtain ⟨evs, t', hr, hc, hcount⟩ := hcut
  obtain ⟨pre, hpre, hle⟩ := prefix_of_cut c hr hc
  rw [b.frame_bytes] at hle
  have hfive : mergePayload evs = [.partStarted, .partContentType ENVELOPE_PART_MEDIA_TYPE,
      .payload b.envelope, .partEnded] ++ [.partStarted] := by
    rw [hpre]
    refine prefix_eq_of_countP (p := isPartStarted) hle ⟨_, rfl⟩ rfl rfl ?_
    rw [← hpre, countP_mergePayload (fun _ => rfl), hcount]
    rfl
  obtain ⟨runs, raw1, rfl, hruns, h1⟩ := part_of_mergePayload hfive
  obtain ⟨raw2, rfl, h2⟩ := cons_of_mergePayload (by simp) h1
  obtain rfl := mergePayload_eq_nil h2
  obtain ⟨t1, hr1, hr2⟩ := hr.split
  have henv' := envelope_runs (r := TwoPartRequest.withEnvelopeCap f c.source cap) hr1
    (by rw [hruns]; exact b.envelope_le)
  rw [henv] at henv'
  obtain ⟨-, rfl⟩ := Prod.mk.inj henv'
  cases hr2 with
  | step hn hr2 =>
    cases hr2
    simp [TwoPartRequest.payload, hn, nextEvent_cut hc] at hpay

/-- **The two-part split gives the parts back if and only if the source does not cut the second
header block.** -/
theorem roundTrip_iff (b : TwoPartBody f cap) (c : Chunking σ b.bytes) :
    RoundTrip b c ↔ ¬ CutAt (new f c.source) 2 :=
  ⟨fun h hcut => not_roundTrip_of_cut hcut h, roundTrip_of_not_cut⟩

/-- An envelope that puts the second header block across the end of a slice's first window. -/
def longEnvelope : TwoPartBody sampleFraming DEFAULT_ENVELOPE_MAX_BYTES where
  envelope := List.replicate 8100 0x61
  payload := []
  mediaType := "y"
  envelope_le := by rw [length_replicate]; decide
  envelope_delimiter := position_delimiter _ fun h => absurd (eq_of_mem_replicate h) (by decide)
  payload_delimiter := by decide
  mediaType_ne := by decide
  singleLine := by decide
  fits := by decide

/-- A valid two-part body in a byte slice whose payload part is refused. -/
theorem longEnvelope_refused : ¬ RoundTrip longEnvelope (slice longEnvelope.bytes) := by
  have hall := longEnvelope.framable
  have hlen : (beforeSecond sampleFraming longEnvelope.partOne).length = 8185 := by
    have h1 := longEnvelope.partOne_length
    have h2 : sampleFraming.dashBoundary.length = 3 := by decide
    have h3 : longEnvelope.partOne.payload.length = 8100 := length_replicate
    simp only [beforeSecond, partBytes, length_append, h1, h2, h3]
    rfl
  have hblock : (headerBlock longEnvelope.partTwo).length = 15 := by decide
  refine not_roundTrip_of_cut (slice_cut (hall _ (by simp)) (hall _ (by simp)) ?_ ?_)
  · rw [hlen]
    decide
  · rw [hlen, hblock]
    decide

end TwoParts

end AgentArchivist.Server.PartsRoundTrip
