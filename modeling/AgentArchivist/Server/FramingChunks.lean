import AgentArchivist.Server.FramedBody
import AgentArchivist.Server.FramingRefine

/-! # When the chunks of a body show

Two sources of the same body are framed the same way, runs merged, except when
one of them fills the window in the middle of a header block that the other one
reads in full. `sameFraming_iff` says that this is the only way the chunks can
show, `slice_cut` when a plain byte slice runs into it. -/
namespace AgentArchivist.Server.FramingChunks
open Lib List
open Utf8 Search Source Events Framing FramingSpec FramedBody FramingRefine
open FramingTokenizer

variable {σ τ : Type} [ByteSource σ] [ByteSource τ]

/-- Driving a tokenizer to its end gives these items, adjacent runs merged, and this outcome. -/
def Yields (t : FramingTokenizer σ) (evs : List FramingEvent) (out : Except FramingError Unit) :
    Prop :=
  ∃ raw, Completes nextEvent t raw out ∧ mergePayload raw = evs

def isPartStarted : FramingEvent → Bool
  | .partStarted => true
  | _ => false

def isPartContentType : FramingEvent → Bool
  | .partContentType _ => true
  | _ => false

/-- The run comes to a cut in the header block of its `part`-th part. -/
def CutAt (t : FramingTokenizer σ) (part : Nat) : Prop :=
  ∃ evs t', Reaches nextEvent t evs t' ∧ Cut t' ∧ evs.countP isPartStarted = part

theorem Yields.unique {t : FramingTokenizer σ} {evs evs' : List FramingEvent}
    {out out' : Except FramingError Unit} (h : Yields t evs out) (h' : Yields t evs' out') :
    evs = evs' ∧ out = out' := by
  obtain ⟨raw, hc, rfl⟩ := h
  obtain ⟨raw', hc', rfl⟩ := h'
  obtain ⟨rfl, rfl⟩ := hc.unique hc'
  exact ⟨rfl, rfl⟩

/-- A header block that is not refused as malformed goes on with its value, or ends the body. -/
theorem frame_headers_ne {f rest} (evs : List FramingEvent)
    (h : headersMove rest ≠ .fail [] .partHeaderMalformed) (he : evs.countP isPartContentType = 0) :
    frame f .headers rest ≠ (evs, .error .partHeaderMalformed) := by
  intro hframe
  have hmove : move f rest .headers = headersMove rest := rfl
  cases hm : headersMove rest with
  | finished =>
    rw [frame_finished (hmove.trans hm)] at hframe
    cases hframe
  | fail evs' e =>
    rw [frame_fail (hmove.trans hm)] at hframe
    cases hframe
    simp only [headersMove] at hm h
    repeat' split at hm
    all_goals cases hm <;> simp_all
  | go evs' stage' rest' =>
    rw [frame_go (hmove.trans hm)] at hframe
    simp only [headersMove] at hm
    repeat' split at hm
    all_goals cases hm
    simp only [Prod.mk.injEq] at hframe
    rw [← hframe.1] at he
    simp [isPartContentType] at he

/-- A cut run does not end as the framing of its body does. -/
theorem frame_ne_of_cut {t t' : FramingTokenizer σ} {rest evs} (h : Reads t rest)
    (hr : Reaches nextEvent t evs t') (hc : Cut t') :
    frame t.framing t.stage rest ≠ (mergePayload evs, .error .partHeaderMalformed) := by
  obtain ⟨rest', h1, -, h3, -⟩ := Reaches.frame_eq hr h
  obtain ⟨hs, -, -, ahead, hd, hm⟩ := hc
  rw [← h1.unique ⟨ahead, hd, rfl⟩] at hm
  rw [h3, hs, foldr_prepend]
  intro heq
  obtain ⟨hevs, hout⟩ := Prod.mk.inj heq
  have hcount := congrArg (List.countP isPartContentType) hevs
  rw [countP_foldr_mergeCons (fun _ => rfl), countP_mergePayload (fun _ => rfl)] at hcount
  refine frame_headers_ne (frame t.framing .headers rest').1 hm ?_ (Prod.ext rfl hout)
  omega

/-- The framed items up to a cut are a beginning of the framing, and end with the part's start. -/
theorem prefix_of_cut {f body} (c : Chunking σ body) {t' evs}
    (hr : Reaches nextEvent (new f c.source) evs t') (hc : Cut t') :
    ∃ pre, mergePayload evs = pre ++ [.partStarted] ∧
      pre ++ [.partStarted] <+: (frame f .opening body).1 := by
  obtain ⟨rest', -, -, h3, h4⟩ := Reaches.frame_eq hr (reads_new f c)
  have hne : evs ≠ [] := by
    rintro rfl
    cases hr
    exact absurd hc.1 (by simp [new])
  obtain ⟨evs', rfl⟩ := h4 hne hc.1
  refine ⟨mergePayload evs', mergePayload_snoc (by simp) _, ?_⟩
  have hfold := foldr_mergeCons (startsPayload_headers f rest') (evs' ++ [.partStarted])
  rw [← mergePayload_snoc (by simp)]
  change frame f .opening body = _ at h3
  rw [h3, hc.1, foldr_prepend]
  simp only [new, hfold]
  exact prefix_append ..

theorem yields_of_cut {t t' : FramingTokenizer σ} {evs : List FramingEvent}
    (hr : Reaches nextEvent t evs t') (hc : Cut t') :
    Yields t (mergePayload evs) (.error .partHeaderMalformed) := by
  refine ⟨evs, ?_, rfl⟩
  have := hr.completes (completes_error (nextEvent_cut hc))
  rwa [append_nil] at this

/-- A source without a cut gives the framing of the body. -/
theorem yields_of_not_cut {f : RequestFraming} {body : List UInt8} {c : Chunking σ body}
    (h : ∀ part, ¬ CutAt (new f c.source) part) :
    Yields (new f c.source) (frame f .opening body).1 (frame f .opening body).2 := by
  obtain ⟨raw, out, hc, hframe, -⟩ | ⟨raw, t', -, hr, hc⟩ := run_cases (reads_new f c)
  · change frame f .opening body = _ at hframe
    rw [hframe]
    exact ⟨raw, hc, rfl⟩
  · exact absurd ⟨raw, t', hr, hc, rfl⟩ (h _)

/-- A cut on one side only shows. -/
theorem not_same_of_cutAt {f : RequestFraming} {body : List UInt8} {a : Chunking σ body}
    {b : Chunking τ body} {part : Nat} (ha : CutAt (new f a.source) part)
    (hb : ¬ CutAt (new f b.source) part) :
    ¬ ∃ evs out, Yields (new f a.source) evs out ∧ Yields (new f b.source) evs out := by
  rintro ⟨evs, out, hya, hyb⟩
  obtain ⟨raw, t', hr, hc, hcount⟩ := ha
  obtain ⟨rfl, rfl⟩ := hya.unique (yields_of_cut hr hc)
  by_cases hcut : ∃ part, CutAt (new f b.source) part
  · obtain ⟨part', raw', t'', hr', hc', hcount'⟩ := hcut
    obtain ⟨heq, -⟩ := hyb.unique (yields_of_cut hr' hc')
    have := congrArg (List.countP isPartStarted) heq
    rw [countP_mergePayload (fun _ => rfl), countP_mergePayload (fun _ => rfl)] at this
    exact hb ⟨raw', t'', hr', hc', by omega⟩
  · obtain ⟨h1, h2⟩ := hyb.unique (yields_of_not_cut (fun part h => hcut ⟨part, h⟩))
    exact frame_ne_of_cut (reads_new f a) hr hc (Prod.ext h1.symm h2.symm)

/-- Sources that cut the same part's header have framed the same items before it. -/
theorem same_of_cutAt {f : RequestFraming} {body : List UInt8} {a : Chunking σ body}
    {b : Chunking τ body} {part : Nat} (ha : CutAt (new f a.source) part)
    (hb : CutAt (new f b.source) part) :
    ∃ evs out, Yields (new f a.source) evs out ∧ Yields (new f b.source) evs out := by
  obtain ⟨raw, t, hr, hc, hcount⟩ := ha
  obtain ⟨raw', t', hr', hc', hcount'⟩ := hb
  obtain ⟨pre, hp, hpre⟩ := prefix_of_cut a hr hc
  obtain ⟨pre', hp', hpre'⟩ := prefix_of_cut b hr' hc'
  have heq : mergePayload raw = mergePayload raw' := by
    rw [hp, hp']
    refine prefix_eq_of_countP (p := isPartStarted) hpre hpre' rfl rfl ?_
    rw [← hp, ← hp', countP_mergePayload (fun _ => rfl), countP_mergePayload (fun _ => rfl)]
    omega
  exact ⟨_, _, yields_of_cut hr hc, heq ▸ yields_of_cut hr' hc'⟩

/-- **The chunks of a body show exactly through a cut**: two sources of one body are framed alike,
items and outcome, if and only if they cut the same part's header, or none. -/
theorem sameFraming_iff (f : RequestFraming) {body : List UInt8} (a : Chunking σ body)
    (b : Chunking τ body) :
    (∃ evs out, Yields (new f a.source) evs out ∧ Yields (new f b.source) evs out) ↔
      ∀ part, CutAt (new f a.source) part ↔ CutAt (new f b.source) part := by
  constructor
  · intro hsame part
    obtain ⟨evs, out, hya, hyb⟩ := hsame
    constructor
    · intro ha
      by_contra hb
      exact not_same_of_cutAt ha hb ⟨evs, out, hya, hyb⟩
    · intro hb
      by_contra ha
      exact not_same_of_cutAt hb ha ⟨evs, out, hyb, hya⟩
  · intro hiff
    by_cases hcut : ∃ part, CutAt (new f a.source) part
    · obtain ⟨part, ha⟩ := hcut
      exact same_of_cutAt ha ((hiff part).mp ha)
    · have ha : ∀ part, ¬ CutAt (new f a.source) part := fun part h => hcut ⟨part, h⟩
      exact ⟨_, _, yields_of_not_cut ha, yields_of_not_cut fun part h => ha part ((hiff part).mpr h)⟩

/-! ## A byte slice that runs into a cut

The first pull of the tokenizer takes a whole window. If that holds the first
part and ends inside the header block of the second, the block is refused. -/

section OnePull

omit [ByteSource σ] in
theorem live_consume (t : FramingTokenizer σ) (n : Nat) (stage : Stage) :
    (t.consume n stage).live = t.live.drop n := rfl

omit [ByteSource σ] in
theorem windowLen_consume {t : FramingTokenizer σ} {n} (h : n ≤ t.live.length) (stage : Stage) :
    (t.consume n stage).windowLen = t.windowLen := by
  simp only [windowLen, Window.len, consume, Window.advance, live, length_drop] at *
  omega

theorem step_opening {t : FramingTokenizer σ} {tail} (hs : t.stage = .opening)
    (hl : t.live = t.framing.dashBoundary ++ (CRLF ++ tail)) :
    t.step = .event .partStarted (t.consume (t.framing.dashBoundary.length + 2) .headers) := by
  have hlen : t.framing.dashBoundary.length + 2 ≤ t.live.length := by rw [hl]; simp [CRLF]
  have h1 : t.startsWith t.framing.dashBoundary = true := by
    rw [startsWith, hl, List.isPrefixOf_iff_prefix]
    exact prefix_append ..
  have h2 : t.matchesAt t.framing.dashBoundary.length CRLF = true := by
    rw [matchesAt, hl, drop_left, List.isPrefixOf_iff_prefix]
    exact prefix_append ..
  simp only [step, hs, stepOpening]
  rw [if_neg (by omega), if_neg (by omega), if_neg (not_not.mpr h1), if_neg (not_not.mpr h2)]

theorem step_headers {t : FramingTokenizer σ} {p : Part} {tail} (hp : Framable t.framing p)
    (hs : t.stage = .headers) (hl : t.live = headerBlock p ++ (CRLF ++ CRLF) ++ tail) :
    t.step = .event (.partContentType p.contentType)
      (t.consume ((headerBlock p).length + 4) .payload) := by
  have h1 : ¬ t.startsWith CRLF = true := by
    rw [startsWith, hl, List.isPrefixOf_iff_prefix, append_assoc]
    exact headerBlock_not_crlf p _
  have h2 : position (CRLF ++ CRLF) t.live = some (headerBlock p).length := by
    rw [hl]
    exact position_append hp.blankLine tail
  have h3 : headerValue (t.live.take (headerBlock p).length) = some p.contentType := by
    rw [hl, append_assoc, take_left, headerValue_headerBlock hp.nonempty]
  simp [step, hs, stepHeaders, if_neg h1, h2, h3]

theorem step_payload {t : FramingTokenizer σ} {p : Part} {tail} (hp : Framable t.framing p)
    (hs : t.stage = .payload) (hl : t.live = p.payload ++ t.framing.payloadDelimiter ++ tail) :
    t.step = .event (.payload p.payload)
      (t.consume (p.payload.length + t.framing.payloadDelimiter.length) .afterBoundary) := by
  have h1 : t.live.length ≠ 0 := by
    have := (window_bounds t.framing).2.2
    rw [hl, length_append, length_append]
    omega
  have h2 : position t.framing.payloadDelimiter t.live = some p.payload.length := by
    rw [hl]
    exact position_append hp.delimiter tail
  have h3 : t.live.take p.payload.length = p.payload := by
    rw [hl, append_assoc, take_left]
  simp only [step, hs, stepPayload, if_neg h1, h2, h3]

theorem step_nextPart {t : FramingTokenizer σ} {tail} (hs : t.stage = .afterBoundary)
    (hl : t.live = CRLF ++ tail) : t.step = .event .partEnded (t.consume 2 .nextPartOpening) := by
  have hdash : utf8 "--" = [0x2d, 0x2d] := by decide
  have h1 : ¬ t.startsWith (utf8 "--") = true := by
    rw [startsWith, hl, hdash, List.isPrefixOf_iff_prefix]
    simp [CRLF]
  have h2 : t.startsWith CRLF = true := by
    rw [startsWith, hl, List.isPrefixOf_iff_prefix]
    exact prefix_append ..
  simp only [step, hs, stepAfterBoundary, if_neg h1, if_pos h2]
  rw [if_neg (by rw [hl]; simp [CRLF])]

/-- A part that lies whole in the window is read from it; the window keeps its length. -/
theorem reaches_part {t : FramingTokenizer σ} {p : Part} {tail} (hp : Framable t.framing p)
    (hs : t.stage = .headers) (hl : t.live = headerBlock p ++ (CRLF ++ CRLF) ++
      (p.payload ++ t.framing.payloadDelimiter ++ (CRLF ++ tail))) :
    ∃ t', Reaches nextEvent t
        [.partContentType p.contentType, .payload p.payload, .partEnded, .partStarted] t' ∧
      t'.stage = .headers ∧ t'.live = tail ∧ t'.windowLen = t.windowLen ∧ t'.source = t.source := by
  have hcrlf : (CRLF ++ CRLF).length = 4 := rfl
  obtain ⟨t1, ht1⟩ : ∃ t1, t1 = t.consume ((headerBlock p).length + 4) .payload := ⟨_, rfl⟩
  have hf1 : t1.framing = t.framing := by rw [ht1]; rfl
  have h1 : t1.live = p.payload ++ t.framing.payloadDelimiter ++ (CRLF ++ tail) := by
    rw [ht1, live_consume, hl, drop_left' (by rw [length_append, hcrlf])]
  obtain ⟨t2, ht2⟩ : ∃ t2, t2 = t1.consume
    (p.payload.length + t1.framing.payloadDelimiter.length) .afterBoundary := ⟨_, rfl⟩
  have h2 : t2.live = CRLF ++ tail := by
    rw [ht2, live_consume, h1, hf1, drop_left' (length_append ..)]
  have e1 := step_headers hp hs hl
  have e2 := step_payload (t := t1) (p := p) (hf1 ▸ hp) (by rw [ht1]; rfl) (hf1 ▸ h1)
  have e3 := step_nextPart (t := t2) (by rw [ht2]; rfl) h2
  rw [← ht1] at e1
  rw [← ht2] at e2
  refine ⟨{ t2.consume 2 .nextPartOpening with stage := .headers }, ?_, rfl, ?_, ?_, ?_⟩
  · exact .step (nextEvent_event e1) (.step (nextEvent_event e2) (.step (nextEvent_event e3)
      (.step (nextEvent_event rfl) (.refl _))))
  · change (t2.consume 2 .nextPartOpening).live = tail
    rw [live_consume, h2]
    rfl
  · change (t2.consume 2 .nextPartOpening).windowLen = t.windowLen
    rw [windowLen_consume (by rw [h2]; simp [CRLF]), ht2,
      windowLen_consume (by rw [h1, hf1]; simp), ht1, windowLen_consume (by rw [hl]; simp [CRLF])]
  · rw [ht2, ht1]
    rfl

/-- The first call pulls a window's worth. -/
theorem step_first (f : RequestFraming) {s s' : σ} {chunk : List UInt8} (hne : chunk ≠ [])
    (hpull : PullSource.pull s FRAMING_WINDOW_BYTES = (.ok chunk, s')) :
    ∃ t, (new f s).step = .again t ∧ t.stage = .opening ∧ t.framing = f ∧ t.live = chunk ∧
      t.windowLen = chunk.length ∧ t.source = s' := by
  have hfill : ∃ t, (new f s).fill = (.ok chunk.length, t) ∧ t.source = s' ∧ t.live = chunk := by
    unfold fill
    rw [dif_neg (by simp [new, live, Window.empty, FRAMING_WINDOW_BYTES])]
    split
    · rename_i h'
      change PullSource.pull s FRAMING_WINDOW_BYTES = _ at h'
      rw [hpull] at h'
      cases h'
    · rename_i h'
      change PullSource.pull s FRAMING_WINDOW_BYTES = _ at h'
      rw [hpull] at h'
      cases h'
      exact ⟨_, rfl, rfl, rfl⟩
  obtain ⟨t, ht, hsource, hlive⟩ := hfill
  obtain ⟨-, -, -, hpos, hstage, hframing⟩ := fill_ok ht
  obtain ⟨n, hn⟩ := Nat.exists_eq_succ_of_ne_zero (mt length_eq_zero_iff.mp hne)
  refine ⟨t, ?_, hstage, hframing, hlive, ?_, hsource⟩
  · have hlive : (new f s).live = [] := rfl
    change (new f s).stepOpening = _
    rw [stepOpening, if_neg (by simp [hlive, startsWith]), if_pos (by simp [hlive])]
    simp [refill, ht, hn]
  · rw [windowLen, Window.len, hpos, Nat.zero_add, ← hlive]
    rfl

/-- A first pull that holds a whole part leaves its bytes in the window, consumed. -/
theorem reaches_nextHeader {f : RequestFraming} {p : Part} (hp : Framable f p) {s s' : σ}
    {chunk tail : List UInt8}
    (hpull : PullSource.pull s FRAMING_WINDOW_BYTES = (.ok chunk, s'))
    (hchunk : chunk = f.dashBoundary ++ (CRLF ++ (headerBlock p ++ (CRLF ++ CRLF) ++
      (p.payload ++ f.payloadDelimiter ++ (CRLF ++ tail))))) :
    ∃ t, Reaches nextEvent (new f s) (partEvents p ++ [.partStarted]) t ∧ t.stage = .headers ∧
      t.live = tail ∧ t.windowLen = chunk.length ∧ t.source = s' := by
  obtain ⟨t1, hagain, hs, hf, hl, hw, hsrc⟩ := step_first f (by rw [hchunk]; simp [CRLF]) hpull
  subst hf
  rw [hchunk] at hl
  have e1 := step_opening hs hl
  have hl' : (t1.consume (t1.framing.dashBoundary.length + 2) .headers).live =
      headerBlock p ++ (CRLF ++ CRLF) ++
        (p.payload ++ t1.framing.payloadDelimiter ++ (CRLF ++ tail)) := by
    rw [live_consume, hl, ← append_assoc, drop_left' (by simp [CRLF])]
  obtain ⟨t, hr, h1, h2, h3, h4⟩ := reaches_part (t := t1.consume _ .headers) hp rfl hl'
  refine ⟨t, .step ((nextEvent_again hagain).trans (nextEvent_event e1)) hr, h1, h2, ?_, ?_⟩
  · rw [h3, windowLen_consume (by rw [hl]; simp [CRLF]), hw]
  · rw [h4]
    exact hsrc

end OnePull

/-- The bytes of a framed body before its second header block. -/
def beforeSecond (f : RequestFraming) (p : Part) : List UInt8 :=
  partBytes f p ++ f.dashBoundary ++ CRLF

theorem beforeSecond_append (f : RequestFraming) (p : Part) (rest : List UInt8) :
    beforeSecond f p ++ rest = f.dashBoundary ++ (CRLF ++ (headerBlock p ++ (CRLF ++ CRLF) ++
      (p.payload ++ f.payloadDelimiter ++ (CRLF ++ rest)))) := by
  simp [beforeSecond, partBytes, RequestFraming.payloadDelimiter]

theorem framedBody_two (f : RequestFraming) (p q : Part) :
    ∃ tail, framedBody f [p, q] =
      beforeSecond f p ++ (headerBlock q ++ (CRLF ++ CRLF) ++ tail) :=
  ⟨_, by rw [framedBody_eq, beforeSecond_append]; rfl⟩

/-- A byte slice hands out all that fits. -/
def slice (body : List UInt8) : Chunking (List UInt8) body :=
  ⟨body, delivers_remaining id (fun s room hr => ⟨room, s.drop room, hr, rfl, rfl⟩) body⟩

/-- **A byte slice is cut** when the window ends inside the second header block. -/
theorem slice_cut {f : RequestFraming} {p q : Part} (hp : Framable f p) (hq : Framable f q)
    (hlo : (beforeSecond f p).length ≤ FRAMING_WINDOW_BYTES)
    (hhi : FRAMING_WINDOW_BYTES < (beforeSecond f p).length + (headerBlock q).length + 4) :
    CutAt (new f (slice (framedBody f [p, q])).source) 2 := by
  obtain ⟨tail, hbody⟩ := framedBody_two f p q
  have hcrlf : (CRLF ++ CRLF).length = 4 := rfl
  have htake : (framedBody f [p, q]).take FRAMING_WINDOW_BYTES = beforeSecond f p ++
      (headerBlock q ++ (CRLF ++ CRLF) ++ tail).take
        (FRAMING_WINDOW_BYTES - (beforeSecond f p).length) := by
    rw [hbody, take_append, take_of_length_le hlo]
  have hdrop : (framedBody f [p, q]).drop FRAMING_WINDOW_BYTES =
      (headerBlock q ++ (CRLF ++ CRLF) ++ tail).drop
        (FRAMING_WINDOW_BYTES - (beforeSecond f p).length) := by
    rw [hbody, drop_append, drop_of_length_le hlo, nil_append]
  have hlen : FRAMING_WINDOW_BYTES ≤ (framedBody f [p, q]).length := by
    rw [hbody]
    simp only [length_append] at hcrlf ⊢
    omega
  have hpull : PullSource.pull (framedBody f [p, q]) FRAMING_WINDOW_BYTES =
      (.ok ((framedBody f [p, q]).take FRAMING_WINDOW_BYTES),
        (framedBody f [p, q]).drop FRAMING_WINDOW_BYTES) := rfl
  obtain ⟨t, hr, hs, hlive, hw, hsrc⟩ :=
    reaches_nextHeader hp hpull (htake.trans (beforeSecond_append ..))
  have hdel : Delivers t.source ((framedBody f [p, q]).drop FRAMING_WINDOW_BYTES) := by
    rw [hsrc]
    exact (slice _).delivers
  refine ⟨_, t, hr, ⟨hs, ?_, ?_, _, hdel, ?_⟩, rfl⟩
  · rw [hw, length_take]
    omega
  · rw [hlive]
    exact position_take_none (position_append hq.blankLine tail) (by rw [hcrlf]; omega)
  · rw [hlive, hdrop, take_append_drop, headersMove_headerBlock hq]
    simp

/-- A source that hands out the given numbers of bytes first. -/
structure Paced where
  sizes : List Nat
  data : List UInt8

/-- How many bytes a paced source offers next: never none. -/
def Paced.next (s : Paced) (room : Nat) : Nat := min room (s.sizes.headD room + 1)

instance : ByteSource Paced where
  pull s room := (.ok (s.data.take (s.next room)), ⟨s.sizes.tail, s.data.drop (s.next room)⟩)
  length_le h := by
    cases h
    exact (length_take_le ..).trans (Nat.min_le_left ..)

def paced (sizes : List Nat) (body : List UInt8) : Chunking Paced body :=
  ⟨⟨sizes, body⟩, delivers_remaining Paced.data (fun s room hr =>
    ⟨s.next room, _, by simp only [Paced.next]; omega, rfl, rfl⟩) ⟨sizes, body⟩⟩

/-- One run is in a header stage once per part. -/
theorem reaches_header_unique {t t₁ t₂ : FramingTokenizer σ} {rest} {evs₁ evs₂ : List FramingEvent}
    (h : Reads t rest) (h₁ : Reaches nextEvent t evs₁ t₁) (h₂ : Reaches nextEvent t evs₂ t₂)
    (hs₁ : t₁.stage = .headers) (hs₂ : t₂.stage = .headers)
    (hc : evs₁.countP isPartStarted = evs₂.countP isPartStarted) : t₁ = t₂ := by
  have key : ∀ {evs d : List FramingEvent} {x y : FramingTokenizer σ},
      Reaches nextEvent t evs x → Reaches nextEvent x d y → y.stage = .headers →
      (evs ++ d).countP isPartStarted = evs.countP isPartStarted → x = y := by
    intro evs d x y hx hd hy hc
    obtain ⟨rest', hr, -⟩ := Reaches.frame_eq hx h
    obtain ⟨-, -, -, -, hlast⟩ := Reaches.frame_eq hd hr
    by_cases hne : d = []
    · subst hne
      cases hd
      rfl
    · obtain ⟨d', rfl⟩ := hlast hne hy
      simp [isPartStarted] at hc
  obtain ⟨d, rfl, hd⟩ | ⟨d, rfl, hd⟩ := h₁.compare h₂
  · exact key h₁ hd hs₂ hc.symm
  · exact (key h₂ hd hs₁ hc).symm

/-- A source that stops short at the second header block does not cut it. -/
theorem not_cut_of_pull {f : RequestFraming} {p q : Part} (hp : Framable f p)
    (hlo : (beforeSecond f p).length < FRAMING_WINDOW_BYTES) (c : Chunking σ (framedBody f [p, q]))
    {s : σ} (hpull : PullSource.pull c.source FRAMING_WINDOW_BYTES = (.ok (beforeSecond f p), s)) :
    ¬ CutAt (new f c.source) 2 := by
  rintro ⟨evs, t', hr', hc', hcount⟩
  rw [← append_nil (beforeSecond f p)] at hpull
  obtain ⟨t, hr, hs, -, hw, -⟩ := reaches_nextHeader hp hpull (beforeSecond_append ..)
  have heq := reaches_header_unique (reads_new f c) hr hr' hs hc'.1 (hcount ▸ rfl)
  have hfull := hc'.2.1
  rw [← heq, hw, append_nil] at hfull
  omega

theorem paced_not_cut {f p q} (hp : Framable f p)
    (hlo : (beforeSecond f p).length < FRAMING_WINDOW_BYTES) :
    ¬ CutAt (new f (paced [(beforeSecond f p).length - 1] (framedBody f [p, q])).source) 2 := by
  obtain ⟨tail, hbody⟩ := framedBody_two f p q
  have hpos : 0 < (beforeSecond f p).length := by
    simp only [beforeSecond, CRLF, length_append, length_cons]
    omega
  have hnext : Paced.next ⟨[(beforeSecond f p).length - 1], framedBody f [p, q]⟩
      FRAMING_WINDOW_BYTES = (beforeSecond f p).length := by
    simp only [Paced.next, headD_cons]
    omega
  have hpull : PullSource.pull
      (paced [(beforeSecond f p).length - 1] (framedBody f [p, q])).source FRAMING_WINDOW_BYTES =
      (.ok (beforeSecond f p), ⟨[], (framedBody f [p, q]).drop (beforeSecond f p).length⟩) := by
    simp only [paced, PullSource.pull, hnext]
    rw [hbody, take_left]
    rfl
  exact not_cut_of_pull hp hlo _ hpull

/-! ## A body that two sources frame differently -/

def sampleFraming : RequestFraming := ⟨utf8 "b", by decide, by decide, by decide⟩

/-- A first part that puts the second header block across the window's end. -/
def longPart : Part := ⟨"x", List.replicate 8150 0x61⟩

def shortPart : Part := ⟨"y", []⟩

theorem framable_longPart : Framable sampleFraming longPart where
  nonempty := by decide
  blankLine := by decide
  fits := by decide
  delimiter := position_delimiter _ fun h => absurd (eq_of_mem_replicate h) (by decide)

theorem beforeSecond_longPart : (beforeSecond sampleFraming longPart).length = 8181 := by
  have h1 : (headerBlock longPart).length = 15 := by decide
  have h2 : sampleFraming.dashBoundary.length = 3 := by decide
  have h3 : longPart.payload.length = 8150 := length_replicate
  simp only [beforeSecond, partBytes, length_append, h1, h2, h3]
  rfl

/-- The slice is refused, the source that stops at the second header block is not. -/
theorem slice_and_paced_differ :
    ¬ ∃ evs out,
      Yields (new sampleFraming (slice (framedBody sampleFraming [longPart, shortPart])).source)
        evs out ∧
      Yields (new sampleFraming (paced [(beforeSecond sampleFraming longPart).length - 1]
        (framedBody sampleFraming [longPart, shortPart])).source) evs out := by
  have hlen := beforeSecond_longPart
  have hblock : (headerBlock shortPart).length = 15 := by decide
  refine not_same_of_cutAt (slice_cut framable_longPart
    ⟨by decide, by decide, by decide, by decide⟩ ?_ ?_)
    (paced_not_cut framable_longPart ?_) <;> rw [hlen]
  · decide
  · decide
  · decide

end AgentArchivist.Server.FramingChunks
