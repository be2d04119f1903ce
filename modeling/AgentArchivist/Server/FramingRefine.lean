import AgentArchivist.Server.FramingSpec

/-! # The tokenizer frames the body, unless it cuts a header

Over a source that delivers a body, every call of `nextEvent` does what `frame`
says of the bytes still to be read, whatever the chunks are, with one exception:
in the header stage the length of the whole window, consumed bytes included, is
taken for the length of the header block. `Cut` is the state in which that
matters, and `run_cases` says that a run either frames the body or ends there. -/
namespace AgentArchivist.Server.FramingRefine
open Lib List
open Utf8 Search Source Events Framing FramingSpec FramingTokenizer

variable {σ : Type} [ByteSource σ]

/-- The bytes a tokenizer has still to read: the live ones and what its source delivers. -/
def Reads (t : FramingTokenizer σ) (rest : List UInt8) : Prop :=
  ∃ ahead, Delivers t.source ahead ∧ rest = t.live ++ ahead

/-- A full window that holds the start of an acceptable header block behind consumed bytes. -/
def Cut (t : FramingTokenizer σ) : Prop :=
  t.stage = .headers ∧ FRAMING_WINDOW_BYTES ≤ t.windowLen ∧
    position (CRLF ++ CRLF) t.live = none ∧
    ∃ ahead, Delivers t.source ahead ∧ headersMove (t.live ++ ahead) ≠ .fail [] .partHeaderMalformed

variable {t : FramingTokenizer σ} {rest : List UInt8}

theorem Reads.unique {a b} (ha : Reads t a) (hb : Reads t b) : a = b := by
  obtain ⟨x, hx, rfl⟩ := ha
  obtain ⟨y, hy, rfl⟩ := hb
  rw [hx.unique hy]

theorem reads_new (f : RequestFraming) {body} (c : Chunking σ body) : Reads (new f c.source) body :=
  ⟨body, c.delivers, rfl⟩

section
variable (h : Reads t rest)
include h

theorem Reads.live_isPrefix : t.live <+: rest := by
  obtain ⟨ahead, -, rfl⟩ := h
  exact prefix_append ..

/-- Consuming live bytes consumes them from what is to be read. -/
theorem Reads.consume {n} (hn : n ≤ t.live.length) (stage : Stage) :
    Reads (t.consume n stage) (rest.drop n) := by
  obtain ⟨ahead, hd, rfl⟩ := h
  exact ⟨ahead, hd, by rw [drop_append_of_le_length hn]; rfl⟩

theorem Reads.take {n} (hn : n ≤ t.live.length) : rest.take n = t.live.take n := by
  obtain ⟨ahead, -, rfl⟩ := h
  rw [take_append_of_le_length hn]

/-- A short enough prefix is decided by the live bytes. -/
theorem Reads.startsWith_iff (pre : List UInt8)
    (hl : pre.length ≤ t.live.length) : pre <+: rest ↔ t.startsWith pre = true := by
  rw [startsWith, List.isPrefixOf_iff_prefix]
  constructor
  · exact fun hp => prefix_of_prefix_length_le hp h.live_isPrefix hl
  · exact fun hp => hp.trans h.live_isPrefix

theorem Reads.matchesAt_iff (offset : Nat) (pre : List UInt8)
    (hl : offset + pre.length ≤ t.live.length) :
    pre <+: rest.drop offset ↔ t.matchesAt offset pre = true := by
  obtain ⟨ahead, -, rfl⟩ := h
  rw [matchesAt, List.isPrefixOf_iff_prefix, prefix_drop_append hl]

/-! ## Refilling -/

/-- A fill of a window with room reads on, and brings nothing only at the end of the body. -/
theorem fill_reads (hroom : t.live.length < FRAMING_WINDOW_BYTES) :
    ∃ n t', t.fill = (.ok n, t') ∧ Reads t' rest ∧ (n = 0 → rest = t.live) := by
  obtain ⟨ahead, hd, rfl⟩ := h
  obtain ⟨chunk, ahead', s', hp, rfl, he, hd'⟩ :=
    hd.pull_eq (show 0 < FRAMING_WINDOW_BYTES - t.live.length by omega)
  cases hf : t.fill with
  | mk r t' =>
    unfold fill at hf
    rw [dif_neg (by omega)] at hf
    split at hf
    · rename_i h'; rw [hp] at h'; cases h'
    rename_i h'
    rw [hp] at h'
    cases h'
    cases hf
    refine ⟨chunk.length, _, rfl, ⟨ahead', hd', ?_⟩, ?_⟩
    · simp [live]
    · intro hz
      have hc := length_eq_zero_iff.mp hz
      rw [hc, he hc, append_nil, append_nil]

end

/-- A window that has just been compacted is not a cut: it holds the block from its start. -/
theorem not_cut_of_compact (hpos : t.window.pos = 0) : ¬ Cut t := by
  rintro ⟨-, hfull, hnone, ahead, -, hm⟩
  have hlive : FRAMING_WINDOW_BYTES = t.live.length := by
    have := t.live_length_le
    simp only [windowLen, Window.len, hpos] at hfull
    simp only [live] at *
    omega
  apply hm
  unfold headersMove
  split
  · rfl
  · rw [hlive, take_left, hnone]
    simp

theorem not_cut_of_stage (h : t.stage ≠ .headers) : ¬ Cut t :=
  fun hc => h hc.1

/-! ## One turn -/

/-- What a turn has to do with the framing of the bytes still to be read. -/
def Simulates (f : RequestFraming) (stage : Stage) (rest : List UInt8) : Turn σ → Prop
  | .again t' => ∃ rest', Reads t' rest' ∧ t'.framing = f ∧ ¬ Cut t' ∧
      size t'.stage rest' ≤ size stage rest ∧ frame f stage rest = frame f t'.stage rest'
  | .event e t' => ∃ rest', Reads t' rest' ∧ t'.framing = f ∧
      size t'.stage rest' < size stage rest ∧
      frame f stage rest = prepend e (frame f t'.stage rest')
  | .finished _ => frame f stage rest = ([], .ok ())
  | .error e _ => frame f stage rest = ([], .error e)

theorem window_bounds (f : RequestFraming) :
    f.dashBoundary.length + 2 < FRAMING_WINDOW_BYTES ∧
      f.payloadDelimiter.length < FRAMING_WINDOW_BYTES ∧ 1 ≤ f.payloadDelimiter.length := by
  have h1 := delimiter_length f
  have h2 := f.length_le
  unfold FRAMING_WINDOW_BYTES
  omega

section
variable (h : Reads t rest)
include h

/-- The refills of every stage: around, or at the end of a body that stops here. -/
theorem simulates_refill (hroom : t.live.length < FRAMING_WINDOW_BYTES)
    (ended : FramingTokenizer σ → FramingError)
    (hend : ∀ t' : FramingTokenizer σ, t'.live = t.live → rest = t.live →
      move t.framing rest t.stage = .fail [] (ended t')) :
    Simulates t.framing t.stage rest (t.refill ended) := by
  obtain ⟨n, t', hf, hr, hz⟩ := fill_reads h hroom
  obtain ⟨chunk, hn, hl, hpos, hst, hfr⟩ := fill_ok hf
  simp only [refill, hf]
  cases n with
  | zero =>
    rw [length_eq_zero_iff.mp hn, append_nil] at hl
    exact frame_fail (hend t' hl (hz rfl))
  | succ n => exact ⟨rest, hr, hfr, not_cut_of_compact hpos, by rw [hst], by rw [hst]⟩

/-- A turn that consumes bytes and yields the one event the grammar has there. -/
theorem simulates_event {n} (hn : n ≤ t.live.length) {e stage} (he : ∀ run, e ≠ .payload run)
    (hm : move t.framing rest t.stage = .go [e] stage (rest.drop n)) :
    Simulates t.framing t.stage rest (.event e (t.consume n stage)) := by
  refine ⟨_, h.consume hn stage, rfl, size_lt_of_move hm, ?_⟩
  rw [frame_go hm, prepend, mergeCons_of_not_payload he]
  rfl

theorem simulates_opening (hs : t.stage = .opening) :
    Simulates t.framing t.stage rest t.stepOpening := by
  have hb := (window_bounds t.framing).1
  have hcrlf : CRLF.length = 2 := rfl
  unfold stepOpening
  dsimp only
  split
  · rename_i hc
    have hn : ¬ t.framing.dashBoundary <+: rest := fun hd =>
      hc.2 ((h.startsWith_iff _ (length_take_le ..)).mp ((List.take_prefix _ _).trans hd))
    exact frame_fail (by simp [hs, move, openingMove, hn])
  split
  · rename_i hshort
    refine simulates_refill h (by omega) _ fun t' hl hrest => ?_
    simp only [startsWith, List.isPrefixOf_iff_prefix, hl, ← hrest] at hshort ⊢
    by_cases hn : t.framing.dashBoundary <+: rest <;>
      simp [hs, move, openingMove, hn, hshort]
  rename_i hlong
  have hle := h.live_isPrefix.length_le
  have hrest : ¬ rest.length < t.framing.dashBoundary.length + 2 := by omega
  simp only [← h.startsWith_iff t.framing.dashBoundary (by omega),
    ← h.matchesAt_iff t.framing.dashBoundary.length CRLF (by omega)]
  split
  · rename_i hd
    exact frame_fail (by simp [hs, move, openingMove, hd])
  rename_i hd
  split
  · rename_i hm
    exact frame_fail (by simp [hs, move, openingMove, not_not.mp hd, hrest, hm])
  · rename_i hm
    refine simulates_event h (by omega) (by simp) ?_
    simp [hs, move, openingMove, not_not.mp hd, hrest, not_not.mp hm]

theorem simulates_headers (hs : t.stage = .headers) (hcut : ¬ Cut t) :
    Simulates t.framing t.stage rest t.stepHeaders := by
  have hfits := t.live_length_le
  unfold stepHeaders
  split
  · rename_i hc
    refine frame_fail ?_
    have hp : CRLF <+: rest := (List.isPrefixOf_iff_prefix.mp hc).trans h.live_isPrefix
    simp [hs, move, headersMove, if_pos hp]
  rename_i hc
  split
  · rename_i hnone
    split
    · -- a full window: either the block is too long, or this is the cut
      rename_i hfull
      refine frame_fail ?_
      obtain ⟨ahead, hd, rfl⟩ := h
      by_contra hm
      simp only [hs, move] at hm
      exact hcut ⟨hs, hfull, hnone, ahead, hd, hm⟩
    · have hroom' : t.live.length < FRAMING_WINDOW_BYTES := by
        simp only [windowLen, Window.len, live] at *
        omega
      refine simulates_refill h hroom' _ ?_
      intro t' _ hrest
      subst hrest
      have hp : ¬ CRLF <+: t.live := fun hp => hc (List.isPrefixOf_iff_prefix.mpr hp)
      simp only [hs, move, headersMove, if_neg hp]
      rw [take_of_length_le hroom'.le, hnone]
      simp [if_neg (not_le.mpr hroom')]
  · rename_i found hfound
    have hb := position_bound hfound
    simp only [CRLF, length_append, length_cons, length_nil] at hb
    have hp : ¬ CRLF <+: rest := fun hp => hc ((h.startsWith_iff CRLF (by simp [CRLF]; omega)).mp hp)
    have hpos : position (CRLF ++ CRLF) (rest.take FRAMING_WINDOW_BYTES) = some found := by
      obtain ⟨ahead, -, rfl⟩ := h
      rw [take_append, take_of_length_le hfits]
      exact position_append hfound _
    have htake := h.take (n := found) (by omega)
    split
    · rename_i hv
      refine frame_fail ?_
      simp [hs, move, headersMove, hpos, htake, hv]
    · rename_i value hv
      refine simulates_event h (by omega) (by simp) ?_
      simp [hs, move, headersMove, if_neg hp, hpos, htake, hv]

/-- The live bytes hold the next delimiter. -/
theorem simulates_payload_found (hs : t.stage = .payload) {found}
    (hfound : position t.framing.payloadDelimiter t.live = some found) :
    Simulates t.framing t.stage rest (.event (.payload (t.live.take found))
      (t.consume (found + t.framing.payloadDelimiter.length) .afterBoundary)) := by
  have hb := position_bound hfound
  have hpos : position t.framing.payloadDelimiter rest = some found := by
    obtain ⟨ahead, -, rfl⟩ := h
    exact position_append hfound _
  have hm : move t.framing rest t.stage = .go [.payload (rest.take found)] .afterBoundary
      (rest.drop (found + t.framing.payloadDelimiter.length)) := by
    simp [hs, move, payloadMove, hpos]
  refine ⟨_, h.consume hb .afterBoundary, rfl, size_lt_of_move hm, ?_⟩
  rw [frame_go hm, prepend, h.take (by omega)]
  simp only [consume]
  rw [mergeCons_of_not_starts (startsPayload_afterBoundary ..)]
  rfl

/-- No delimiter among the live bytes: all but its possible start is given out, and the rest of
the payload is framed as before. -/
theorem simulates_payload_run (hs : t.stage = .payload)
    (hnone : position t.framing.payloadDelimiter t.live = none)
    (hlong : t.framing.payloadDelimiter.length - 1 < t.live.length) :
    Simulates t.framing t.stage rest
      (.event (.payload (t.live.take (t.live.length - (t.framing.payloadDelimiter.length - 1))))
        (t.consume (t.live.length - (t.framing.payloadDelimiter.length - 1)) .payload)) := by
  obtain ⟨emit, hemit⟩ :
    ∃ emit, emit = t.live.length - (t.framing.payloadDelimiter.length - 1) := ⟨_, rfl⟩
  rw [← hemit]
  have hle := h.live_isPrefix.length_le
  refine ⟨_, h.consume (by omega) .payload, rfl, ?_, ?_⟩
  · simp only [consume, size, hs, length_drop, reduceCtorEq, or_self, if_false]
    omega
  rw [← h.take (by omega)]
  simp only [hs, consume]
  cases hpos : position t.framing.payloadDelimiter rest with
  | some found =>
    have hge : emit ≤ found := by
      obtain ⟨ahead, -, rfl⟩ := h
      have := le_of_position_append hnone hpos
      omega
    have hpos' := position_drop hpos hge
    rw [frame_payload_some hpos, frame_payload_some hpos']
    simp only [prepend, mergeCons, drop_drop]
    rw [← take_append_drop emit (rest.take found), take_take, drop_take,
      Nat.min_eq_left hge, show emit + (found - emit + t.framing.payloadDelimiter.length) =
        found + t.framing.payloadDelimiter.length by omega]
  | none =>
    rw [frame_payload_none hpos, frame_payload_none (position_drop_none hpos emit),
      if_pos (by omega)]
    by_cases hmore : t.framing.payloadDelimiter.length - 1 < (rest.drop emit).length
    · rw [if_pos hmore]
      simp only [prepend, mergeCons, length_drop] at hmore ⊢
      rw [← take_append_drop emit (rest.take _), take_take, drop_take,
        Nat.min_eq_left (by omega), Nat.sub_right_comm]
    · rw [if_neg hmore]
      simp only [prepend, mergeCons, length_drop] at hmore ⊢
      rw [show rest.length - (t.framing.payloadDelimiter.length - 1) = emit by omega]

theorem simulates_payload (hs : t.stage = .payload) :
    Simulates t.framing t.stage rest t.stepPayload := by
  have hb := window_bounds t.framing
  -- at the end of the body a short remainder is no payload
  have hend : ∀ t' : FramingTokenizer σ, t.live.length ≤ t.framing.payloadDelimiter.length - 1 →
      t'.live = t.live → rest = t.live →
      move t.framing rest t.stage = .fail [] .unexpectedEndOfStream := by
    intro t' hshort _ hrest
    have hnone : position t.framing.payloadDelimiter rest = none := by
      rw [position_eq_none]
      intro hi
      have := hi.length_le
      rw [hrest] at this
      omega
    rw [← hrest] at hshort
    simp only [hs, move, payloadMove, hnone]
    rw [if_neg (by omega)]
  unfold stepPayload
  dsimp only
  split
  · rename_i hz
    exact simulates_refill h (by omega) _ fun t' => hend t' (by omega)
  split
  · rename_i found hfound
    exact simulates_payload_found h hs hfound
  rename_i hnone
  split
  · rename_i hlong
    exact simulates_payload_run h hs hnone hlong
  · exact simulates_refill h (by omega) _ fun t' => hend t' (by omega)

/-- The two stages that look at two bytes. -/
theorem simulates_afterBoundary (hs : t.stage = .afterBoundary) :
    Simulates t.framing t.stage rest t.stepAfterBoundary := by
  have hcrlf : CRLF.length = 2 := rfl
  have hdash : (utf8 "--").length = 2 := by decide
  unfold stepAfterBoundary
  split
  · rename_i hshort
    refine simulates_refill h (by unfold FRAMING_WINDOW_BYTES; omega) _ fun t' _ hrest => ?_
    simp [hs, move, afterBoundaryMove, hrest, hshort]
  rename_i hlong
  have hle := h.live_isPrefix.length_le
  have hrest : ¬ rest.length < 2 := by omega
  simp only [← h.startsWith_iff (utf8 "--") (by omega), ← h.startsWith_iff CRLF (by omega)]
  split
  · rename_i hd
    have hm : move t.framing rest t.stage = .go [] .closingPart (rest.drop 2) := by
      simp [hs, move, afterBoundaryMove, hrest, hd]
    refine ⟨rest.drop 2, h.consume (by omega) _, rfl, not_cut_of_stage (by simp [consume]),
      (size_lt_of_move hm).le, ?_⟩
    rw [frame_go hm]
    rfl
  rename_i hd
  split
  · rename_i hc
    exact simulates_event h (by omega) (by simp) (by simp [hs, move, afterBoundaryMove, hrest, hd, hc])
  · rename_i hc
    exact frame_fail (by simp [hs, move, afterBoundaryMove, hrest, hd, hc])

theorem simulates_afterClose (hs : t.stage = .afterClose) :
    Simulates t.framing t.stage rest t.stepAfterClose := by
  have hcrlf : CRLF.length = 2 := rfl
  unfold stepAfterClose
  split
  · rename_i hshort
    refine simulates_refill h (by unfold FRAMING_WINDOW_BYTES; omega) _ fun t' _ hrest => ?_
    simp [hs, move, afterCloseMove, hrest, hshort]
  have hle := h.live_isPrefix.length_le
  have hrest : ¬ rest.length < 2 := by omega
  simp only [← h.startsWith_iff CRLF (by omega)]
  split
  · rename_i hc
    exact frame_fail (by simp [hs, move, afterCloseMove, hrest, hc])
  · rename_i hc
    refine simulates_event h (by omega) (by simp) ?_
    simp [hs, move, afterCloseMove, hrest, not_not.mp hc]

theorem simulates_done (hs : t.stage = .done) : Simulates t.framing t.stage rest t.stepDone := by
  have htrailing : ∀ {u : FramingTokenizer σ}, Reads u rest → 0 < u.live.length →
      frame t.framing t.stage rest = ([], .error .trailingBytesAfterClosingDelimiter) := by
    intro u hu hpos
    have hne : rest ≠ [] := length_pos_iff.mp (hpos.trans_le hu.live_isPrefix.length_le)
    exact frame_fail (by simp [hs, move, hne])
  unfold stepDone
  split
  · exact htrailing h ‹_›
  · obtain ⟨n, t', hf, hr, hz⟩ := fill_reads h (by unfold FRAMING_WINDOW_BYTES; omega)
    obtain ⟨chunk, hn, hlive, -⟩ := fill_ok hf
    have hnil : t.live = [] := length_eq_zero_iff.mp (by omega)
    rw [hf]
    cases n with
    | zero => exact frame_finished (by simp [hs, move, hz rfl, hnil])
    | succ n => exact htrailing hr (by rw [hlive, length_append]; omega)

/-- **One turn does what the framing of the body says.** -/
theorem simulates_step (hcut : ¬ Cut t) : Simulates t.framing t.stage rest t.step := by
  unfold step
  split
  · exact simulates_opening h ‹_›
  · exact simulates_headers h ‹_› hcut
  · exact simulates_payload h ‹_›
  · exact simulates_afterBoundary h ‹_›
  · rename_i hs
    refine ⟨rest, h, rfl, by simp [size, hs], ?_⟩
    rw [hs, frame_go (s := .closingPart) rfl]
    rfl
  · exact simulates_afterClose h ‹_›
  · rename_i hs
    refine ⟨rest, h, rfl, by simp [size, hs], ?_⟩
    rw [hs, frame_go (s := .nextPartOpening) rfl]
    rfl
  · exact simulates_done h ‹_›

/-! ## One call, and a whole run -/

/-- What a call does, away from a cut: the next item of the framing, its end, or its error. -/
theorem nextEvent_cases (hcut : ¬ Cut t) :
    (∃ e t' rest', t.nextEvent = (.ok (some e), t') ∧ Reads t' rest' ∧ t'.framing = t.framing ∧
      size t'.stage rest' < size t.stage rest ∧
      frame t.framing t.stage rest = prepend e (frame t.framing t'.stage rest')) ∨
    (∃ t', t.nextEvent = (.ok none, t') ∧ frame t.framing t.stage rest = ([], .ok ())) ∨
    (∃ e t', t.nextEvent = (.error e, t') ∧ frame t.framing t.stage rest = ([], .error e)) := by
  fun_induction nextEvent t generalizing rest with
  | case1 t t' hstep ih =>
    obtain ⟨rest', hr, hf, hc, hsize, hframe⟩ := hstep ▸ simulates_step h hcut
    rw [hframe, ← hf]
    obtain ⟨e, t'', rest'', h1, h2, h3, h4, h5⟩ | h' := ih hr hc
    · exact .inl ⟨e, t'', rest'', h1, h2, h3, by omega, h5⟩
    · exact .inr h'
  | case2 t e t' hstep =>
    obtain ⟨rest', hsim⟩ := hstep ▸ simulates_step h hcut
    exact .inl ⟨e, t', rest', rfl, hsim⟩
  | case3 t t' hstep => exact .inr (.inl ⟨t', rfl, (hstep ▸ simulates_step h hcut :)⟩)
  | case4 t e t' hstep => exact .inr (.inr ⟨e, t', rfl, (hstep ▸ simulates_step h hcut :)⟩)

end

/-- In a cut the header block is refused. -/
theorem nextEvent_cut (h : Cut t) : t.nextEvent = (.error .partHeaderMalformed, t) := by
  obtain ⟨hs, hfull, hnone, -⟩ := h
  refine nextEvent_error ?_
  simp [step, hs, stepHeaders, hnone, if_pos hfull, ite_self]

/-- The states of a run: the events so far and the framing of the rest are the whole framing. -/
theorem Reaches.frame_eq {t t' : FramingTokenizer σ} {evs : List FramingEvent}
    (hr : Reaches nextEvent t evs t') (h : Reads t rest) :
    ∃ rest', Reads t' rest' ∧ t'.framing = t.framing ∧
      frame t.framing t.stage rest = evs.foldr prepend (frame t.framing t'.stage rest') ∧
      (evs ≠ [] → t'.stage = .headers → ∃ evs', evs = evs' ++ [.partStarted]) := by
  induction hr generalizing rest with
  | refl t => exact ⟨rest, h, rfl, rfl, fun hne => absurd rfl hne⟩
  | @step t t1 t2 e evs hn hr ih =>
    have hcut : ¬ Cut t := fun hc => by rw [nextEvent_cut hc] at hn; cases hn
    obtain ⟨e', t', rest', h1, h2, h3, -, h5⟩ | ⟨t', h1, -⟩ | ⟨_, t', h1, -⟩ :=
      nextEvent_cases h hcut
    · rw [hn] at h1
      cases h1
      obtain ⟨rest'', k1, k2, k3, k4⟩ := ih h2
      rw [h3] at k3
      refine ⟨rest'', k1, k2.trans h3, by rw [h5, k3]; rfl, ?_⟩
      intro _ hst
      by_cases hevs : evs = []
      · subst hevs
        cases hr
        -- a header stage is entered by a part's start
        obtain ⟨stage, -, hf⟩ := nextEvent_follows hn
        rw [hst] at hf
        cases hf <;> exact ⟨[], rfl⟩
      · obtain ⟨evs', rfl⟩ := k4 hevs hst
        exact ⟨e :: evs', rfl⟩
    · rw [hn] at h1; cases h1
    · rw [hn] at h1; cases h1

/-- **Every run ends**, with the framing of the bytes or in a cut. -/
theorem run_cases (h : Reads t rest) :
    (∃ raw out, Completes nextEvent t raw out ∧ frame t.framing t.stage rest = (mergePayload raw, out) ∧
      ∀ evs t', Reaches nextEvent t evs t' → ¬ Cut t') ∨
    (∃ raw t', Completes nextEvent t raw (.error .partHeaderMalformed) ∧
      Reaches nextEvent t raw t' ∧ Cut t') := by
  induction hn : size t.stage rest using Nat.strongRecOn generalizing t rest with
  | ind n ih =>
    by_cases hcut : Cut t
    · exact .inr ⟨[], t, completes_error (nextEvent_cut hcut), .refl t, hcut⟩
    have hstuck : (∀ e t', t.nextEvent ≠ (.ok (some e), t')) →
        ∀ evs t', Reaches nextEvent t evs t' → ¬ Cut t' := by
      intro hne evs t' hr
      cases hr with
      | refl => exact hcut
      | step hn _ => exact absurd hn (hne _ _)
    obtain ⟨e, t', rest', h1, h2, h3, h4, h5⟩ | ⟨t', h1, h2⟩ | ⟨e, t', h1, h2⟩ :=
      nextEvent_cases h hcut
    · obtain ⟨raw, out, k1, k2, k3⟩ | ⟨raw, t'', k1, k2, k3⟩ := ih _ (hn ▸ h4) h2 rfl
      · refine .inl ⟨e :: raw, out, completes_some h1 k1, ?_, ?_⟩
        · rw [h5, ← h3, k2]
          rfl
        intro evs t'' hr
        cases hr with
        | refl => exact hcut
        | step hn hr' =>
          rw [h1] at hn
          cases hn
          exact k3 _ _ hr'
      · exact .inr ⟨e :: raw, t'', completes_some h1 k1, .step h1 k2, k3⟩
    · exact .inl ⟨[], _, completes_none h1, h2, hstuck (by simp [h1])⟩
    · exact .inl ⟨[], _, completes_error h1, h2, hstuck (by simp [h1])⟩

end AgentArchivist.Server.FramingRefine
