import AgentArchivist.Server.FramingSpec

/-! # Bodies that are framed

`framedBody f parts` is the byte-level framing the protocol pins. It is read
back as the items of its parts (`frame_framedBody`), and a body whose framing
succeeds is one of these (`framedBody_of_frame`), for parts that are `Framable`:
the blank line ends the header block, which fits the window, and the delimiter
ends the payload. -/
namespace AgentArchivist.Server.FramedBody
open Lib List
open Utf8 Search Framing FramingSpec FramingTokenizer

structure Part where
  contentType : String
  payload : List UInt8

def headerBlock (p : Part) : List UInt8 := CONTENT_TYPE_HEADER_PREFIX ++ utf8 p.contentType

/-- `--boundary CRLF`, the header and its blank line, the payload, `CRLF`. -/
def partBytes (f : RequestFraming) (p : Part) : List UInt8 :=
  f.dashBoundary ++ CRLF ++ headerBlock p ++ CRLF ++ CRLF ++ p.payload ++ CRLF

/-- The parts in order, closed by `--boundary-- CRLF`. -/
def framedBody (f : RequestFraming) (parts : List Part) : List UInt8 :=
  parts.flatMap (partBytes f) ++ f.dashBoundary ++ utf8 "--" ++ CRLF

def partEvents (p : Part) : List FramingEvent :=
  [.partStarted, .partContentType p.contentType, .payload p.payload, .partEnded]

/-- The items of a framed body. -/
def bodyEvents (parts : List Part) : List FramingEvent := parts.flatMap partEvents ++ [.endOfParts]

/-- A part the framing can carry. -/
structure Framable (f : RequestFraming) (p : Part) : Prop where
  nonempty : p.contentType ≠ ""
  blankLine : position (CRLF ++ CRLF) (headerBlock p ++ (CRLF ++ CRLF)) = some (headerBlock p).length
  fits : (headerBlock p).length + 4 ≤ FRAMING_WINDOW_BYTES
  delimiter : position f.payloadDelimiter (p.payload ++ f.payloadDelimiter) = some p.payload.length

/-- Data without a carriage return does not hold the delimiter. -/
theorem position_delimiter (f : RequestFraming) {data} (h : 0x0d ∉ data) :
    position f.payloadDelimiter (data ++ f.payloadDelimiter) = some data.length :=
  position_append_of_not_mem _ h

/-- A block without a line break in it ends at the first blank line. -/
theorem position_blankLine {block} (h : ¬ CRLF <:+: block) :
    position (CRLF ++ CRLF) (block ++ (CRLF ++ CRLF)) = some block.length := by
  refine position_eq_some.mpr ⟨by simp, by simp, ?_⟩
  intro j hj hp
  have hcrlf : CRLF <+: (block ++ (CRLF ++ CRLF)).drop j := (prefix_append ..).trans hp
  by_cases hle : j + 2 ≤ block.length
  · exact h (((prefix_drop_append hle).mp hcrlf).isInfix.trans (drop_suffix ..).isInfix)
  -- the last byte of the block would be the CR, and the next one is a CR too
  rw [drop_append_of_le_length (by omega)] at hcrlf
  obtain ⟨x, hx⟩ : ∃ x, block.drop j = [x] :=
    length_eq_one_iff.mp (by rw [length_drop]; omega)
  rw [hx] at hcrlf
  simp [CRLF] at hcrlf

variable {p : Part}

theorem headerBlock_singleLine (h : ¬ CRLF <:+: utf8 p.contentType) :
    ¬ CRLF <:+: headerBlock p := by
  have hpre : CONTENT_TYPE_HEADER_PREFIX = [0x63, 0x6f, 0x6e, 0x74, 0x65, 0x6e, 0x74, 0x2d, 0x74,
    0x79, 0x70, 0x65, 0x3a, 0x20] := by decide
  rw [headerBlock, hpre]
  simp only [CRLF] at h
  simp [infix_cons_iff, CRLF, h]

/-- What follows the boundary of a delimiter line. -/
def afterBoundary (f : RequestFraming) : List Part → List UInt8
  | [] => utf8 "--" ++ CRLF
  | p :: ps => CRLF ++ (headerBlock p ++ (CRLF ++ CRLF) ++
      (p.payload ++ f.payloadDelimiter ++ afterBoundary f ps))

theorem framedBody_eq (f : RequestFraming) (parts : List Part) :
    framedBody f parts = f.dashBoundary ++ afterBoundary f parts := by
  induction parts with
  | nil => simp [framedBody, afterBoundary]
  | cons p ps ih =>
    have hcons : framedBody f (p :: ps) = partBytes f p ++ framedBody f ps := by
      simp [framedBody]
    rw [hcons, ih]
    simp [partBytes, afterBoundary, RequestFraming.payloadDelimiter]

/-! ## Reading a framed body -/

theorem headerValue_headerBlock (h : p.contentType ≠ "") :
    headerValue (headerBlock p) = some p.contentType := by
  have hne : (utf8 p.contentType).isEmpty = false := by
    simpa [utf8_eq_nil] using h
  have hpre : CONTENT_TYPE_HEADER_PREFIX.isPrefixOf (headerBlock p) = true :=
    List.isPrefixOf_iff_prefix.mpr (prefix_append ..)
  have hdrop : (headerBlock p).drop CONTENT_TYPE_HEADER_PREFIX.length = utf8 p.contentType :=
    drop_left ..
  simp only [headerValue, if_pos hpre, hdrop, hne, Bool.false_eq_true, if_false, fromUtf8_utf8]

theorem headerBlock_eq {block value} (h : headerValue block = some value) :
    block = headerBlock ⟨value, []⟩ ∧ value ≠ "" := by
  unfold headerValue at h
  dsimp only at h
  split at h
  · rename_i hp
    obtain ⟨v, rfl⟩ := List.isPrefixOf_iff_prefix.mp hp
    split at h
    · cases h
    rename_i hne
    have hv := fromUtf8_eq_some.mp h
    subst hv
    exact ⟨rfl, by simpa [utf8_eq_nil] using hne⟩
  · cases h

theorem headerBlock_not_crlf (p : Part) (tail : List UInt8) : ¬ CRLF <+: headerBlock p ++ tail := by
  rintro ⟨t, ht⟩
  have h : CONTENT_TYPE_HEADER_PREFIX = 0x63 :: utf8 "ontent-type: " := by decide
  rw [headerBlock, h] at ht
  simp [CRLF] at ht

variable {f : RequestFraming}

/-- The header block of a framable part is read whole. -/
theorem headersMove_headerBlock (h : Framable f p)
    (tail : List UInt8) : headersMove (headerBlock p ++ (CRLF ++ CRLF) ++ tail) =
      .go [.partContentType p.contentType] .payload tail := by
  have hcrlf : (CRLF ++ CRLF).length = 4 := rfl
  have hpos : position (CRLF ++ CRLF) ((headerBlock p ++ (CRLF ++ CRLF) ++ tail).take
      FRAMING_WINDOW_BYTES) = some (headerBlock p).length :=
    position_take (position_append h.blankLine tail) (by rw [hcrlf]; exact h.fits)
  rw [append_assoc] at hpos
  unfold headersMove
  rw [append_assoc, if_neg (headerBlock_not_crlf p _), hpos]
  simp only [take_left, headerValue_headerBlock h.nonempty]
  rw [← append_assoc, drop_left' (by rw [length_append, hcrlf])]

theorem frame_headers (h : Framable f p) (tail : List UInt8) :
    frame f .headers (headerBlock p ++ (CRLF ++ CRLF) ++ tail) =
      (.partContentType p.contentType :: (frame f .payload tail).1, (frame f .payload tail).2) := by
  rw [frame_go (s := .headers) (headersMove_headerBlock h tail)]
  rfl

theorem frame_payload (h : Framable f p) (tail : List UInt8) :
    frame f .payload (p.payload ++ f.payloadDelimiter ++ tail) =
      (.payload p.payload :: (frame f .afterBoundary tail).1, (frame f .afterBoundary tail).2) := by
  rw [frame_payload_some (position_append h.delimiter tail),
    drop_left' (length_append ..), append_assoc, take_left]

/-- The end of a body after its last delimiter line. -/
theorem frame_closing (f : RequestFraming) :
    frame f .afterBoundary (utf8 "--" ++ CRLF) = ([.partEnded, .endOfParts], .ok ()) := by
  have h1 : move f (utf8 "--" ++ CRLF) .afterBoundary = .go [] .closingPart CRLF := by
    have : (utf8 "--" ++ CRLF).drop 2 = CRLF := by decide
    simp only [move, afterBoundaryMove]
    rw [if_neg (by decide), if_pos (prefix_append ..), this]
  have h2 : move f CRLF .afterClose = .go [.endOfParts] .done [] := rfl
  rw [frame_go h1, frame_go (s := .closingPart) rfl, frame_go h2,
    frame_finished (s := .done) rfl]
  rfl

theorem frame_nextPart (f : RequestFraming) (tail : List UInt8) :
    frame f .afterBoundary (CRLF ++ tail) =
      (.partEnded :: .partStarted :: (frame f .headers tail).1, (frame f .headers tail).2) := by
  have h1 : move f (CRLF ++ tail) .afterBoundary = .go [.partEnded] .nextPartOpening tail := by
    have hdash : utf8 "--" = [0x2d, 0x2d] := by decide
    simp only [move, afterBoundaryMove]
    rfl
  rw [frame_go h1, frame_go (s := .nextPartOpening) rfl]
  rfl

theorem frame_afterBoundary {parts} (h : ∀ p ∈ parts, Framable f p) :
    frame f .afterBoundary (afterBoundary f parts) =
      (.partEnded :: bodyEvents parts, .ok ()) := by
  induction parts with
  | nil => exact frame_closing f
  | cons p ps ih =>
    have hp := h p (by simp)
    rw [afterBoundary, frame_nextPart, frame_headers hp, frame_payload hp,
      ih fun q hq => h q (by simp [hq])]
    rfl

theorem frame_opening (f : RequestFraming) (tail : List UInt8) :
    frame f .opening (f.dashBoundary ++ (CRLF ++ tail)) =
      (.partStarted :: (frame f .headers tail).1, (frame f .headers tail).2) := by
  have h1 : move f (f.dashBoundary ++ (CRLF ++ tail)) .opening =
      .go [.partStarted] .headers tail := by
    simp only [move, openingMove]
    rw [if_neg (not_not.mpr (prefix_append ..)), if_neg (by simp [CRLF]), drop_left,
      if_neg (not_not.mpr (prefix_append ..)), ← append_assoc,
      drop_left' (by simp [CRLF])]
  rw [frame_go h1]
  rfl

/-- **A framed body is read back as its parts.** -/
theorem frame_framedBody {parts} (hne : parts ≠ []) (h : ∀ p ∈ parts, Framable f p) :
    frame f .opening (framedBody f parts) = (bodyEvents parts, .ok ()) := by
  cases parts with
  | nil => exact absurd rfl hne
  | cons p ps =>
    have hp := h p (by simp)
    rw [framedBody_eq, afterBoundary, frame_opening, frame_headers hp, frame_payload hp,
      frame_afterBoundary fun q hq => h q (by simp [hq])]
    rfl

/-! ## What an accepted body is made of -/

variable {evs : List FramingEvent} {stage : Stage}

/-- A body ends behind its last delimiter line. -/
theorem move_finished {rest} (h : move f rest stage = .finished) : stage = .done ∧ rest = [] := by
  cases stage
  case done =>
    refine ⟨rfl, by_contra fun hne => ?_⟩
    rw [move, if_neg hne] at h
    cases h
  all_goals
    simp only [move, openingMove, headersMove, payloadMove, afterBoundaryMove, afterCloseMove] at h
    repeat' split at h
    all_goals cases h

theorem frame_ok {rest} (h : frame f stage rest = (evs, .ok ())) :
    (stage = .done ∧ rest = [] ∧ evs = []) ∨
    ∃ evs₁ stage' rest' evs₂, move f rest stage = .go evs₁ stage' rest' ∧ evs = evs₁ ++ evs₂ ∧
      frame f stage' rest' = (evs₂, .ok ()) := by
  cases hm : move f rest stage with
  | fail evs' e => rw [frame_fail hm] at h; cases h
  | finished =>
    obtain ⟨rfl, rfl⟩ := move_finished hm
    rw [frame_finished hm] at h
    cases h
    exact .inl ⟨rfl, rfl, rfl⟩
  | go evs₁ stage' rest' =>
    rw [frame_go hm] at h
    obtain ⟨h1, h2⟩ := Prod.mk.inj h
    exact .inr ⟨evs₁, stage', rest', _, rfl, h1.symm, Prod.ext rfl h2⟩

/-- What stands around a found occurrence, with the pattern first at the cut. -/
theorem found_split {pat l : List UInt8} {found} (h : position pat l = some found) :
    ∃ run, run.length = found ∧ l = run ++ pat ++ l.drop (found + pat.length) ∧
      l.take found = run ∧ position pat (run ++ pat) = some run.length := by
  have hb := position_bound h
  have hlen : (l.take found).length = found := by rw [length_take]; omega
  have hsplit := position_split h
  refine ⟨l.take found, hlen, hsplit, rfl, ?_⟩
  have htake : l.take (found + pat.length) = l.take found ++ pat := by
    conv_lhs => rw [hsplit]
    rw [take_append_of_le_length (by simp only [length_append, hlen]; omega),
      take_of_length_le (by simp only [length_append, hlen]; omega)]
  rw [← htake, position_take h le_rfl, hlen]

theorem openingMove_go {rest rest'} (h : openingMove f rest = .go evs stage rest') :
    evs = [.partStarted] ∧ stage = .headers ∧ rest = f.dashBoundary ++ (CRLF ++ rest') := by
  unfold openingMove at h
  split at h
  · cases h
  split at h
  · cases h
  split at h
  · cases h
  rename_i h1 _ h3
  cases h
  obtain ⟨t, rfl⟩ := not_not.mp h1
  rw [drop_left] at h3
  obtain ⟨u, rfl⟩ := not_not.mp h3
  refine ⟨rfl, rfl, ?_⟩
  rw [← append_assoc, drop_left' (by simp [CRLF]), append_assoc]

theorem headersMove_go {rest rest'} (h : headersMove rest = .go evs stage rest') :
    ∃ value, evs = [.partContentType value] ∧ stage = .payload ∧ value ≠ "" ∧
      rest = headerBlock ⟨value, []⟩ ++ (CRLF ++ CRLF) ++ rest' ∧
      position (CRLF ++ CRLF) (headerBlock ⟨value, []⟩ ++ (CRLF ++ CRLF)) =
        some (headerBlock ⟨value, []⟩).length ∧
      (headerBlock ⟨value, []⟩).length + 4 ≤ FRAMING_WINDOW_BYTES := by
  unfold headersMove at h
  split at h
  · cases h
  split at h
  · split at h <;> cases h
  rename_i found hfound
  split at h
  · cases h
  rename_i value hv
  cases h
  have hb := position_bound hfound
  obtain ⟨run, hlen, hrest, htake, hpos⟩ := found_split (position_of_take hfound)
  rw [htake] at hv
  obtain ⟨rfl, hne⟩ := headerBlock_eq hv
  have hcrlf : (CRLF ++ CRLF).length = 4 := rfl
  rw [length_take] at hb
  exact ⟨value, rfl, rfl, hne, hrest, hpos, by omega⟩

theorem afterBoundaryMove_go {rest rest'} (h : afterBoundaryMove rest = .go evs stage rest') :
    (evs = [] ∧ stage = .closingPart ∧ rest = utf8 "--" ++ rest') ∨
    (evs = [.partEnded] ∧ stage = .nextPartOpening ∧ rest = CRLF ++ rest') := by
  have hdash : (utf8 "--").length = 2 := by decide
  unfold afterBoundaryMove at h
  split at h
  · cases h
  split at h
  · rename_i hp
    cases h
    obtain ⟨t, rfl⟩ := hp
    exact .inl ⟨rfl, rfl, by rw [drop_left' hdash]⟩
  split at h
  · rename_i hp
    cases h
    obtain ⟨t, rfl⟩ := hp
    exact .inr ⟨rfl, rfl, rfl⟩
  · cases h

theorem frame_done_ok {rest} (h : frame f .done rest = (evs, .ok ())) : rest = [] ∧ evs = [] := by
  obtain ⟨-, hend⟩ | ⟨_, _, _, _, hm, -⟩ := frame_ok h
  · exact hend
  · simp only [move] at hm
    split at hm <;> cases hm

theorem frame_afterClose_ok {rest} (h : frame f .afterClose rest = (evs, .ok ())) :
    rest = CRLF ∧ evs = [.endOfParts] := by
  obtain ⟨⟨⟩, -⟩ | ⟨evs1, stage', rest', evs2, hm, rfl, h'⟩ := frame_ok h
  simp only [move, afterCloseMove] at hm
  split at hm
  · cases hm
  split at hm
  · rename_i hp
    cases hm
    obtain ⟨t, rfl⟩ := hp
    obtain ⟨h1, rfl⟩ := frame_done_ok h'
    change t = [] at h1
    exact ⟨by rw [h1, append_nil], rfl⟩
  · cases hm

/-- From a header block on: one part, then what follows its delimiter. -/
theorem frame_headers_ok {rest} (h : frame f .headers rest = (evs, .ok ())) :
    ∃ p tail evs', Framable f p ∧
      rest = headerBlock p ++ (CRLF ++ CRLF) ++ (p.payload ++ f.payloadDelimiter ++ tail) ∧
      evs = .partContentType p.contentType :: .payload p.payload :: evs' ∧
      frame f .afterBoundary tail = (evs', .ok ()) := by
  obtain ⟨⟨⟩, -⟩ | ⟨evs1, stage', rest', evs2, hm, rfl, h'⟩ := frame_ok h
  obtain ⟨value, rfl, rfl, hne, rfl, hblank, hfits⟩ := headersMove_go hm
  obtain ⟨⟨⟩, -⟩ | ⟨evs1, stage', tail, evs', hm, rfl, h''⟩ := frame_ok h'
  simp only [move, payloadMove] at hm
  split at hm
  · rename_i found hfound
    cases hm
    obtain ⟨run, -, hrest, htake, hdelim⟩ := found_split hfound
    rw [htake]
    exact ⟨⟨value, run⟩, _, evs', ⟨hne, hblank, hfits, hdelim⟩, congrArg _ hrest, rfl, h''⟩
  · split at hm <;> cases hm

theorem frame_afterBoundary_ok {rest} (h : frame f .afterBoundary rest = (evs, .ok ())) :
    ∃ parts, (∀ p ∈ parts, Framable f p) ∧ rest = afterBoundary f parts ∧
      evs = .partEnded :: bodyEvents parts := by
  induction hn : rest.length using Nat.strongRecOn generalizing rest evs with
  | ind n ih =>
    obtain ⟨⟨⟩, -⟩ | ⟨evs1, stage', rest', evs2, hm, rfl, h'⟩ := frame_ok h
    obtain ⟨rfl, rfl, rfl⟩ | ⟨rfl, rfl, rfl⟩ := afterBoundaryMove_go hm
    · obtain ⟨⟨⟩, -⟩ | ⟨_, _, _, evs3, ⟨⟩, rfl, h''⟩ := frame_ok h'
      obtain ⟨rfl, rfl⟩ := frame_afterClose_ok h''
      exact ⟨[], by simp, rfl, rfl⟩
    obtain ⟨⟨⟩, -⟩ | ⟨_, _, _, evs3, ⟨⟩, rfl, h''⟩ := frame_ok h'
    obtain ⟨p, tail, evs', hp, rfl, rfl, h4⟩ := frame_headers_ok h''
    obtain ⟨parts, hparts, rfl, rfl⟩ := ih tail.length
      (by rw [← hn]; simp only [length_append, CRLF, length_cons]; omega) h4 rfl
    exact ⟨p :: parts, forall_mem_cons.mpr ⟨hp, hparts⟩, rfl, rfl⟩

/-- **A body whose framing succeeds is a framed body**, and its items are those of its parts. -/
theorem framedBody_of_frame {body} (h : frame f .opening body = (evs, .ok ())) :
    ∃ parts, parts ≠ [] ∧ (∀ p ∈ parts, Framable f p) ∧ body = framedBody f parts ∧
      evs = bodyEvents parts := by
  obtain ⟨⟨⟩, -⟩ | ⟨evs1, stage', rest', evs2, hm, rfl, h'⟩ := frame_ok h
  obtain ⟨rfl, rfl, rfl⟩ := openingMove_go hm
  obtain ⟨p, tail, evs', hp, rfl, rfl, h4⟩ := frame_headers_ok h'
  obtain ⟨parts, hparts, rfl, rfl⟩ := frame_afterBoundary_ok h4
  exact ⟨p :: parts, by simp, forall_mem_cons.mpr ⟨hp, hparts⟩, by rw [framedBody_eq]; rfl, rfl⟩

end AgentArchivist.Server.FramedBody
