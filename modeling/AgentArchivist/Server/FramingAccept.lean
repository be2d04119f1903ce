import AgentArchivist.Server.FramingChunks

/-! # What the tokenizer accepts

A body that runs to its end is byte for byte the framing of the parts yielded.
Each payload is free of the delimiter. A content type is not always one line:
the header block ends at the first blank line, and a second header line before
it becomes part of the value (`pinned_iff`). -/
namespace AgentArchivist.Server.FramingAccept
open Lib
open Utf8 Search Source Framing FramingSpec FramedBody FramingRefine FramingChunks
open FramingTokenizer

variable {σ : Type} [ByteSource σ]

/-- The pinned framing: the items are those of parts that frame to the body, each with a
single-line content type and a payload without the delimiter. -/
def Pinned (f : RequestFraming) (body : List UInt8) (evs : List FramingEvent) : Prop :=
  ∃ parts, evs = bodyEvents parts ∧ body = framedBody f parts ∧
    ∀ p ∈ parts, p.contentType ≠ "" ∧ ¬ CRLF <:+: utf8 p.contentType ∧
      ¬ f.payloadDelimiter <:+: p.payload

/-- A framed body one of whose header blocks has a second line. -/
def SecondHeaderLine (f : RequestFraming) (body : List UInt8) : Prop :=
  ∃ parts, parts ≠ [] ∧ body = framedBody f parts ∧ (∀ p ∈ parts, Framable f p) ∧
    ∃ p ∈ parts, CRLF <:+: utf8 p.contentType

theorem bodyEvents_injective : Function.Injective bodyEvents := by
  intro a b h
  have h' := List.append_cancel_right h
  clear h
  induction a generalizing b with
  | nil =>
    cases b with
    | nil => rfl
    | cons q qs => simp [partEvents] at h'
  | cons p ps ih =>
    cases b with
    | nil => simp [partEvents] at h'
    | cons q qs =>
      simp only [List.flatMap_cons, partEvents, List.cons_append, List.nil_append, List.cons.injEq,
        FramingEvent.partContentType.injEq, FramingEvent.payload.injEq, true_and] at h'
      obtain ⟨h1, h2, h3⟩ := h'
      rw [ih h3]
      cases p
      cases q
      simp_all

/-- A run to the end is the framing of its body. -/
theorem frame_of_yields_ok {f body} {c : Chunking σ body} {evs}
    (h : Yields (new f c.source) evs (.ok ())) :
    frame f .opening body = (evs, .ok ()) ∧ ∀ part, ¬ CutAt (new f c.source) part := by
  have hcut : ∀ part, ¬ CutAt (new f c.source) part := by
    rintro part ⟨raw, t', hr, hc, -⟩
    obtain ⟨-, hout⟩ := h.unique (yields_of_cut hr hc)
    cases hout
  obtain ⟨h1, h2⟩ := h.unique (yields_of_not_cut hcut)
  exact ⟨Prod.ext h1.symm h2.symm, hcut⟩

/-- **Only the pinned framing is accepted, up to second header lines**: for every boundary, body and
chunking, what runs to the end is pinned if and only if the body has no header block of more than
one line, or the source cuts one and the body is refused. -/
theorem pinned_iff (f : RequestFraming) {body : List UInt8} (c : Chunking σ body) :
    (∀ evs, Yields (new f c.source) evs (.ok ()) → Pinned f body evs) ↔
      (SecondHeaderLine f body → ∃ part, CutAt (new f c.source) part) := by
  constructor
  · rintro hpin ⟨parts, hne, rfl, hall, p, hp, hcrlf⟩
    by_contra hcut
    have hy := yields_of_not_cut (c := c) fun part h => hcut ⟨part, h⟩
    rw [frame_framedBody hne hall] at hy
    obtain ⟨parts', hev, -, hall'⟩ := hpin _ hy
    rw [← bodyEvents_injective hev] at hall'
    exact (hall' p hp).2.1 hcrlf
  · intro hline evs hy
    obtain ⟨hframe, hcut⟩ := frame_of_yields_ok hy
    obtain ⟨parts, hne, hall, rfl, rfl⟩ := framedBody_of_frame hframe
    refine ⟨parts, rfl, rfl, fun p hp => ⟨(hall p hp).nonempty, ?_, ?_⟩⟩
    · intro hcrlf
      obtain ⟨part, hp'⟩ := hline ⟨parts, hne, rfl, hall, p, hp, hcrlf⟩
      exact hcut part hp'
    refine not_infix_of_position ?_ (hall p hp).delimiter
    intro hnil
    have := (window_bounds f).2.2
    rw [hnil] at this
    simp at this

/-- `content-type: x`, then `y: z`, then the blank line. -/
def twoLinePart : Part := ⟨"x\r\ny: z", []⟩

/-- A body with two header lines in a part runs to its end, and its content type is both lines. -/
theorem twoLinePart_accepted :
    Yields (new sampleFraming (slice (framedBody sampleFraming [twoLinePart])).source)
      (bodyEvents [twoLinePart]) (.ok ()) ∧
    ¬ Pinned sampleFraming (framedBody sampleFraming [twoLinePart]) (bodyEvents [twoLinePart]) := by
  constructor
  · refine ⟨bodyEvents [twoLinePart], ⟨6, ?_⟩, by decide⟩
    decide +kernel
  · rintro ⟨parts, hev, -, hall⟩
    rw [← bodyEvents_injective hev] at hall
    exact (hall twoLinePart (by simp)).2.1 (by decide)

end AgentArchivist.Server.FramingAccept
