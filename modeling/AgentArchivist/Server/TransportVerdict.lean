import AgentArchivist.Server.FramingChunks
import AgentArchivist.Server.TransportStage

/-! # What the transport verdict depends on

A codec is taken as determined: its total output after a prefix of the input, and at the
input's end, is a function of that input. The limits are then enforced at the prefixes at
which the reads happen to end. Where a prefix is refused only as the whole body is
(`Steady`), every source of the body is answered alike. -/
namespace AgentArchivist.Server.TransportVerdict
open Lib List
open Source Protocol.Vocabulary Framing FramingChunks Transport Transport.TransportDecoder TransportStage

/-! ## Determined codecs -/

/-- The total output after a prefix of the input and at its end; none where it is refused. -/
structure Meaning where
  after : List UInt8 → Option (List UInt8)
  atEnd : List UInt8 → Option (List UInt8)

/-- The identity transport. -/
def Meaning.identity : Meaning := ⟨some, some⟩

/-- The total output is a function of the input. -/
structure Determined {δ : Type} (codec : Codec δ) (meaning : Meaning) : Prop where
  start : meaning.after [] = some []
  update : ∀ {state p x slice}, Fed codec state p x → slice ≠ [] →
    meaning.after (p ++ slice) = (codec.update state slice).1.toOption.map (x ++ ·)
  finish : ∀ {state p x}, Fed codec state p x →
    meaning.atEnd p = (codec.finish state).1.toOption.map (x ++ ·)
  again : ∀ {state p x}, Ended codec state p x →
    meaning.atEnd p = (codec.finish state).1.toOption.map (x ++ ·)

/-- What the stage makes of its input, by the encoding. -/
def meaningOf (meaning : Meaning) : TransportEncoding → Meaning
  | .identity => .identity
  | .zstd => meaning

/-! ## Verdicts on prefixes -/

inductive ErrorClass where
  | recordTooLarge
  | expansionRatioExceeded
  | malformedFrame
  | sourceRead (kind : ErrorKind)
  | codecSetup
deriving DecidableEq

def errorClass : TransportDecodeError → ErrorClass
  | .recordTooLarge _ _ => .recordTooLarge
  | .expansionRatioExceeded _ => .expansionRatioExceeded
  | .malformedFrame _ => .malformedFrame
  | .sourceRead kind => .sourceRead kind
  | .codecSetup => .codecSetup

/-- Whether an output is refused for an input of that length. -/
def refusal (limits : DecodeLimits) (transported : Nat) : Option (List UInt8) → Option ErrorClass
  | none => some .malformedFrame
  | some output =>
    match limits.enforce output.length transported with
    | .error error => some (errorClass error)
    | .ok () => none

/-- The verdict where a read ends behind the prefix. -/
def verdict (meaning : Meaning) (limits : DecodeLimits) (p : List UInt8) : Option ErrorClass :=
  refusal limits p.length (meaning.after p)

/-- The verdict at the end of the body. -/
def ending (meaning : Meaning) (limits : DecodeLimits) (body : List UInt8) : Option ErrorClass :=
  refusal limits body.length (meaning.atEnd body)

/-- A prefix is refused only as the whole body is. -/
def Steady (meaning : Meaning) (limits : DecodeLimits) (body : List UInt8) : Prop :=
  ∀ p, p <+: body → p ≠ [] → ∀ c, verdict meaning limits p = some c →
    verdict meaning limits body = some c

/-- The verdict on a steady body. -/
def settled (meaning : Meaning) (limits : DecodeLimits) (body : List UInt8) : Option ErrorClass :=
  if body ≠ [] ∧ (verdict meaning limits body).isSome then verdict meaning limits body
  else ending meaning limits body

/-- No prefix that is accepted fills a chunk. -/
def Small (meaning : Meaning) (limits : DecodeLimits) (body : List UInt8) : Prop :=
  ∀ p, p <+: body → p ≠ [] → verdict meaning limits p = none →
    ∀ x, meaning.after p = some x → x.length < TARGET_CHUNK_BYTES

/-- Whether a prefix was accepted that fills a chunk. -/
def Filled (meaning : Meaning) (limits : DecodeLimits) (body : List UInt8) : Prop :=
  ∃ p x, p <+: body ∧ p ≠ [] ∧ verdict meaning limits p = none ∧ meaning.after p = some x ∧
    TARGET_CHUNK_BYTES ≤ x.length

theorem refusal_error {limits : DecodeLimits} {output : List UInt8} {n error}
    (h : limits.enforce output.length n = .error error) :
    refusal limits n (some output) = some (errorClass error) := by
  simp [refusal, h]

theorem refusal_none {limits output} {n} :
    refusal limits n (some output) = none ↔ limits.enforce output.length n = .ok () := by
  cases h : limits.enforce output.length n with
  | ok | error => simp [refusal, h]

/-! ## A stage under a meaning -/

section
variable {δ σ : Type} [ByteSource σ] {codec : Codec δ} {meaning : Meaning} {limits : DecodeLimits}
  {body : List UInt8}

section
variable {encoding : TransportEncoding} {decoder : Option δ} {p x slice : List UInt8}
  (hdet : Determined codec meaning)
include hdet

theorem after_eq (h : Made codec encoding false decoder p x) :
    (meaningOf meaning encoding).after p = some x := by
  cases h with
  | identity => rfl
  | fed hfed =>
    cases hfed with
    | new _ => exact hdet.start
    | update hfed hne hupdate =>
      have hafter := hdet.update hfed hne
      rwa [hupdate] at hafter

theorem atEnd_eq (h : Made codec encoding true decoder p x) :
    (meaningOf meaning encoding).atEnd p = some x := by
  cases h with
  | identity => rfl
  | ended hended =>
    cases hended with
    | finish hfed hfinish =>
      have hend := hdet.finish hfed
      rwa [hfinish] at hend
    | again hended hfinish =>
      have hend := hdet.again hended
      rwa [hfinish] at hend

theorem after_feed (h : Made codec encoding false decoder p x) (hne : slice ≠ []) :
    (meaningOf meaning encoding).after (p ++ slice) =
      (feed codec decoder slice).1.toOption.map (x ++ ·) := by
  cases h with
  | identity => rfl
  | fed hfed => exact hdet.update hfed hne

theorem atEnd_flush {told} (h : Made codec encoding told decoder p x) :
    (meaningOf meaning encoding).atEnd p = (flush codec decoder).1.toOption.map (x ++ ·) := by
  cases h with
  | identity => exact congrArg some (append_nil p).symm
  | fed hfed => exact hdet.finish hfed
  | ended hended => exact hdet.again hended

end

theorem refusal_judged {x n answer error} (h : Judged limits x n answer error) :
    refusal limits n (answer.toOption.map (x ++ ·)) = some (errorClass error) := by
  obtain ⟨detail, rfl, rfl⟩ | ⟨output, rfl, henforce⟩ := h
  · rfl
  · exact refusal_error henforce

theorem delivers_pulled {s s' : σ} {slice} (h : Delivers s body)
    (hpull : PullSource.pull s FEED_SLICE_BYTES = (.ok slice, s')) :
    ∃ rest, body = slice ++ rest ∧ (slice = [] → rest = []) ∧ Delivers s' rest := by
  obtain ⟨slice', rest, s'', hpull', hbody⟩ := h.pull_eq (show 0 < FEED_SLICE_BYTES by decide)
  cases hpull.symm.trans hpull'
  exact ⟨rest, hbody⟩

/-- A delivering source hands out the rest of its body behind what was read. -/
theorem delivers_rest {s s' : σ} {p} (h : Pulls s p s') (hdelivers : Delivers s body) :
    ∃ rest, body = p ++ rest ∧ Delivers s' rest := by
  induction h with
  | start => exact ⟨body, rfl, hdelivers⟩
  | read _ hpull ih =>
    obtain ⟨rest, rfl, hrest⟩ := ih
    obtain ⟨rest', rfl, -, hrest'⟩ := delivers_pulled hrest hpull
    exact ⟨rest', (append_assoc ..).symm, hrest'⟩

/-! ## A whole drive -/

/-- How a drive may end. -/
def Outcome (meaning : Meaning) (limits : DecodeLimits) (body bytes : List UInt8) :
    Except TransportDecodeError (Nat × Nat) → Prop
  | .ok totals => meaning.atEnd body = some bytes ∧ totals = (bytes.length, body.length) ∧
    (body ≠ [] → verdict meaning limits body = none) ∧ ending meaning limits body = none
  | .error error => (bytes = [] ∨ Filled meaning limits body) ∧
    ((∃ p, p <+: body ∧ p ≠ [] ∧ verdict meaning limits p = some (errorClass error)) ∨
      (body ≠ [] → verdict meaning limits body = none) ∧
        ending meaning limits body = some (errorClass error))

section
variable {u : Setup δ σ} (hdet : Determined u.codec meaning) (hdelivers : Delivers u.source body)
  {told : Bool} {p x emitted : List UInt8} {d : TransportDecoder δ σ}
include hdet

theorem verdict_none (h : Stage u told p x d) :
    verdict (meaningOf meaning u.encoding) u.limits p = none := by
  obtain ⟨decoder, y, hmade, hwithin⟩ := h.accepted
  rw [verdict, after_eq hdet hmade]
  exact refusal_none.mpr hwithin

theorem ending_none (h : Stage u true p x d) :
    ending (meaningOf meaning u.encoding) u.limits p = none := by
  rw [ending, atEnd_eq hdet h.made]
  exact refusal_none.mpr h.within

include hdelivers

omit hdet in
theorem ended_body (h : Stage u told p x d) (hended : d.sourceEnded = true) : body = p := by
  obtain ⟨s, hpulls, hpull⟩ := h.ended hended
  obtain ⟨rest, rfl, hrest⟩ := delivers_rest hpulls hdelivers
  obtain ⟨rest', rfl, hlast, -⟩ := delivers_pulled hrest hpull
  rw [hlast rfl, append_nil]

/-- A failure is the verdict on a prefix, or on the whole body. -/
theorem fails_verdict (h : Stage u told p x d) {error} (hfails : Fails u p x d error) :
    (told = false ∧ ∃ p', p' <+: body ∧ p' ≠ [] ∧
      verdict (meaningOf meaning u.encoding) u.limits p' = some (errorClass error)) ∨
    (body ≠ [] → verdict (meaningOf meaning u.encoding) u.limits body = none) ∧
      ending (meaningOf meaning u.encoding) u.limits body = some (errorClass error) := by
  cases hfails with
  | source hpull =>
    obtain ⟨rest, -, hrest⟩ := delivers_rest h.read hdelivers
    obtain ⟨_, _, _, hpull', -⟩ := hrest.pull_eq (show 0 < FEED_SLICE_BYTES by decide)
    cases hpull.symm.trans hpull'
  | @slice slice s error hopen hpull hne hjudged =>
    obtain ⟨rest, hbody, -⟩ := delivers_rest (h.read.read hpull) hdelivers
    obtain rfl : told = false := Bool.eq_false_iff.mpr fun htold =>
      Bool.false_ne_true (hopen.symm.trans (h.closed htold))
    refine .inl ⟨rfl, p ++ slice, ⟨rest, hbody.symm⟩, fun hnil => hne (append_eq_nil_iff.mp hnil).2, ?_⟩
    rw [verdict, after_feed hdet h.made hne]
    exact refusal_judged hjudged
  | ending hended hjudged =>
    obtain rfl := ended_body hdelivers h hended
    refine .inr ⟨fun _ => verdict_none hdet h, ?_⟩
    rw [ending, atEnd_flush hdet h.made]
    exact refusal_judged hjudged

theorem drive_spec {fuel rounds : Nat} (hfuel : body.length + 2 ≤ fuel) (h : Stage u told p emitted d)
    (hemitted : told = true ∨ emitted = [] ∨ Filled (meaningOf meaning u.encoding) u.limits body)
    (hrounds : body.length + (if told then 1 else 2) ≤ p.length + rounds) :
    ∃ bytes r, drive u.codec fuel rounds d emitted = some (bytes, r) ∧
      Outcome (meaningOf meaning u.encoding) u.limits body bytes r := by
  have hleft : ∀ {s n slice} {s' : σ}, (∃ rest, Delivers s rest ∧ rest.length = n) →
      PullSource.pull s FEED_SLICE_BYTES = (.ok slice, s') →
      ∃ n', (∃ rest, Delivers s' rest ∧ rest.length = n') ∧ n' + slice.length ≤ n := by
    rintro s n slice s' ⟨rest, hrest, rfl⟩ hpull
    obtain ⟨rest', rfl, -, hrest'⟩ := delivers_pulled hrest hpull
    exact ⟨_, ⟨rest', hrest', rfl⟩, by rw [length_append, Nat.add_comm]⟩
  induction rounds generalizing told p emitted d with
  | zero =>
    obtain ⟨rest, rfl, -⟩ := delivers_rest h.read hdelivers
    rw [length_append] at hrounds
    split at hrounds <;> omega
  | succ rounds ih =>
    obtain ⟨rest, hbody, hrest⟩ := delivers_rest h.read hdelivers
    obtain ⟨r, hnext, hhanded⟩ := exists_nextChunk hleft h ⟨rest, hrest, rfl⟩
    have hlength : p.length + rest.length = body.length := by rw [hbody, length_append]
    rw [drive, hnext fuel (by omega)]
    cases hhanded with
    | @full p' before slice output decoder d' htold hstage hread hbefore hfull _ =>
      subst htold
      obtain ⟨rest', hbody', -⟩ := delivers_rest hstage.read hdelivers
      have hp' : p' ≠ [] := ne_nil_of_length_pos (by omega)
      refine ih hstage (.inr (.inr ⟨p', _, ⟨rest', hbody'.symm⟩, hp', verdict_none hdet hstage,
        after_eq hdet hstage.made, ?_⟩)) ?_
      · rw [length_append]
        omega
      · simp only [Bool.false_eq_true, if_false] at hrounds ⊢
        omega
    | @last p' chunk d' hstage hne hagain =>
      cases told with
      | true =>
        obtain ⟨decoder, hmade, hflush⟩ := hagain rfl
        have hend := atEnd_flush hdet hmade
        rw [hflush, atEnd_eq hdet hmade] at hend
        exact absurd (append_right_eq_self.mp (Option.some.inj hend).symm) hne
      | false =>
        obtain rfl := ended_body hdelivers hstage (hstage.closed rfl)
        refine ih hstage (.inl rfl) ?_
        simp only [Bool.false_eq_true, if_false, if_true] at hrounds ⊢
        omega
    | @drained p' d' hstage =>
      obtain rfl := ended_body hdelivers hstage (hstage.closed rfl)
      exact ⟨_, _, rfl, atEnd_eq hdet hstage.made, by rw [hstage.canonical, hstage.transport],
        fun _ => verdict_none hdet hstage, ending_none hdet hstage⟩
    | failed hstage hfails =>
      rcases fails_verdict hdet hdelivers hstage hfails with ⟨rfl, hrefused⟩ | hend
      · exact ⟨_, _, rfl, hemitted.resolve_left nofun, .inl hrefused⟩
      · refine ⟨_, _, rfl, hemitted.resolve_left fun htold => ?_, .inr hend⟩
        subst htold
        obtain rfl := ended_body hdelivers hstage (hstage.closed rfl)
        cases (ending_none hdet hstage).symm.trans hend.2

end

/-- A decode ends, in a way that the meaning allows; or the codec could not be set up. -/
theorem decode_spec (encoding : TransportEncoding) (limits : DecodeLimits) {s : σ}
    (hdet : Determined codec meaning) (hdelivers : Delivers s body) {fuel : Nat}
    (hfuel : 2 * body.length + 3 < fuel) :
    ∃ bytes r, decode codec encoding s limits fuel = some (bytes, r) ∧
      if encoding = .zstd ∧ codec.new = none then bytes = [] ∧ r = .error .codecSetup
      else Outcome (meaningOf meaning encoding) limits body bytes r := by
  unfold decode
  cases hnew : new codec encoding s limits with
  | error error =>
    cases encoding with
    | identity => cases hnew
    | zstd =>
      simp only [new] at hnew
      split at hnew
      · rename_i hnone
        cases hnew
        exact ⟨[], _, rfl, by simp [hnone]⟩
      · cases hnew
  | ok d =>
    have hrounds : body.length + (if false then 1 else 2) ≤ ([] : List UInt8).length + fuel := by
      simp
      omega
    obtain ⟨bytes, r, hdrive, hout⟩ := drive_spec (u := ⟨codec, encoding, limits, s⟩) hdet hdelivers
      (show _ ≤ fuel by omega) (stage_new hnew) (.inr (.inl rfl)) hrounds
    refine ⟨bytes, r, hdrive, ?_⟩
    rw [if_neg]
    · exact hout
    · rintro ⟨rfl, hnone⟩
      simp [new, hnone] at hnew

end

/-! ## Two sources -/

/-- The same totals, or the same class of error. -/
def Same : Except TransportDecodeError (Nat × Nat) → Except TransportDecodeError (Nat × Nat) → Prop
  | .ok totals, .ok totals' => totals = totals'
  | .error error, .error error' => errorClass error = errorClass error'
  | _, _ => False

/-- What was answered, where it is an error. -/
def answered : Except TransportDecodeError (Nat × Nat) → Option ErrorClass
  | .ok _ => none
  | .error error => some (errorClass error)

section
variable {meaning : Meaning} {limits : DecodeLimits} {body bytes bytes' : List UInt8}
  {r r' : Except TransportDecodeError (Nat × Nat)}

theorem settled_ending (h : body ≠ [] → verdict meaning limits body = none) :
    settled meaning limits body = ending meaning limits body := by
  refine if_neg fun ⟨hne, hsome⟩ => ?_
  rw [h hne] at hsome
  cases hsome

/-- A steady body is answered by the settled verdict. -/
theorem Outcome.settled (hsteady : Steady meaning limits body)
    (h : Outcome meaning limits body bytes r) : answered r = settled meaning limits body := by
  cases r with
  | ok totals =>
    obtain ⟨-, -, hbody, hending⟩ := h
    rw [settled_ending hbody, hending]
    rfl
  | error error =>
    rcases h.2 with ⟨p, hp, hne, hrefused⟩ | ⟨hbody, hending⟩
    · have hbody : body ≠ [] := by
        rintro rfl
        exact hne (prefix_nil.mp hp)
      have hverdict := hsteady p hp hne _ hrefused
      unfold TransportVerdict.settled
      rw [if_pos ⟨hbody, by rw [hverdict]; rfl⟩, hverdict]
      rfl
    · rw [settled_ending hbody, hending]
      rfl

theorem not_filled (hsmall : Small meaning limits body) : ¬ Filled meaning limits body := by
  intro ⟨p, x, hp, hne, hverdict, hafter, hle⟩
  have := hsmall p hp hne hverdict x hafter
  omega

theorem Outcome.same (hsteady : Steady meaning limits body)
    (hsmall : TransportVerdict.settled meaning limits body = none ∨ Small meaning limits body)
    (h : Outcome meaning limits body bytes r) (h' : Outcome meaning limits body bytes' r') :
    bytes = bytes' ∧ Same r r' := by
  have hr := h.settled hsteady
  have hr' := h'.settled hsteady
  have heq : answered r = answered r' := hr.trans hr'.symm
  cases r with
  | ok totals =>
    cases r' with
    | ok totals' =>
      obtain rfl := Option.some.inj (h.1.symm.trans h'.1)
      exact ⟨rfl, h.2.1.trans h'.2.1.symm⟩
    | error error' => cases heq
  | error error =>
    cases r' with
    | ok totals' => cases heq
    | error error' =>
      have hempty : ¬ Filled meaning limits body := by
        refine not_filled (hsmall.resolve_left fun hnone => ?_)
        rw [hnone] at hr
        cases hr
      rw [h.1.resolve_right hempty, h'.1.resolve_right hempty]
      exact ⟨rfl, Option.some.inj heq⟩

end

/-- The identity transport is steady, where the ratio allows a byte for a byte. -/
theorem steady_identity {limits} (hratio : 1 ≤ limits.maxExpansionRatio.toNat) (body : List UInt8) :
    Steady .identity limits body := by
  have hverdict : ∀ p, verdict .identity limits p =
      if p.length > limits.recordMaxBytes.toNat then some .recordTooLarge else none := by
    intro p
    have hwithin : ¬ p.length > limits.maxExpansionRatio.toNat * p.length :=
      Nat.not_lt.mpr (Nat.le_mul_of_pos_left _ hratio)
    simp only [verdict, Meaning.identity, refusal, DecodeLimits.enforce, if_neg hwithin]
    split <;> rename_i h <;> split at h <;> cases h <;> simp [errorClass, *]
  intro p hp _ c hc
  rw [hverdict] at hc ⊢
  split at hc
  · rw [if_pos (by have := hp.length_le; omega), hc]
  · cases hc

/-! ## A codec with a burst -/

/-- Three bytes for the first slice, and nothing for the others. -/
def burst : Codec Bool where
  new := some false
  update fed _ := (.ok (if fed then [] else [0, 0, 0]), true)
  finish fed := (.ok [], fed)

def burstMeaning : Meaning :=
  let output (p : List UInt8) : Option (List UInt8) := some (if p = [] then [] else [0, 0, 0])
  ⟨output, output⟩

theorem fed_burst {state p x} (h : Fed burst state p x) :
    (state = true ↔ p ≠ []) ∧ burstMeaning.after p = some x := by
  induction h with
  | new hnew =>
    cases hnew
    exact ⟨by simp, rfl⟩
  | @update state _ p x slice output _ hne hupdate ih =>
    cases hupdate
    obtain ⟨hstate, hx⟩ := ih
    have hnonempty : p ++ slice ≠ [] := fun h => hne (append_eq_nil_iff.mp h).2
    cases state with
    | false =>
      have hp : p = [] := by simpa using hstate
      subst hp
      cases hx
      simp [burstMeaning, hne]
    | true =>
      have hp : p ≠ [] := hstate.mp rfl
      simp [burstMeaning, hp, ← hx]

theorem determined_burst : Determined burst burstMeaning where
  start := rfl
  update hfed hne := by
    have hnext := fed_burst (hfed.update hne rfl)
    exact hnext.2
  finish hfed := by
    rw [show burstMeaning.atEnd = burstMeaning.after from rfl, (fed_burst hfed).2]
    simp [burst, Except.toOption]
  again hended := by
    have hout : ∀ {state p x}, Ended burst state p x → burstMeaning.after p = some x := by
      intro state p x h
      induction h with
      | finish hfed hfinish =>
        cases hfinish
        rw [append_nil]
        exact (fed_burst hfed).2
      | again _ hfinish ih =>
        cases hfinish
        rw [append_nil]
        exact ih
    rw [show burstMeaning.atEnd = burstMeaning.after from rfl, hout hended]
    simp [burst, Except.toOption]

/-- A body of which a prefix is refused only as the whole is, and which is accepted or too small to
fill a chunk, is answered alike however it is delivered. -/
theorem transport_verdict {δ σ τ : Type} [ByteSource σ] [ByteSource τ] (codec : Codec δ)
    (meaning : Meaning) (hdet : Determined codec meaning) (encoding : TransportEncoding)
    (limits : DecodeLimits) (body : List UInt8) (s : Chunking σ body) (t : Chunking τ body)
    (hsteady : Steady (meaningOf meaning encoding) limits body)
    (hsmall : settled (meaningOf meaning encoding) limits body = none ∨
      Small (meaningOf meaning encoding) limits body)
    (fuel : Nat) (hfuel : 2 * body.length + 3 < fuel) :
    ∃ bytes r r', decode codec encoding s.source limits fuel = some (bytes, r) ∧
      decode codec encoding t.source limits fuel = some (bytes, r') ∧ Same r r' := by
  obtain ⟨bytes, r, hdecode, hout⟩ := decode_spec encoding limits hdet s.delivers hfuel
  obtain ⟨bytes', r', hdecode', hout'⟩ := decode_spec encoding limits hdet t.delivers hfuel
  by_cases hsetup : encoding = .zstd ∧ codec.new = none
  · rw [if_pos hsetup] at hout hout'
    obtain ⟨rfl, rfl⟩ := hout
    obtain ⟨rfl, rfl⟩ := hout'
    exact ⟨_, _, _, hdecode, hdecode', rfl⟩
  · rw [if_neg hsetup] at hout hout'
    obtain ⟨rfl, hsame⟩ := hout.same hsteady hsmall hout'
    exact ⟨bytes, r, r', hdecode, hdecode', hsame⟩

/-- One body, delivered in one read and byte by byte: the first is complete, the second past the
ratio. -/
theorem same_body_two_verdicts :
    Determined burst burstMeaning ∧
    decode burst .zstd (paced [2] [1, 2, 3]).source ⟨100, 1⟩ 10 = some ([0, 0, 0], .ok (3, 3)) ∧
    decode burst .zstd (paced [0, 0, 0] [1, 2, 3]).source ⟨100, 1⟩ 10 =
      some ([], .error (.expansionRatioExceeded 1)) :=
  ⟨determined_burst, by decide +kernel, by decide +kernel⟩

/-- The same body without an encoding. -/
theorem identity_body_one_verdict : ∃ bytes r r',
    decode burst .identity (paced [2] [1, 2, 3]).source ⟨100, 1⟩ 10 = some (bytes, r) ∧
      decode burst .identity (paced [0, 0, 0] [1, 2, 3]).source ⟨100, 1⟩ 10 = some (bytes, r') ∧
      Same r r' :=
  transport_verdict burst burstMeaning determined_burst .identity ⟨100, 1⟩ [1, 2, 3]
    (paced [2] _) (paced [0, 0, 0] _) (steady_identity (by decide) _) (.inl (by decide)) 10 (by decide)

end AgentArchivist.Server.TransportVerdict
