import AgentArchivist.Server.Transport

/-! # What the transport stage does

Whatever the source and the codec do, a turn of the stage reads a slice and makes something of
it, or leaves the loop. `Stage` is what holds between two calls, with the bytes that were read and
what was made of them; `Handed` is how a call ends, and why where it fails. -/
namespace AgentArchivist.Server.TransportVerdict
open Transport

/-- The state of a codec after an input, with the output so far. -/
inductive Fed {δ : Type} (codec : Codec δ) : δ → List UInt8 → List UInt8 → Prop
  | new {state : δ} : codec.new = some state → Fed codec state [] []
  | update {state state' : δ} {p x slice output : List UInt8} : Fed codec state p x → slice ≠ [] →
      codec.update state slice = (.ok output, state') → Fed codec state' (p ++ slice) (x ++ output)

/-- The state of a codec after the end of its input. -/
inductive Ended {δ : Type} (codec : Codec δ) : δ → List UInt8 → List UInt8 → Prop
  | finish {state state' : δ} {p x output : List UInt8} : Fed codec state p x →
      codec.finish state = (.ok output, state') → Ended codec state' p (x ++ output)
  | again {state state' : δ} {p x output : List UInt8} : Ended codec state p x →
      codec.finish state = (.ok output, state') → Ended codec state' p (x ++ output)

end AgentArchivist.Server.TransportVerdict

namespace AgentArchivist.Server.TransportStage
open Lib List
open Loop Source Protocol.Vocabulary Framing Transport Transport.TransportDecoder TransportVerdict

section
variable {δ : Type} (codec : Codec δ)

/-- A slice goes through the codec, or past it. -/
def feed : Option δ → List UInt8 → Except String (List UInt8) × Option δ
  | none, slice => (.ok slice, none)
  | some state, slice => ((codec.update state slice).1, some (codec.update state slice).2)

/-- The codec, if there is one, is told the end. -/
def flush : Option δ → Except String (List UInt8) × Option δ
  | none => (.ok [], none)
  | some state => ((codec.finish state).1, some (codec.finish state).2)

/-- What was made of an input, before or after the codec was told its end. -/
inductive Made : TransportEncoding → Bool → Option δ → List UInt8 → List UInt8 → Prop
  | identity {told p} : Made .identity told none p p
  | fed {state p x} : Fed codec state p x → Made .zstd false (some state) p x
  | ended {state p x} : Ended codec state p x → Made .zstd true (some state) p x

variable {codec} {encoding : TransportEncoding} {told : Bool} {decoder decoder' : Option δ}
  {p x slice output : List UInt8}

theorem Made.plain (h : Made codec .identity told decoder p x) : x = p := by
  cases h
  rfl

theorem Made.feed (h : Made codec encoding false decoder p x) (hne : slice ≠ [])
    (hfeed : feed codec decoder slice = (.ok output, decoder')) :
    Made codec encoding false decoder' (p ++ slice) (x ++ output) := by
  cases h with
  | identity =>
    cases hfeed
    exact .identity
  | fed h =>
    obtain ⟨hupdate, rfl⟩ := Prod.mk.inj hfeed
    exact .fed (h.update hne (Prod.ext hupdate rfl))

theorem Made.flush (h : Made codec encoding told decoder p x)
    (hflush : flush codec decoder = (.ok output, decoder')) :
    Made codec encoding true decoder' p (x ++ output) := by
  cases h with
  | identity =>
    cases hflush
    rw [append_nil]
    exact .identity
  | fed h =>
    obtain ⟨hfinish, rfl⟩ := Prod.mk.inj hflush
    exact .ended (.finish h (Prod.ext hfinish rfl))
  | ended h =>
    obtain ⟨hfinish, rfl⟩ := Prod.mk.inj hflush
    exact .ended (.again h (Prod.ext hfinish rfl))

end

variable {δ σ : Type} [ByteSource σ]

/-- The bytes of some reads, in order. -/
inductive Pulls : σ → List UInt8 → σ → Prop
  | start (s : σ) : Pulls s [] s
  | read {s s' s'' : σ} {p slice : List UInt8} : Pulls s p s' →
      PullSource.pull s' FEED_SLICE_BYTES = (.ok slice, s'') → Pulls s (p ++ slice) s''

/-- What a stage is built from. -/
structure Setup (δ σ : Type) where
  codec : Codec δ
  encoding : TransportEncoding
  limits : DecodeLimits
  source : σ

theorem enforce_ok {limits : DecodeLimits} {canonical transport} :
    limits.enforce canonical transport = .ok () ↔ canonical ≤ limits.recordMaxBytes.toNat ∧
      canonical ≤ limits.maxExpansionRatio.toNat * transport := by
  unfold DecodeLimits.enforce
  split_ifs <;> simp <;> omega

/-- A stage that has read `p` and made `x` of it, and goes on. -/
structure Stage (u : Setup δ σ) (told : Bool) (p x : List UInt8) (d : TransportDecoder δ σ) : Prop where
  read : Pulls u.source p d.source
  made : Made u.codec u.encoding told d.decoder p x
  within : u.limits.enforce x.length p.length = .ok ()
  accepted : ∃ decoder y, Made u.codec u.encoding false decoder p y ∧
    u.limits.enforce y.length p.length = .ok ()
  limits : d.limits = u.limits
  transport : d.transportTotal = p.length
  canonical : d.canonicalTotal = x.length
  ended : d.sourceEnded = true → ∃ s, Pulls u.source p s ∧
    PullSource.pull s FEED_SLICE_BYTES = (.ok [], d.source)
  closed : told = true → d.sourceEnded = true
  drained : d.drained = false
  failure : d.failure = none

theorem stage_new {u : Setup δ σ} {d} (h : new u.codec u.encoding u.source u.limits = .ok d) :
    Stage u false [] [] d := by
  have hopened : ∀ decoder, Made u.codec u.encoding false decoder [] [] →
      Stage u false [] [] (opened u.encoding u.source u.limits decoder) := fun decoder hmade =>
    have hnothing : u.limits.enforce 0 0 = .ok () := by simp [DecodeLimits.enforce]
    ⟨.start _, hmade, hnothing, ⟨_, _, hmade, hnothing⟩, rfl, rfl, rfl, nofun, nofun, rfl, rfl⟩
  obtain ⟨codec, _ | _, limits, source⟩ := u
  · cases h
    exact hopened none .identity
  · simp only [new] at h
    split at h
    · cases h
    · rename_i state hstate
      cases h
      exact hopened (some state) (.fed (.new hstate))

/-- An answer of the codec is refused, after `x` and for an input of that length. -/
def Judged (limits : DecodeLimits) (x : List UInt8) (n : Nat) (answer : Except String (List UInt8))
    (error : TransportDecodeError) : Prop :=
  (∃ detail, answer = .error detail ∧ error = .malformedFrame detail) ∨
    ∃ output, answer = .ok output ∧ limits.enforce (x ++ output).length n = .error error

/-- Why a stage fails. -/
inductive Fails (u : Setup δ σ) (p x : List UInt8) (d : TransportDecoder δ σ) :
    TransportDecodeError → Prop
  | source {kind s} : PullSource.pull d.source FEED_SLICE_BYTES = (.error kind, s) →
      Fails u p x d (.sourceRead kind)
  | slice {slice s error} : d.sourceEnded = false →
      PullSource.pull d.source FEED_SLICE_BYTES = (.ok slice, s) → slice ≠ [] →
      Judged u.limits x (p ++ slice).length (feed u.codec d.decoder slice).1 error → Fails u p x d error
  | ending {error} : d.sourceEnded = true →
      Judged u.limits x p.length (flush u.codec d.decoder).1 error → Fails u p x d error

/-- How a call ends, of a stage that had read `p₀` and handed out `emitted`. -/
inductive Handed (u : Setup δ σ) (told : Bool) (p₀ emitted : List UInt8) :
    Except TransportDecodeError (Option (List UInt8)) × TransportDecoder δ σ → Prop
  | full {p before slice output decoder d} : told = false →
      Stage u false p (emitted ++ (before ++ output)) d → p₀.length < p.length → before.length < TARGET_CHUNK_BYTES →
      TARGET_CHUNK_BYTES ≤ (before ++ output).length →
      feed u.codec decoder slice = (.ok output, d.decoder) →
      Handed u told p₀ emitted (.ok (some (before ++ output)), d)
  | last {p chunk d} : Stage u true p (emitted ++ chunk) d → chunk ≠ [] →
      (told = true → ∃ decoder, Made u.codec u.encoding true decoder p emitted ∧
        (flush u.codec decoder).1 = .ok chunk) → Handed u told p₀ emitted (.ok (some chunk), d)
  | drained {p d} : Stage u true p emitted d → Handed u told p₀ emitted (.ok none, { d with drained := true })
  | failed {p x d d' error} : Stage u told p (emitted ++ x) d → Fails u p (emitted ++ x) d error →
      d'.failure = some error → Handed u told p₀ emitted (.error error, d')

theorem Handed.chunk {u : Setup δ σ} {told p₀ emitted chunk d}
    (h : Handed u told p₀ emitted (.ok (some chunk), d)) :
    chunk ≠ [] ∧ ∃ told p, Stage u told p (emitted ++ chunk) d := by
  cases h with
  | full _ hstage _ _ hfull => exact ⟨ne_nil_of_length_pos (Nat.lt_of_lt_of_le (by decide) hfull), _, _, hstage⟩
  | last hstage hne => exact ⟨hne, _, _, hstage⟩

/-- A stage inside a call: what was last made stands at the end of the chunk. -/
structure Turning (u : Setup δ σ) (told : Bool) (p₀ emitted p : List UInt8) (d : TransportDecoder δ σ) :
    Prop where
  stage : Stage u told p (emitted ++ d.chunk) d
  reads : p₀.length ≤ p.length
  step : d.chunk = [] ∨ told = false ∧ p₀.length < p.length ∧ ∃ decoder slice before output,
    d.chunk = before ++ output ∧ before.length < TARGET_CHUNK_BYTES ∧
      feed u.codec decoder slice = (.ok output, d.decoder)

variable {u : Setup δ σ} {told : Bool} {p₀ emitted p : List UInt8} {d d' : TransportDecoder δ σ}

omit [ByteSource σ] in
theorem decodeStep_eq (codec : Codec δ) (slice : List UInt8) : d.decodeStep codec slice =
    match feed codec d.decoder slice with
    | (.error detail, decoder) => (.error (.malformedFrame detail), { d with decoder })
    | (.ok output, decoder) => (.ok output.length, { d with decoder, chunk := d.chunk ++ output }) := by
  obtain ⟨_, _, _, _ | state, _⟩ := d
  · rfl
  · simp only [decodeStep, feed]
    rcases codec.update state slice with ⟨_ | _, _⟩ <;> rfl

omit [ByteSource σ] in
theorem finishChunk_eq (codec : Codec δ) (hwithin : d.enforceLimits = .ok ()) : d.finishChunk codec =
    match flush codec d.decoder with
    | (.error detail, decoder) => { d with decoder }.fail (.malformedFrame detail)
    | (.ok output, decoder) =>
      let d := { d with
        decoder
        chunk := d.chunk ++ output
        canonicalTotal := d.canonicalTotal + output.length }
      match d.enforceLimits with
      | .error error => d.fail error
      | .ok () => d.lastChunk := by
  obtain ⟨_, _, _, _ | state, _⟩ := d
  · simp only [finishChunk, flush, append_nil, length_nil, Nat.add_zero, hwithin]
  · simp only [finishChunk, flush]
    rcases codec.finish state with ⟨_ | _, _⟩ <;> rfl

/-- What an answer of the codec adds is counted. -/
theorem Stage.count (h : Stage u told p (emitted ++ d.chunk) d) (output : List UInt8) :
    d.canonicalTotal + output.length = (emitted ++ (d.chunk ++ output)).length := by
  simp only [h.canonical, length_append, Nat.add_assoc]

theorem lastChunk_handed (h : Stage u true p (emitted ++ d.chunk) d)
    (hagain : told = true → ∃ decoder, Made u.codec u.encoding true decoder p emitted ∧
      (flush u.codec decoder).1 = .ok d.chunk) : Handed u told p₀ emitted d.lastChunk := by
  unfold lastChunk
  split
  · rename_i hnil
    rw [hnil, append_nil] at h
    exact .drained h
  · exact .last h ‹_› hagain

/-- The end of the source. -/
theorem finishChunk_handed (h : Turning u told p₀ emitted p d) (hended : d.sourceEnded = true) :
    Handed u told p₀ emitted (d.finishChunk u.codec) := by
  have hstage := h.stage
  have hwithin : d.enforceLimits = .ok () := by
    rw [enforceLimits, hstage.limits, hstage.canonical, hstage.transport, hstage.within]
  rw [finishChunk_eq _ hwithin]
  rcases hflush : flush u.codec d.decoder with ⟨detail | output, decoder⟩
  · exact .failed hstage (.ending hended (.inl ⟨detail, by rw [hflush], rfl⟩)) rfl
  dsimp only [enforceLimits]
  rw [hstage.limits, hstage.count, hstage.transport]
  cases henforce : u.limits.enforce (emitted ++ (d.chunk ++ output)).length p.length with
  | error error =>
    rw [← append_assoc] at henforce
    exact .failed hstage (.ending hended (.inr ⟨output, by rw [hflush], henforce⟩)) rfl
  | ok =>
    have hmade := hstage.made.flush hflush
    rw [append_assoc] at hmade
    refine lastChunk_handed { hstage with
      made := hmade
      within := henforce
      limits := rfl
      transport := rfl
      canonical := rfl
      closed := fun _ => hended } fun htold => ⟨d.decoder, ?_⟩
    rcases h.step with hnil | ⟨hopen, -⟩
    · have hbefore := hstage.made
      rw [hnil, append_nil, htold] at hbefore
      exact ⟨hbefore, by rw [hflush, hnil, nil_append]⟩
    · cases hopen.symm.trans htold

/-- What one turn does. -/
theorem turn_stage (h : Turning u told p₀ emitted p d) :
    match d.turn u.codec with
    | .again d' => (∃ p', Turning u told p₀ emitted p' d') ∧ d.sourceEnded = false ∧
        ∃ slice, PullSource.pull d.source FEED_SLICE_BYTES = (.ok slice, d'.source) ∧
          (slice = [] → d'.sourceEnded = true)
    | .leave r => Handed u told p₀ emitted r := by
  have hstage := h.stage
  unfold turn
  by_cases hfull : d.chunk.length ≥ TARGET_CHUNK_BYTES
  · rw [if_pos hfull]
    rcases h.step with hnil | ⟨rfl, hread, decoder, slice, before, output, hchunk, hbefore, hfeed⟩
    · rw [hnil] at hfull
      exact absurd hfull (by decide)
    · rw [hchunk] at hfull hstage ⊢
      exact .full rfl hstage hread hbefore hfull hfeed
  rw [if_neg hfull]
  cases hended : d.sourceEnded with
  | true => exact finishChunk_handed h hended
  | false =>
    obtain rfl : told = false := Bool.eq_false_iff.mpr fun htold =>
      Bool.false_ne_true (hended.symm.trans (hstage.closed htold))
    rw [if_neg Bool.false_ne_true]
    rcases hpull : PullSource.pull d.source FEED_SLICE_BYTES with ⟨kind | slice, source⟩
    · exact .failed hstage (.source hpull) rfl
    have hread := hstage.read.read hpull
    dsimp only
    by_cases hnil : slice = []
    · subst hnil
      rw [append_nil] at hread
      rw [if_pos rfl]
      refine ⟨⟨p, { hstage with
        read := hread
        ended := fun _ => ⟨d.source, hstage.read, hpull⟩
        closed := nofun }, h.reads, h.step⟩, rfl, [], rfl, fun _ => rfl⟩
    rw [if_neg hnil, decodeStep_eq]
    rcases hfeed : feed u.codec d.decoder slice with ⟨detail | output, decoder⟩
    · exact .failed hstage (.slice hended hpull hnil (.inl ⟨detail, by rw [hfeed], rfl⟩)) rfl
    have htransport : d.transportTotal + slice.length = (p ++ slice).length := by
      rw [hstage.transport, length_append]
    dsimp only [enforceLimits]
    rw [hstage.limits, hstage.count, htransport]
    cases henforce : u.limits.enforce (emitted ++ (d.chunk ++ output)).length (p ++ slice).length with
    | error error =>
      rw [← append_assoc] at henforce
      exact .failed hstage (.slice hended hpull hnil (.inr ⟨output, by rw [hfeed], henforce⟩)) rfl
    | ok =>
      have hmade := hstage.made.feed hnil hfeed
      rw [append_assoc] at hmade
      have hreads : p₀.length < (p ++ slice).length := by
        have hpos := length_pos_iff.mpr hnil
        have hreads := h.reads
        rw [length_append]
        omega
      refine ⟨⟨p ++ slice, { hstage with
        read := hread
        made := hmade
        within := henforce
        accepted := ⟨_, _, hmade, henforce⟩
        limits := rfl
        transport := rfl
        canonical := rfl
        ended := nofun
        closed := nofun }, hreads.le, .inr ⟨rfl, hreads, d.decoder, slice, d.chunk, output, rfl,
          not_le.mp hfull, hfeed⟩⟩, rfl, slice, rfl, fun h => absurd h hnil⟩

theorem Stage.turning (h : Stage u told p emitted d) :
    Turning u told p emitted p { d with chunk := [] } where
  stage := by
    rw [append_nil]
    exact { h with }
  reads := le_refl _
  step := .inl rfl

/-- What a call hands out. -/
theorem nextChunk_handed (h : Stage u told p emitted d) {fuel r}
    (hnext : d.nextChunk u.codec fuel = some r) : Handed u told p emitted r := by
  rw [nextChunk_running _ h.failure h.drained] at hnext
  obtain ⟨out, hturns, rfl⟩ := Option.map_eq_some_iff.mp hnext
  have hstep (d d' : TransportDecoder δ σ) (hturning : ∃ p', Turning u told p emitted p' d)
      (hagain : d.turn u.codec = .again d') : ∃ p', Turning u told p emitted p' d' := by
    obtain ⟨p', hturning⟩ := hturning
    have hturn := turn_stage hturning
    rw [hagain] at hturn
    exact hturn.1
  obtain ⟨d', ⟨p', hturning⟩, hleave⟩ := leave_of_turns hstep hturns ⟨p, h.turning⟩
  have hturn := turn_stage hturning
  rwa [hleave] at hturn

/-- A call returns, where the source has a bound. -/
theorem exists_nextChunk {Left : σ → Nat → Prop} (hleft : ∀ {s n slice s'}, Left s n →
      PullSource.pull s FEED_SLICE_BYTES = (.ok slice, s') → ∃ n', Left s' n' ∧ n' + slice.length ≤ n)
    (h : Stage u told p emitted d) {n} (hn : Left d.source n) :
    ∃ r, (∀ fuel, n + 2 ≤ fuel → d.nextChunk u.codec fuel = some r) ∧ Handed u told p emitted r := by
  have hstep (m : Nat) (d d' : TransportDecoder δ σ) : (∃ p' n, Turning u told p emitted p' d ∧
        Left d.source n ∧ n + (if d.sourceEnded then 0 else 1) = m) → d.turn u.codec = .again d' →
      ∃ m' < m, ∃ p' n, Turning u told p emitted p' d' ∧ Left d'.source n ∧
        n + (if d'.sourceEnded then 0 else 1) = m' := by
    rintro ⟨p', n, hturning, hn, rfl⟩ hagain
    have hturn := turn_stage hturning
    rw [hagain] at hturn
    obtain ⟨⟨p'', hturning'⟩, hopen, slice, hpull, hend⟩ := hturn
    obtain ⟨n', hn', hle⟩ := hleft hn hpull
    refine ⟨_, ?_, p'', n', hturning', hn', rfl⟩
    rw [hopen]
    by_cases hnil : slice = []
    · simp [hend hnil]
      omega
    · have := length_pos_iff.mpr hnil
      split <;> simp <;> omega
  obtain ⟨k, m, d', r, hreach, -, hleave, hle⟩ := exists_leave hstep ⟨p, n, h.turning, hn, rfl⟩
  have hnext : ∀ fuel, n + 2 ≤ fuel → d.nextChunk u.codec fuel = some r := fun fuel hfuel => by
    have hk : k < fuel := by
      split at hle <;> omega
    rw [nextChunk_running _ h.failure h.drained, hreach.turns hleave hk]
    rfl
  exact ⟨r, hnext, nextChunk_handed h (hnext _ (le_refl _))⟩

end AgentArchivist.Server.TransportStage
