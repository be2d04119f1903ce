import AgentArchivist.Server.TransportStage
import Mathlib.Logic.Relation

/-! # What a stage hands out

The limits, the order of the output and the last answer hold over any calls, whatever the source and
the codec do. A stage that has handed out its last chunk tells the codec the end once more; one that
then adds to its output makes small chunks that are not the last. -/
namespace AgentArchivist.Server.TransportBounds
open List Protocol.Vocabulary Relation
open Framing Transport Transport.TransportDecoder TransportStage TransportVerdict

variable {δ σ : Type} [ByteSource σ]

/-- Calls of `nextChunk` that handed out these chunks. -/
inductive Calls (codec : Codec δ) (d₀ : TransportDecoder δ σ) :
    List (List UInt8) → TransportDecoder δ σ → Prop
  | start : Calls codec d₀ [] d₀
  | chunk {handed chunk fuel} {d d' : TransportDecoder δ σ} : Calls codec d₀ handed d →
      d.nextChunk codec fuel = some (.ok (some chunk), d') → Calls codec d₀ (handed ++ [chunk]) d'

/-- A call that returned, whatever it answered. -/
def Returned (codec : Codec δ) (d d' : TransportDecoder δ σ) : Prop :=
  ∃ fuel answer, d.nextChunk codec fuel = some (answer, d')

/-- One step took the chunk to the target. -/
def Sized (codec : Codec δ) (chunk : List UInt8) : Prop :=
  TARGET_CHUNK_BYTES ≤ chunk.length ∧ ∃ before output decoder slice decoder', chunk = before ++ output ∧
    before.length < TARGET_CHUNK_BYTES ∧ feed codec decoder slice = (.ok output, decoder')

/-- Once it was told the end, the codec has nothing to add. -/
def Settles (codec : Codec δ) : Prop :=
  ∀ state p x output state', Ended codec state p x → codec.finish state = (.ok output, state') →
    output = []

variable {u : Setup δ σ} {codec : Codec δ} {d₀ d d' : TransportDecoder δ σ} {handed : List (List UInt8)}

theorem calls_stage (hstart : Stage u false [] [] d₀) (h : Calls u.codec d₀ handed d) :
    ∃ told p, Stage u told p handed.flatten d ∧ (told = false → ∀ chunk ∈ handed, Sized u.codec chunk) ∧
      (Settles u.codec → ∀ chunk ∈ handed.dropLast, Sized u.codec chunk) := by
  induction h with
  | start => exact ⟨false, [], hstart, fun _ => nofun, fun _ => nofun⟩
  | @chunk handed chunk fuel d d' _ hnext ih =>
    obtain ⟨told, p, hstage, hall, -⟩ := ih
    have hflatten : handed.flatten ++ chunk = (handed ++ [chunk]).flatten := by simp
    rw [dropLast_concat]
    cases nextChunk_handed hstage hnext with
    | @full p before slice output decoder _ htold hstage' _ hbefore hfull hfeed =>
      refine ⟨false, p, hflatten ▸ hstage', fun _ => ?_, fun _ => hall htold⟩
      exact forall_mem_append.mpr ⟨hall htold, forall_mem_singleton.mpr
        ⟨hfull, before, output, decoder, slice, _, rfl, hbefore, hfeed⟩⟩
    | @last p _ _ hstage' hne hagain =>
      refine ⟨true, p, hflatten ▸ hstage', nofun, fun hsettles => ?_⟩
      cases told with
      | false => exact hall rfl
      | true =>
        -- told the end again, it adds nothing
        obtain ⟨decoder, hmade, hflush⟩ := hagain rfl
        refine absurd ?_ hne
        generalize u.encoding = encoding at hmade
        cases hmade with
        | identity => exact (Except.ok.inj hflush).symm
        | ended hended => exact hsettles _ _ _ _ _ hended (Prod.ext hflush rfl)

/-- A stage that only repeats an answer. -/
def Over (d : TransportDecoder δ σ) : Except TransportDecodeError (Option (List UInt8)) → Prop
  | .error error => d.failure = some error
  | .ok none => d.failure = none ∧ d.drained = true
  | .ok (some _) => False

theorem Over.nextChunk {answer} (h : Over d answer) (fuel : Nat) :
    d.nextChunk codec fuel = some (answer, { d with chunk := [] }) := by
  obtain error | _ | _ := answer
  · simp [TransportDecoder.nextChunk, show d.failure = some error from h]
  · simp [TransportDecoder.nextChunk, h.1, h.2]
  · exact h.elim

theorem Over.stays {answer} (h : Over d answer) (hlater : ReflTransGen (Returned codec) d d') :
    Over d' answer ∧ d'.source = d.source := by
  induction hlater with
  | refl => exact ⟨h, rfl⟩
  | tail _ hreturned ih =>
    obtain ⟨fuel, answer', hnext⟩ := hreturned
    rw [ih.1.nextChunk] at hnext
    cases hnext
    exact ⟨by obtain _ | _ | _ := answer <;> exact ih.1, ih.2⟩

/-- A codec that passes its input on, and adds to it whenever it is told the end. -/
def appending (tail : List UInt8) : Codec Unit where
  new := some ()
  update _ slice := (.ok slice, ())
  finish _ := (.ok tail, ())

end AgentArchivist.Server.TransportBounds
