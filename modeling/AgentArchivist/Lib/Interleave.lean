import AgentArchivist.Lib.Proc
import Mathlib.Logic.Function.Basic

/-! # Programs side by side

Any number of programs share a state. A step is one call of one program, and its reply
and its effect are what the shared state's own relation allows; a program may stop for
ever at any point, which is the same as not being scheduled again. What is shown of
the programs one by one (`Safe`) and of the single calls holds of every interleaving. -/
namespace AgentArchivist.Lib.Interleave
open Lib.Proc

/-- Programs, and what a call may answer and do to the state that they share. -/
structure System (I : Interface) (ι σ α : Type) where
  program : ι → Proc I α
  start : σ
  serves : σ → Event I → σ → Prop

variable {I : Interface} {ι σ α : Type} [DecidableEq ι]

/-- The shared state, the calls that each program has made, and what is left of it. -/
structure World (I : Interface) (ι σ α : Type) where
  shared : σ
  made : ι → Trace I
  left : ι → Proc I α

def World.after (W : World I ι σ α) (i : ι) (e : Event I) (shared : σ) (rest : Proc I α) :
    World I ι σ α :=
  ⟨shared, Function.update W.made i (W.made i ++ [e]), Function.update W.left i rest⟩

inductive Step (S : System I ι σ α) (W : World I ι σ α) : World I ι σ α → Prop
  | call {i : ι} {c : I.Call} {next : I.Reply c → Proc I α} {r : I.Reply c} {shared : σ} :
      W.left i = .call c next → S.serves W.shared ⟨c, r⟩ shared →
      Step S W (W.after i ⟨c, r⟩ shared (next r))

inductive Reachable (S : System I ι σ α) : World I ι σ α → Prop
  | start : Reachable S ⟨S.start, fun _ => [], S.program⟩
  | step {W W' : World I ι σ α} : Reachable S W → Step S W W' → Reachable S W'

/-- Every reply is fine with a program; what may be answered is the system's business. -/
def Any (_ : Trace I) (_ : Event I) : Prop := True

/-- Programs that are safe one by one stay so, and keep what their preconditions let them keep. -/
theorem Reachable.safe {S} {pre : ι → Trace I → I.Call → Prop} {Q : ι → α → Trace I → Prop}
    {J : σ → (ι → Trace I) → Prop} (hsafe : ∀ i, Safe Any (pre i) (Q i) (S.program i) [])
    (hstart : J S.start fun _ => [])
    (hstep : ∀ shared made i e shared', J shared made → pre i (made i) e.call →
      S.serves shared e shared' → J shared' (Function.update made i (made i ++ [e]))) {W}
    (h : Reachable S W) :
    J W.shared W.made ∧ ∀ i, Safe Any (pre i) (Q i) (W.left i) (W.made i) := by
  induction h with
  | start => exact ⟨hstart, hsafe⟩
  | @step W W' _ hs ih =>
    obtain ⟨hJ, hleft⟩ := ih
    cases hs with
    | @call i c next r shared hcall hserves =>
      have hi := hleft i
      rw [hcall] at hi
      refine ⟨hstep _ _ i ⟨c, r⟩ _ hJ hi.1 hserves, fun j => ?_⟩
      by_cases hj : j = i
      · subst hj
        simpa [World.after] using hi.2 r trivial
      · simpa [World.after, hj] using hleft j

/-- What a program returned is right for the calls that it made. -/
theorem returned {pre : Trace I → I.Call → Prop} {Q : α → Trace I → Prop} {p t}
    (h : Safe Any pre Q p t) {a} (hp : p = .pure a) : Q a t := by
  subst hp
  exact h

end AgentArchivist.Lib.Interleave
