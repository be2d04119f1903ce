import Mathlib.Order.Basic

/-! # Loops that are left with a result

A loop is its body: a turn leaves it with a result or goes on with a new state. `turns`
runs it on a number of turns, and says how many it made; a loop whose turns lower a
bound is left within that many turns and one more (`exists_leave`). -/
namespace AgentArchivist.Lib.Loop

variable {σ ρ : Type}

inductive Turn (σ ρ : Type) where
  | leave (result : ρ)
  | again (state : σ)

/-- At most `fuel` turns: how many were made, and the result. -/
def turns (body : σ → Turn σ ρ) : Nat → σ → Option (Nat × ρ)
  | 0, _ => none
  | fuel + 1, s =>
    match body s with
    | .leave result => some (1, result)
    | .again s' => (turns body fuel s').map fun out => (out.1 + 1, out.2)

/-- The states a loop passes through, with the turns made before each. -/
inductive Reaches (body : σ → Turn σ ρ) : σ → Nat → σ → Prop
  | refl (s : σ) : Reaches body s 0 s
  | again {s s' s'' : σ} {n : Nat} : body s = .again s' → Reaches body s' n s'' →
      Reaches body s (n + 1) s''

variable {body : σ → Turn σ ρ} {s s' s'' : σ} {n : Nat}

theorem Reaches.snoc (h : Reaches body s n s') (hagain : body s' = .again s'') :
    Reaches body s (n + 1) s'' := by
  induction h with
  | refl s => exact .again hagain (.refl _)
  | again hbody _ ih => exact .again hbody (ih hagain)

/-- Enough fuel gives the result of the state in which the loop is left. -/
theorem Reaches.turns (h : Reaches body s n s') {result} (hleave : body s' = .leave result) {fuel}
    (hfuel : n < fuel) : turns body fuel s = some (n + 1, result) := by
  induction h generalizing fuel with
  | refl s =>
    cases fuel with
    | zero => exact absurd hfuel (Nat.not_lt_zero _)
    | succ fuel => simp only [Loop.turns, hleave, Nat.zero_add]
  | again hbody _ ih =>
    cases fuel with
    | zero => exact absurd hfuel (Nat.not_lt_zero _)
    | succ fuel => simp only [Loop.turns, hbody, ih hleave (Nat.lt_of_succ_lt_succ hfuel), Option.map]

/-- A loop whose turns keep an invariant and lower the bound in it is left. -/
theorem exists_leave {Inv : Nat → σ → Prop} {m}
    (hstep : ∀ m s s', Inv m s → body s = .again s' → ∃ m' < m, Inv m' s') (h : Inv m s) :
    ∃ n m' s' result, Reaches body s n s' ∧ Inv m' s' ∧ body s' = .leave result ∧ n + m' ≤ m := by
  induction m using Nat.strongRecOn generalizing s with
  | ind m ih =>
    cases hbody : body s with
    | leave result => exact ⟨0, m, s, result, .refl s, h, hbody, by omega⟩
    | again s1 =>
      obtain ⟨m1, hlt, h1⟩ := hstep m s s1 h hbody
      obtain ⟨n, m', s', result, hreach, h', hleave, hn⟩ := ih m1 hlt h1
      exact ⟨n + 1, m', s', result, .again hbody hreach, h', hleave, by omega⟩

/-- A loop is left in a state that has what the turns keep. -/
theorem leave_of_turns {Inv : σ → Prop} (hstep : ∀ s s', Inv s → body s = .again s' → Inv s')
    {fuel out} (hturns : turns body fuel s = some out) (h : Inv s) :
    ∃ s', Inv s' ∧ body s' = .leave out.2 := by
  induction fuel generalizing s out with
  | zero => cases hturns
  | succ fuel ih =>
    unfold turns at hturns
    split at hturns
    · rename_i hleave
      cases hturns
      exact ⟨s, h, hleave⟩
    · rename_i s' hagain
      obtain ⟨out', hturns', rfl⟩ := Option.map_eq_some_iff.mp hturns
      have hrest := ih hturns' (hstep s s' h hagain)
      exact hrest

end AgentArchivist.Lib.Loop
