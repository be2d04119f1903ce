/-! # Operations that refuse without effect

An operation that may refuse, over a state that keeps what was written before the
refusal. `Atomic m s Q` says that `m`, run at `s`, either refuses and leaves `s`
as it was, or returns with `Q`; `Total m s Q` that it returns with `Q`. Reads and
checks come first (`Atomic.bind_read`), and once something was written nothing
refuses any more (`Atomic.bind_commit`). -/
namespace AgentArchivist.Lib.Atomic

variable {ε σ α β : Type} {s : σ}

def Atomic (m : ExceptT ε (StateM σ) α) (s : σ) (Q : α → σ → Prop) : Prop :=
  match m.run.run s with
  | (.ok a, s') => Q a s'
  | (.error _, s') => s' = s

def Total (m : ExceptT ε (StateM σ) α) (s : σ) (Q : α → σ → Prop) : Prop :=
  ∃ a s', m.run.run s = (.ok a, s') ∧ Q a s'

theorem run_bind_ok {m} {k : α → ExceptT ε (StateM σ) β} {a s'} (h : m.run.run s = (.ok a, s')) :
    (m >>= k).run.run s = (k a).run.run s' := by
  rw [ExceptT.run_bind, StateT.run_bind, h]
  rfl

theorem run_bind_error {m} {k : α → ExceptT ε (StateM σ) β} {e s'}
    (h : m.run.run s = (.error e, s')) : (m >>= k).run.run s = (.error e, s') := by
  rw [ExceptT.run_bind, StateT.run_bind, h]
  rfl

variable {m : ExceptT ε (StateM σ) α} {k : α → ExceptT ε (StateM σ) β} {Q : β → σ → Prop}

theorem Total.atomic {Q : α → σ → Prop} (h : Total m s Q) : Atomic m s Q := by
  obtain ⟨a, s', hrun, hq⟩ := h
  rw [Atomic, hrun]
  exact hq

theorem Total.bind (hm : Total m s fun a s' => Total (k a) s' Q) : Total (m >>= k) s Q := by
  obtain ⟨a, s', hrun, b, s'', hrun', hq⟩ := hm
  exact ⟨b, s'', by rw [run_bind_ok hrun, hrun'], hq⟩

theorem Total.pure {a} {Q : α → σ → Prop} (h : Q a s) :
    Total (Pure.pure a : ExceptT ε (StateM σ) α) s Q := ⟨a, s, rfl, h⟩

theorem Total.get {Q : σ → σ → Prop} (h : Q s s) : Total (get : ExceptT ε (StateM σ) σ) s Q :=
  ⟨s, s, rfl, h⟩

theorem Total.modify {f : σ → σ} {Q : PUnit → σ → Prop} (h : Q ⟨⟩ (f s)) :
    Total (modify f : ExceptT ε (StateM σ) PUnit) s Q := ⟨⟨⟩, f s, rfl, h⟩

/-- A step that only looks, and what follows it. -/
theorem Atomic.bind_read {P : α → Prop} (hm : Atomic m s fun a s' => s' = s ∧ P a)
    (hk : ∀ a, P a → Atomic (k a) s Q) : Atomic (m >>= k) s Q := by
  unfold Atomic at hm
  split at hm
  · rename_i a s' hrun
    obtain ⟨rfl, hp⟩ := hm
    rw [Atomic, run_bind_ok hrun]
    exact hk a hp
  · rename_i e s' hrun
    rw [Atomic, run_bind_error hrun]
    exact hm

/-- A step that writes where it does not refuse, and what follows it without refusing. -/
theorem Atomic.bind_commit {P : α → σ → Prop} (hm : Atomic m s P)
    (hk : ∀ a s', P a s' → Total (k a) s' Q) : Atomic (m >>= k) s Q := by
  unfold Atomic at hm
  split at hm
  · rename_i a s' hrun
    obtain ⟨b, s'', hrun', hq⟩ := hk a s' hm
    rw [Atomic, run_bind_ok hrun, hrun']
    exact hq
  · rename_i e s' hrun
    rw [Atomic, run_bind_error hrun]
    exact hm

theorem Atomic.throw {e} {Q : α → σ → Prop} :
    Atomic (MonadExcept.throw e : ExceptT ε (StateM σ) α) s Q := rfl

/-- A check of the arguments. -/
theorem Atomic.ofExcept {x} :
    Atomic (MonadExcept.ofExcept x : ExceptT ε (StateM σ) α) s fun a s' => s' = s ∧ x = .ok a := by
  cases x with
  | ok a => exact ⟨rfl, rfl⟩
  | error e => exact rfl

/-- A guard: refuse where `c` holds. -/
theorem Atomic.guard {c : Prop} [Decidable c] {e} {k : PUnit → ExceptT ε (StateM σ) β}
    (hk : ¬ c → Atomic (k ⟨⟩) s Q) :
    Atomic (if c then (MonadExcept.throw e >>= k) else k ⟨⟩) s Q := by
  by_cases hc : c
  · have hthrow : (MonadExcept.throw e : ExceptT ε (StateM σ) PUnit).run.run s = (.error e, s) := rfl
    rw [if_pos hc, Atomic, run_bind_error hthrow]
  · rw [if_neg hc]
    exact hk hc

end AgentArchivist.Lib.Atomic
