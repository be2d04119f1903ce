import AgentArchivist.Lib.Proc

/-! # Operations that make calls, keep a state and may refuse

`wp m Q s t` says that the operation, begun at the state `s` after the calls `t`,
returns or refuses with `Q` of the outcome, the state and the calls by then, whatever
its calls are answered. One rule for each way to build an operation; what was written
before a refusal stays written. -/
namespace AgentArchivist.Lib.Calling
open Lib.Proc

variable {I : Interface} {ε σ α β : Type}

abbrev Operation (I : Interface) (ε σ : Type) := ExceptT ε (StateT σ (Proc I))

/-- A call of the operation. -/
def request (c : I.Call) : Operation I ε σ (I.Reply c) := fun s => .call c fun r => .pure (.ok r, s)

def wp (m : Operation I ε σ α) (Q : Except ε α → σ → Trace I → Prop) (s : σ) (t : Trace I) : Prop :=
  Safe (fun _ _ => True) (fun _ _ => True) (fun r t' => Q r.1 r.2 t') (m.run.run s) t

/-- A whole run of an operation. -/
def Performs (m : Operation I ε σ α) (s : σ) (t : Trace I) (r : Except ε α) (s' : σ)
    (t' : Trace I) : Prop := Runs (fun _ _ => True) (m.run.run s) t (r, s') t'

variable {m : Operation I ε σ α} {k : α → Operation I ε σ β} {s s' : σ} {t t' : Trace I}
  {Q : Except ε β → σ → Trace I → Prop}

variable {P : Except ε α → σ → Trace I → Prop}

theorem wp.performs (h : wp m P s t) {r} (hrun : Performs m s t r s' t') : P r s' t' :=
  Safe.runs (Q := fun (r : Except ε α × σ) t' => P r.1 r.2 t') h hrun

theorem wp.pure {a} (h : P (.ok a) s t) : wp (Pure.pure a : Operation I ε σ α) P s t := h

theorem wp.throw {e} (h : P (.error e) s t) :
    wp (MonadExcept.throw e : Operation I ε σ α) P s t := h

/-- What follows a part, and what its refusal leaves. -/
theorem wp.bind (h : wp m P s t) (hok : ∀ a s' t', P (.ok a) s' t' → wp (k a) Q s' t')
    (herror : ∀ e s' t', P (.error e) s' t' → Q (.error e) s' t') : wp (m >>= k) Q s t := by
  refine Safe.bind (Safe.mono h ?_)
  intro (r, s') t' hr
  cases r with
  | ok a => exact hok a s' t' hr
  | error e => exact herror e s' t' hr

theorem wp.bind_get {k : σ → Operation I ε σ β} (h : wp (k s) Q s t) :
    wp (get >>= k) Q s t := h

theorem wp.bind_modify {f : σ → σ} {k : PUnit → Operation I ε σ β} (h : wp (k ⟨⟩) Q (f s) t) :
    wp ((modify f : Operation I ε σ PUnit) >>= k) Q s t := h

theorem wp.modify {f : σ → σ} {P : Except ε PUnit → σ → Trace I → Prop} (h : P (.ok ⟨⟩) (f s) t) :
    wp (modify f : Operation I ε σ PUnit) P s t := h

theorem wp.bind_request {c} {k : I.Reply c → Operation I ε σ β}
    (h : ∀ r, wp (k r) Q s (t ++ [⟨c, r⟩])) : wp (request c >>= k) Q s t :=
  ⟨trivial, fun r _ => h r⟩

theorem wp.ofExcept {x} (h : P x s t) : wp (MonadExcept.ofExcept x : Operation I ε σ α) P s t := by
  cases x with
  | ok | error => exact h

/-- A check. -/
theorem wp.bind_ofExcept {x} (hok : ∀ a, x = .ok a → wp (k a) Q s t)
    (herror : ∀ e, x = .error e → Q (.error e) s t) : wp (MonadExcept.ofExcept x >>= k) Q s t :=
  wp.bind (wp.ofExcept (P := fun r s' t' => x = r ∧ s' = s ∧ t' = t) ⟨rfl, rfl, rfl⟩)
    (fun a _ _ ⟨hx, hs, ht⟩ => hs ▸ ht ▸ hok a hx) fun e _ _ ⟨hx, hs, ht⟩ => hs ▸ ht ▸ herror e hx

/-- A part that is done only where `c` holds. -/
theorem wp.when {c : Prop} [Decidable c] {m} {k : PUnit → Operation I ε σ β}
    (hdone : c → wp (m >>= k) Q s t) (h : ¬ c → wp (k ⟨⟩) Q s t) :
    wp (if c then (m >>= k) else k ⟨⟩) Q s t := by
  by_cases hc : c
  · rw [if_pos hc]
    exact hdone hc
  · rw [if_neg hc]
    exact h hc

/-- A guard: refuse where `c` holds. -/
theorem wp.guard {c : Prop} [Decidable c] {e} {k : PUnit → Operation I ε σ β}
    (hrefused : c → Q (.error e) s t) (h : ¬ c → wp (k ⟨⟩) Q s t) :
    wp (if c then (MonadExcept.throw e >>= k) else k ⟨⟩) Q s t := wp.when hrefused h

/-! ## Runs -/

theorem runs_bind {p} {f : α → Proc I β} {b} (h : Runs (fun _ _ => True) (p >>= f) t b t') :
    ∃ a t₁, Runs (fun _ _ => True) p t a t₁ ∧ Runs (fun _ _ => True) (f a) t₁ b t' := by
  induction p generalizing t with
  | pure a => exact ⟨a, t, .refl _ _, h⟩
  | call c next ih =>
    cases h with
    | call hr hrest =>
      obtain ⟨a, t₁, hp, hf⟩ := ih _ hrest
      exact ⟨a, t₁, .call hr hp, hf⟩

/-- What returned was returned by what follows a part that returned. -/
theorem Performs.of_bind {b} (h : Performs (m >>= k) s t (.ok b) s' t') :
    ∃ a s₁ t₁, Performs m s t (.ok a) s₁ t₁ ∧ Performs (k a) s₁ t₁ (.ok b) s' t' := by
  obtain ⟨⟨r, s₁⟩, t₁, hm, hk⟩ := runs_bind h
  cases r with
  | ok a => exact ⟨a, s₁, t₁, hm, hk⟩
  | error e => cases hk

/-! ## Runs against fixed replies -/

/-- A program whose every call is answered by `reply`; none where a call is not. -/
def answered (reply : (c : I.Call) → Option (I.Reply c)) : Proc I α → Trace I → Option (α × Trace I)
  | .pure a, t => some (a, t)
  | .call c next, t => (reply c).bind fun r => answered reply (next r) (t ++ [⟨c, r⟩])

theorem runs_of_answered {reply : (c : I.Call) → Option (I.Reply c)} {p : Proc I α} {a : α}
    (h : answered reply p t = some (a, t')) : Runs (fun _ _ => True) p t a t' := by
  induction p generalizing t with
  | pure b =>
    cases h
    exact .refl _ _
  | call c next ih =>
    obtain ⟨r, -, hrest⟩ := Option.bind_eq_some_iff.mp h
    exact .call trivial (ih r hrest)

end AgentArchivist.Lib.Calling
