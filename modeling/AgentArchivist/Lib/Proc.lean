/-! # Programs that make calls

A program is a tree of calls, with one branch for every reply. `Safe` is its
logic: every call meets its precondition on the calls made before, and what the
program returns is right for all of them. A run makes the calls one by one
(`Steps`), each with a reply that its surroundings allow; what `Safe` promises
holds of every run, wherever it stops. -/
namespace AgentArchivist.Lib.Proc
open List

structure Interface where
  Call : Type
  Reply : Call → Type

inductive Proc (I : Interface) (α : Type) where
  | pure (a : α)
  | call (c : I.Call) (next : I.Reply c → Proc I α)

structure Event (I : Interface) where
  call : I.Call
  reply : I.Reply call

abbrev Trace (I : Interface) := List (Event I)

variable {I : Interface} {α β : Type}

def Proc.bind : Proc I α → (α → Proc I β) → Proc I β
  | .pure a, f => f a
  | .call c next, f => .call c fun r => (next r).bind f

instance : Monad (Proc I) where
  pure := .pure
  bind := .bind

instance : LawfulMonad (Proc I) := LawfulMonad.mk' _
  (fun p => by
    induction p with
    | pure a => rfl
    | call c next ih => exact congrArg (Proc.call c) (funext ih))
  (fun _ _ => rfl)
  (fun p f g => by
    induction p with
    | pure a => rfl
    | call c next ih => exact congrArg (Proc.call c) (funext ih))

/-- The program that makes one call and returns its reply. -/
def perform (c : I.Call) : Proc I (I.Reply c) := .call c .pure

/-- From the calls `t` on, every call of the program meets `pre` and its value meets `Q`. -/
def Safe (allowed : Trace I → Event I → Prop) (pre : Trace I → I.Call → Prop)
    (Q : α → Trace I → Prop) : Proc I α → Trace I → Prop
  | .pure a, t => Q a t
  | .call c next, t => pre t c ∧ ∀ r, allowed t ⟨c, r⟩ → Safe allowed pre Q (next r) (t ++ [⟨c, r⟩])

variable {allowed : Trace I → Event I → Prop} {pre : Trace I → I.Call → Prop}

section
variable {Q : α → Trace I → Prop} {R : β → Trace I → Prop} {t : Trace I}

variable {p : Proc I α}

theorem Safe.bind {f : α → Proc I β}
    (h : Safe allowed pre (fun a t => Safe allowed pre R (f a) t) p t) :
    Safe allowed pre R (p >>= f) t := by
  induction p generalizing t with
  | pure a => exact h
  | call c next ih => exact ⟨h.1, fun r hr => ih r (h.2 r hr)⟩

theorem Safe.call {c} {f : I.Reply c → Proc I β} (hpre : pre t c)
    (h : ∀ r, allowed t ⟨c, r⟩ → Safe allowed pre R (f r) (t ++ [⟨c, r⟩])) :
    Safe allowed pre R (perform c >>= f) t := ⟨hpre, h⟩

theorem Safe.mono {Q' : α → Trace I → Prop} (h : Safe allowed pre Q p t)
    (hq : ∀ a t', Q a t' → Q' a t') : Safe allowed pre Q' p t := by
  induction p generalizing t with
  | pure a => exact hq a t h
  | call c next ih => exact ⟨h.1, fun r hr => ih r (h.2 r hr)⟩

theorem Safe.weaken {pre' : Trace I → I.Call → Prop}
    (hpre : ∀ t c, pre t c → pre' t c) (h : Safe allowed pre Q p t) : Safe allowed pre' Q p t := by
  induction p generalizing t with
  | pure a => exact h
  | call c next ih => exact ⟨hpre t c h.1, fun r hr => ih r (h.2 r hr)⟩

theorem Safe.and {pre' : Trace I → I.Call → Prop} {Q' : α → Trace I → Prop}
    (h : Safe allowed pre Q p t) (h' : Safe allowed pre' Q' p t) :
    Safe allowed pre (fun a t' => Q a t' ∧ Q' a t') p t := by
  induction p generalizing t with
  | pure a => exact ⟨h, h'⟩
  | call c next ih => exact ⟨h.1, fun r hr => ih r (h.2 r hr) (h'.2 r hr)⟩

/-- What the calls of a program keep is there when it returns. -/
theorem Safe.keeps {P : Trace I → Prop}
    (hP : ∀ t c r, pre t c → P t → P (t ++ [⟨c, r⟩])) (h : Safe allowed pre Q p t) (ht : P t) :
    Safe allowed pre (fun a t' => Q a t' ∧ P t') p t := by
  induction p generalizing t with
  | pure a => exact ⟨h, ht⟩
  | call c next ih => exact ⟨h.1, fun r hr => ih r (h.2 r hr) (hP t c r h.1 ht)⟩

/-- A program is as safe as what is made of its value. -/
theorem Safe.of_map {f : α → β} (h : Safe allowed pre R (p >>= fun a => Pure.pure (f a)) t) :
    Safe allowed pre (fun a t' => R (f a) t') p t := by
  induction p generalizing t with
  | pure a => exact h
  | call c next ih => exact ⟨h.1, fun r hr => ih r (h.2 r hr)⟩

/-- What is known of the calls before stays known, where it only says what they hold, and helps
to meet the preconditions. -/
theorem Safe.frame {P : Trace I → Prop} (hP : ∀ t e, P t → P (t ++ [e]))
    (h : Safe allowed (fun t c => P t → pre t c) Q p t) (ht : P t) :
    Safe allowed pre (fun a t' => Q a t' ∧ P t') p t := by
  induction p generalizing t with
  | pure a => exact ⟨h, ht⟩
  | call c next ih => exact ⟨h.1 ht, fun r hr => ih r (h.2 r hr) (hP t _ ht)⟩

end

/-! ## Runs -/

/-- Some calls of a program: from the calls `t` and the program `p` on, to `t'` and what is
left of the program. -/
inductive Steps (allowed : Trace I → Event I → Prop) :
    Proc I α → Trace I → Proc I α → Trace I → Prop
  | refl (p : Proc I α) (t : Trace I) : Steps allowed p t p t
  | call {c : I.Call} {next : I.Reply c → Proc I α} {r : I.Reply c} {p : Proc I α}
      {t t' : Trace I} : allowed t ⟨c, r⟩ → Steps allowed (next r) (t ++ [⟨c, r⟩]) p t' →
      Steps allowed (.call c next) t p t'

/-- A whole run that returned. -/
def Runs (allowed : Trace I → Event I → Prop) (p : Proc I α) (t : Trace I) (a : α)
    (t' : Trace I) : Prop := Steps allowed p t (.pure a) t'

variable {Q : α → Trace I → Prop} {p p' : Proc I α} {t t' : Trace I}

theorem Steps.grows (h : Steps allowed p t p' t') : t <+: t' := by
  induction h with
  | refl p t => exact prefix_rfl
  | call _ _ ih => exact (prefix_append _ _).trans ih

theorem Runs.bind {f : α → Proc I β} {q a t''} (h : Runs allowed p t a t')
    (hf : Steps allowed (f a) t' q t'') : Steps allowed (p >>= f) t q t'' := by
  unfold Runs at h
  generalize hp : Proc.pure a = p' at h
  induction h with
  | refl p t =>
    subst hp
    exact hf
  | call hr _ ih => exact .call hr (ih hf hp)

/-- A safe program stays safe while it runs. -/
theorem Safe.steps (h : Safe allowed pre Q p t) (hrun : Steps allowed p t p' t') :
    Safe allowed pre Q p' t' := by
  induction hrun with
  | refl p t => exact h
  | call hr _ ih => exact ih (h.2 _ hr)

theorem Safe.runs {a} (h : Safe allowed pre Q p t) (hrun : Runs allowed p t a t') : Q a t' :=
  h.steps hrun

/-- Every call of a run was made by what was left of the program, with a reply that is allowed. -/
theorem Steps.at (hrun : Steps allowed p t p' t') {before after e}
    (heq : t' = before ++ e :: after) (hlen : t.length ≤ before.length) :
    allowed before e ∧ ∃ next, Steps allowed p t (.call e.call next) before := by
  induction hrun with
  | refl p t =>
    have := congrArg List.length heq
    rw [length_append, length_cons] at this
    omega
  | @call c next r p t t' hr hrest ih =>
    by_cases hlt : t.length < before.length
    · obtain ⟨hallowed, next', hsteps⟩ := ih heq (by
        rw [length_append, length_singleton]
        exact hlt)
      exact ⟨hallowed, next', .call hr hsteps⟩
    -- the first call of this run
    obtain ⟨rest, hgrows⟩ := hrest.grows
    rw [← hgrows, append_assoc] at heq
    obtain ⟨rfl, hcons⟩ := append_inj heq (by omega)
    cases hcons
    exact ⟨hr, next, .refl _ _⟩

/-- Every call of a run met its precondition when it was made. -/
theorem Safe.calls (h : Safe allowed pre Q p t) (hrun : Steps allowed p t p' t') {before after e}
    (heq : t' = before ++ e :: after) (hlen : t.length ≤ before.length) : pre before e.call := by
  obtain ⟨-, next, hsteps⟩ := hrun.at heq hlen
  exact (h.steps hsteps).1

theorem Safe.made {a} (h : Safe allowed pre Q p t) (hrun : Runs allowed p t a t') :
    Q a t' ∧ ∀ before e after, t' = before ++ e :: after → t.length ≤ before.length →
      pre before e.call := ⟨h.runs hrun, fun _ _ _ => h.calls hrun⟩

/-! ## Runs against a function -/

/-- The run whose every call is answered from the calls before. -/
def played (reply : Trace I → (c : I.Call) → I.Reply c) : Proc I α → Trace I → α × Trace I
  | .pure a, t => (a, t)
  | .call c next, t => played reply (next (reply t c)) (t ++ [⟨c, reply t c⟩])

theorem runs_played {reply : Trace I → (c : I.Call) → I.Reply c}
    (h : ∀ t c, allowed t ⟨c, reply t c⟩) :
    Runs allowed p t (played reply p t).1 (played reply p t).2 := by
  induction p generalizing t with
  | pure a => exact .refl _ _
  | call c next ih => exact .call (h t c) (ih _)

end AgentArchivist.Lib.Proc
