import Mathlib.Data.List.Infix

/-! # Runs of a machine and the traces they refine

`run` feeds inputs to a machine one after another. `Trace R` is a sequence of
labelled steps of a relation, here always the abstract machine: where the
concrete machine is simulated step by step (`run_refines`), every run of it is a
trace, and what is proved about traces holds of runs. `Trace.history` is the rule
for invariants that tie the state to everything answered so far. -/
namespace AgentArchivist.Lib.Runs

variable {σ τ ι ο : Type}

/-- The answers to the inputs, and the state after them. -/
def run (step : σ → ι → ο × σ) (s : σ) : List ι → List ο × σ
  | [] => ([], s)
  | i :: is => ((step s i).1 :: (run step (step s i).2 is).1, (run step (step s i).2 is).2)

inductive Trace (R : τ → ο → τ → Prop) : τ → List ο → τ → Prop
  | nil (t : τ) : Trace R t [] t
  | cons {t t' t'' : τ} {o : ο} {os : List ο} : R t o t' → Trace R t' os t'' → Trace R t (o :: os) t''

variable {step : σ → ι → ο × σ} {R : τ → ο → τ → Prop}

/-- What every step keeps holds after a run. -/
theorem run_keeps {P : σ → Prop} (is : List ι) (hstep : ∀ s, ∀ i ∈ is, P s → P (step s i).2) {s}
    (h : P s) : P (run step s is).2 := by
  induction is generalizing s with
  | nil => exact h
  | cons i is ih =>
    exact ih (fun s j hj => hstep s j (List.mem_cons_of_mem i hj)) (hstep s i List.mem_cons_self h)

/-- An answer of a run answers one of its inputs. -/
theorem mem_run {s is o} (h : o ∈ (run step s is).1) : ∃ s', ∃ i ∈ is, o = (step s' i).1 := by
  induction is generalizing s with
  | nil => cases h
  | cons i is ih =>
    rcases List.mem_cons.mp h with rfl | hrest
    · exact ⟨s, i, List.mem_cons_self, rfl⟩
    · obtain ⟨s', j, hj, ho⟩ := ih hrest
      exact ⟨s', j, List.mem_cons_of_mem i hj, ho⟩

theorem Trace.split {t t'' os os'} (h : Trace R t (os ++ os') t'') :
    ∃ t', Trace R t os t' ∧ Trace R t' os' t'' := by
  induction os generalizing t with
  | nil => exact ⟨t, .nil t, h⟩
  | cons o os ih =>
    cases h with
    | cons hstep hrest =>
      obtain ⟨t', h1, h2⟩ := ih hrest
      exact ⟨t', .cons hstep h1, h2⟩

/-- A trace of relabelled steps. -/
theorem Trace.map {ο' : Type} {f : ο' → ο} {t t'} {os}
    (h : Trace (fun t o t' => R t (f o) t') t os t') : Trace R t (os.map f) t' := by
  induction h with
  | nil t => exact .nil t
  | cons hr _ ih => exact .cons hr ih

/-- What holds at first and is kept by every step, of the answers so far and the state. -/
theorem Trace.history {P : List ο → τ → Prop} {t t' os} (h : Trace R t os t') (h₀ : P [] t)
    (hstep : ∀ os t o t', P os t → R t o t' → P (os ++ [o]) t') : P os t' := by
  suffices hall : ∀ before, P before t → P (before ++ os) t' from hall [] h₀
  clear h₀
  induction h with
  | nil t =>
    intro before hb
    rwa [List.append_nil]
  | cons hr _ ih =>
    intro before hb
    rw [List.append_cons]
    exact ih _ (hstep before _ _ _ hb hr)

/-- A machine that is simulated step by step has traces for its runs. -/
theorem run_refines {rep : σ → τ → Prop}
    (hsim : ∀ s t i, rep s t → ∃ t', R t (step s i).1 t' ∧ rep (step s i).2 t') {s t} (h : rep s t)
    (is : List ι) : ∃ t', Trace R t (run step s is).1 t' ∧ rep (run step s is).2 t' := by
  induction is generalizing s t with
  | nil => exact ⟨t, .nil t, h⟩
  | cons i is ih =>
    obtain ⟨t1, hr, h1⟩ := hsim s t i h
    obtain ⟨t', htrace, h'⟩ := ih h1
    exact ⟨t', .cons hr htrace, h'⟩

end AgentArchivist.Lib.Runs
