import Mathlib.Data.List.Infix

/-! # Machines that yield events until they finish or fail

`next t` is one call: it yields an event, reports the end, or fails, and leaves
a new state. `drive` makes the calls one after another; `Completes` is the
result of enough of them and `Reaches` the states on the way. -/
namespace AgentArchivist.Lib.Events

variable {τ ω ε : Type} (next : τ → Except ε (Option ω) × τ)

/-- At most `fuel` calls: the events yielded and how the run ended. -/
def drive : Nat → τ → Option (List ω × Except ε Unit)
  | 0, _ => none
  | fuel + 1, t =>
    match next t with
    | (.error e, _) => some ([], .error e)
    | (.ok none, _) => some ([], .ok ())
    | (.ok (some w), t') => (drive fuel t').map fun r => (w :: r.1, r.2)

def Completes (t : τ) (ws : List ω) (out : Except ε Unit) : Prop :=
  ∃ fuel, drive next fuel t = some (ws, out)

/-- The states a run passes through, with the events yielded before each. -/
inductive Reaches : τ → List ω → τ → Prop
  | refl (t : τ) : Reaches t [] t
  | step {t t' t'' : τ} {w : ω} {ws : List ω} :
      next t = (.ok (some w), t') → Reaches t' ws t'' → Reaches t (w :: ws) t''

variable {next}

variable {t t' : τ}

theorem completes_error {e} (h : next t = (.error e, t')) : Completes next t [] (.error e) :=
  ⟨1, by simp [drive, h]⟩

theorem completes_none (h : next t = (.ok none, t')) :
    Completes next t [] (.ok ()) :=
  ⟨1, by simp [drive, h]⟩

variable {out : Except ε Unit}

theorem completes_some {w ws} (h : next t = (.ok (some w), t')) (hc : Completes next t' ws out) :
    Completes next t (w :: ws) out := by
  obtain ⟨fuel, hf⟩ := hc
  exact ⟨fuel + 1, by simp [drive, h, hf]⟩

theorem drive_succ {t r} :
    ∀ {fuel : Nat}, drive next fuel t = some r → drive next (fuel + 1) t = some r := by
  intro fuel
  induction fuel generalizing t r with
  | zero => intro h; cases h
  | succ fuel ih =>
    intro h
    rw [drive] at h ⊢
    split at h
    · exact h
    · exact h
    · simp only [Option.map_eq_some_iff] at h ⊢
      obtain ⟨r', hr', rfl⟩ := h
      exact ⟨r', ih hr', rfl⟩

theorem drive_le {t r m n} (hmn : m ≤ n) (h : drive next m t = some r) :
    drive next n t = some r := by
  induction hmn with
  | refl => exact h
  | step _ ih => exact drive_succ ih

/-- A run has one result, however often it is driven. -/
theorem Completes.unique {t ws ws' out out'} (h : Completes next t ws out)
    (h' : Completes next t ws' out') : ws = ws' ∧ out = out' := by
  obtain ⟨m, hm⟩ := h
  obtain ⟨n, hn⟩ := h'
  have h1 := drive_le (Nat.le_max_left m n) hm
  rw [drive_le (Nat.le_max_right m n) hn] at h1
  cases h1
  exact ⟨rfl, rfl⟩

/-- Two stretches of one run: one continues the other. -/
theorem Reaches.compare {t x y a b} (hx : Reaches next t a x) (hy : Reaches next t b y) :
    (∃ d, b = a ++ d ∧ Reaches next x d y) ∨ (∃ d, a = b ++ d ∧ Reaches next y d x) := by
  induction hx generalizing b with
  | refl t => exact .inl ⟨b, rfl, hy⟩
  | step hn hr ih =>
    cases hy with
    | refl => exact .inr ⟨_, rfl, .step hn hr⟩
    | step hn' hr' =>
      rw [hn] at hn'
      cases hn'
      obtain ⟨d, rfl, hd⟩ | ⟨d, rfl, hd⟩ := ih hr'
      · exact .inl ⟨d, rfl, hd⟩
      · exact .inr ⟨d, rfl, hd⟩

/-- What a run yields from a reached state on completes the whole. -/
theorem Reaches.completes {ws ws'} (h : Reaches next t ws t') (hc : Completes next t' ws' out) :
    Completes next t (ws ++ ws') out := by
  induction h with
  | refl => exact hc
  | step hn _ ih => exact completes_some hn (ih hc)

theorem Completes.cons {t w ws} (h : Completes next t (w :: ws) out) :
    ∃ t', next t = (.ok (some w), t') ∧ Completes next t' ws out := by
  obtain ⟨fuel, hf⟩ := h
  cases fuel with
  | zero => cases hf
  | succ fuel =>
    rw [drive] at hf
    split at hf
    · cases hf
    · cases hf
    rename_i w' t' hn
    obtain ⟨r, hr, he⟩ := Option.map_eq_some_iff.mp hf
    cases he
    exact ⟨t', hn, fuel, hr⟩

theorem Completes.step {w ws} (h : Completes next t ws out) (hn : next t = (.ok (some w), t')) :
    ∃ ws', ws = w :: ws' ∧ Completes next t' ws' out := by
  obtain ⟨fuel, hf⟩ := h
  cases fuel with
  | zero => cases hf
  | succ fuel =>
    rw [drive, hn] at hf
    obtain ⟨r, hr, he⟩ := Option.map_eq_some_iff.mp hf
    cases he
    exact ⟨r.1, rfl, fuel, hr⟩

theorem Completes.nil {t} (h : Completes next t [] (.ok ())) : ∃ t', next t = (.ok none, t') := by
  obtain ⟨fuel, hf⟩ := h
  cases fuel with
  | zero => cases hf
  | succ fuel =>
    rw [drive] at hf
    split at hf
    · cases hf
    · rename_i t' hn
      exact ⟨t', hn⟩
    · obtain ⟨r, hr, he⟩ := Option.map_eq_some_iff.mp hf
      cases he

/-- A completed run passes through a state after each of its events. -/
theorem Completes.split {ws'} :
    ∀ {ws : List ω} {t : τ}, Completes next t (ws ++ ws') out →
      ∃ t', Reaches next t ws t' ∧ Completes next t' ws' out
  | [], t, h => ⟨t, .refl t, h⟩
  | _ :: _, t, h => by
    obtain ⟨t₁, hn, hc⟩ := Completes.cons h
    obtain ⟨t', hr, hc'⟩ := Completes.split hc
    exact ⟨t', .step hn hr, hc'⟩

theorem Reaches.split {t'' ws'} :
    ∀ {ws : List ω} {t : τ}, Reaches next t (ws ++ ws') t'' →
      ∃ t', Reaches next t ws t' ∧ Reaches next t' ws' t''
  | [], t, h => ⟨t, .refl t, h⟩
  | _ :: _, t, h => by
    cases h with
    | step hn hr =>
      obtain ⟨t', h1, h2⟩ := Reaches.split hr
      exact ⟨t', .step hn h1, h2⟩

theorem Reaches.trans {t t' t'' ws ws'} (h : Reaches next t ws t') (h' : Reaches next t' ws' t'') :
    Reaches next t (ws ++ ws') t'' := by
  induction h with
  | refl => exact h'
  | step hn _ ih => exact .step hn (ih h')

/-- Prefixes of one list that end in a marked item are told apart by how many they hold. -/
theorem prefix_eq_of_countP {α : Type} {p : α → Bool} {a b l x y} (ha : a ++ [x] <+: l)
    (hb : b ++ [y] <+: l) (hx : p x = true) (hy : p y = true)
    (hc : (a ++ [x]).countP p = (b ++ [y]).countP p) : a ++ [x] = b ++ [y] := by
  have key : ∀ {a b : List α} {x y : α}, p y = true → a ++ [x] <+: b ++ [y] →
      (a ++ [x]).countP p = (b ++ [y]).countP p → a ++ [x] = b ++ [y] := by
    rintro a b x y hy ⟨d, hd⟩ hc
    cases d using List.reverseRecOn with
    | nil => simpa using hd
    | append_singleton d z =>
      have hz : z = y := by
        rw [← List.append_assoc] at hd
        exact (List.append_inj' hd rfl).2 |> List.singleton_inj.mp
      rw [← hd, hz] at hc
      have hpos : 0 < (d ++ [y]).countP p := List.countP_pos_iff.mpr ⟨y, by simp, hy⟩
      have hsum : (a ++ [x] ++ (d ++ [y])).countP p = (a ++ [x]).countP p + (d ++ [y]).countP p :=
        List.countP_append
      omega
  obtain h | h := List.prefix_or_prefix_of_prefix ha hb
  · exact key hy h hc
  · exact (key hx h hc.symm).symm

end AgentArchivist.Lib.Events
