/-! # Programs that ask a fixed store

A program over a store that answers every question in one way: it returns or refuses, and
`asked` lists the questions it put, in order. A question put before a refusal is listed
too. -/
namespace AgentArchivist.Lib.Asked

structure Asked (κ ε α : Type) where
  result : Except ε α
  asked : List κ

variable {κ ρ ε α β : Type}

namespace Asked

def bind (m : Asked κ ε α) (k : α → Asked κ ε β) : Asked κ ε β :=
  match m.result with
  | .ok a => ⟨(k a).result, m.asked ++ (k a).asked⟩
  | .error e => ⟨.error e, m.asked⟩

instance : Monad (Asked κ ε) where
  pure a := ⟨.ok a, []⟩
  bind := bind

/-- One question. -/
def ask (store : κ → ρ) (k : κ) : Asked κ ε ρ := ⟨.ok (store k), [k]⟩

def ofExcept (x : Except ε α) : Asked κ ε α := ⟨x, []⟩

def refuse (e : ε) : Asked κ ε α := ofExcept (.error e)

end Asked

open Asked

/-- The program returns, after these questions. -/
structure Returns (m : Asked κ ε α) (a : α) (asked : List κ) : Prop where
  result : m.result = .ok a
  asked : m.asked = asked

section
variable {m : Asked κ ε α} {k : α → Asked κ ε β} {a : α} {b : β} {e : ε} {t : List κ}

theorem Returns.eq (h : Returns m a t) : m = ⟨.ok a, t⟩ := by
  cases m
  cases h
  simp_all

theorem Returns.bind (h : Returns m a t) : m >>= k = ⟨(k a).result, t ++ (k a).asked⟩ := by
  rw [h.eq]
  rfl

theorem returns_bind : Returns (m >>= k) b t ↔
    ∃ a t₁ t₂, Returns m a t₁ ∧ Returns (k a) b t₂ ∧ t = t₁ ++ t₂ := by
  constructor
  · intro ⟨hresult, hasked⟩
    have hbind : m >>= k = Asked.bind m k := rfl
    rw [hbind, Asked.bind] at hresult hasked
    split at hresult
    · rename_i a ha
      rw [ha] at hasked
      exact ⟨a, m.asked, (k a).asked, ⟨ha, rfl⟩, ⟨hresult, rfl⟩, hasked.symm⟩
    · cases hresult
  · rintro ⟨a, t₁, t₂, hm, hk, rfl⟩
    rw [hm.bind]
    exact ⟨hk.result, congrArg _ hk.asked⟩

theorem error_bind : (m >>= k).result = .error e ↔
    m.result = .error e ∨ ∃ a, m.result = .ok a ∧ (k a).result = .error e := by
  have hbind : m >>= k = Asked.bind m k := rfl
  rw [hbind, Asked.bind]
  cases hm : m.result with
  | ok | error => simp

theorem returns_pure {a'} : Returns (pure a : Asked κ ε α) a' t ↔ a' = a ∧ t = [] :=
  ⟨fun ⟨hresult, hasked⟩ => ⟨(Except.ok.inj hresult).symm, hasked.symm⟩,
    fun ⟨hb, ht⟩ => ⟨congrArg _ hb.symm, ht.symm⟩⟩

theorem returns_ask {store : κ → ρ} {q r} :
    Returns (ask store q : Asked κ ε ρ) r t ↔ r = store q ∧ t = [q] :=
  ⟨fun ⟨hresult, hasked⟩ => ⟨(Except.ok.inj hresult).symm, hasked.symm⟩,
    fun ⟨hr, ht⟩ => ⟨congrArg _ hr.symm, ht.symm⟩⟩

theorem returns_ofExcept {x} : Returns (ofExcept x : Asked κ ε α) a t ↔ x = .ok a ∧ t = [] :=
  ⟨fun ⟨hresult, hasked⟩ => ⟨hresult, hasked.symm⟩, fun ⟨hx, ht⟩ => ⟨hx, ht.symm⟩⟩

/-- A check puts no question. -/
theorem ofExcept_bind {x} : Returns (ofExcept x >>= k) b t ↔ ∃ a, x = .ok a ∧ Returns (k a) b t := by
  cases x with
  | error e => exact ⟨fun h => absurd h.result nofun, nofun⟩
  | ok a => exact ⟨fun h => ⟨a, rfl, h⟩, by rintro ⟨_, ⟨⟩, h⟩; exact h⟩

/-- A loop each of whose rounds puts one question is a loop over the answers. -/
theorem returns_foldlM {γ : Type} {f : α → γ → Asked κ ε α} {g : α → γ → Option α} {q : γ → κ}
    (h : ∀ a c a' t, Returns (f a c) a' t ↔ t = [q c] ∧ g a c = some a') :
    ∀ (items : List γ) (a a' : α) (t : List κ),
      Returns (items.foldlM f a) a' t ↔ t = items.map q ∧ items.foldlM g a = some a'
  | [], a, a', t => by
    simp only [List.foldlM_nil, List.map_nil, returns_pure, Option.pure_def, Option.some.injEq]
    exact ⟨fun ⟨ha, ht⟩ => ⟨ht, ha.symm⟩, fun ⟨ht, ha⟩ => ⟨ha.symm, ht⟩⟩
  | c :: items, a, a', t => by
    rw [List.foldlM_cons, returns_bind, List.foldlM_cons, List.map_cons]
    constructor
    · rintro ⟨b, t₁, t₂, hstep, hrest, rfl⟩
      obtain ⟨rfl, hb⟩ := (h _ _ _ _).mp hstep
      obtain ⟨rfl, ha'⟩ := (returns_foldlM h items b a' t₂).mp hrest
      exact ⟨rfl, Option.bind_eq_some_iff.mpr ⟨b, hb, ha'⟩⟩
    · rintro ⟨rfl, hfold⟩
      obtain ⟨b, hb, ha'⟩ := Option.bind_eq_some_iff.mp hfold
      exact ⟨b, [q c], items.map q, (h _ _ _ _).mpr ⟨rfl, hb⟩,
        (returns_foldlM h items b a' _).mpr ⟨rfl, ha'⟩, rfl⟩

end

/-! ## What a refusal can be -/

/-- Every refusal is of this kind. -/
def Raises (P : ε → Prop) (x : Except ε α) : Prop := ∀ e, x = .error e → P e

section
variable {P : ε → Prop}

theorem raises_ok {a : α} : Raises P (.ok a) := nofun

theorem raises_error {e} (h : P e) : Raises P (.error e : Except ε α) := by
  rintro _ ⟨⟩
  exact h

theorem Raises.then {x} {f : α → Except ε β} (hx : Raises P x) (hf : ∀ a, Raises P (f a)) :
    Raises P (x >>= f) := by
  cases x with
  | error e => exact raises_error (hx e rfl)
  | ok a => exact hf a

theorem raises_mapM {f : α → Except ε β} (hf : ∀ a, Raises P (f a)) (items : List α) :
    Raises P (items.mapM f) := by
  induction items with
  | nil => exact raises_ok
  | cons a items ih =>
    rw [List.mapM_cons]
    exact (hf a).then fun b => ih.then fun bs => raises_ok

theorem raises_mapError {ε' : Type} {x : Except ε' α} {f : ε' → ε} (hf : ∀ e, P (f e)) :
    Raises P (x.mapError f) := by
  cases x with
  | error e => exact raises_error (hf e)
  | ok a => exact raises_ok

theorem raises_bind {m} {k : α → Asked κ ε β} (hm : Raises P m.result)
    (hk : ∀ a, Raises P (k a).result) : Raises P (m >>= k).result := by
  intro e h
  rcases error_bind.mp h with h | ⟨a, -, h⟩
  · exact hm e h
  · exact hk a e h

theorem raises_foldlM {γ : Type} {f : α → γ → Asked κ ε α} (hf : ∀ a c, Raises P (f a c).result)
    (items : List γ) (a : α) : Raises P (items.foldlM f a).result := by
  induction items generalizing a with
  | nil => exact raises_ok
  | cons c items ih => exact raises_bind (hf a c) ih

end

end AgentArchivist.Lib.Asked
