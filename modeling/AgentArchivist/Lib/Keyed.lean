import Mathlib.Data.List.Nodup

/-! # Tables with a primary key

Rows in the order in which they were inserted, no two with the same key. An update
names one key and keeps it, so that it changes one row at most; what a lookup finds
after it is said by `find?_update`, and `changed` counts the rows as the driver does. -/
namespace AgentArchivist.Lib.Keyed
open List

/-- Where one element at most passes, it is the one found. -/
theorem find?_unique {α : Type} {l : List α} {p : α → Bool} {a}
    (h : ∀ a ∈ l, ∀ b ∈ l, p a = true → p b = true → a = b) :
    l.find? p = some a ↔ a ∈ l ∧ p a = true := by
  constructor
  · exact fun hfind => ⟨mem_of_find?_eq_some hfind, find?_some hfind⟩
  · intro ⟨hmem, ha⟩
    cases hfind : l.find? p with
    | none => exact absurd ha (List.find?_eq_none.mp hfind a hmem)
    | some b => rw [h a hmem b (mem_of_find?_eq_some hfind) ha (find?_some hfind)]

structure Table {ρ κ : Type} (key : ρ → κ) where
  rows : List ρ
  unique : (rows.map key).Nodup

namespace Table
variable {ρ κ : Type} {key : ρ → κ}

instance : Membership ρ (Table key) := ⟨fun t r => r ∈ t.rows⟩

theorem mem_rows {t : Table key} {r} : r ∈ t ↔ r ∈ t.rows := Iff.rfl

theorem ext_rows {t t' : Table key} (h : t.rows = t'.rows) : t = t' := by
  cases t; cases t'; congr

/-- A key stands for one row. -/
theorem eq_of_key {t : Table key} {r r' : ρ} (h : r ∈ t) (h' : r' ∈ t) (hkey : key r = key r') :
    r = r' := inj_on_of_nodup_map t.unique h h' hkey

/-- Where no two rows pass, one row at most is selected. -/
theorem filter_length_le_one {t : Table key} {q : ρ → Bool}
    (h : ∀ a ∈ t, ∀ b ∈ t, q a = true → q b = true → a = b) : (t.rows.filter q).length ≤ 1 := by
  have hnodup : (t.rows.filter q).Nodup := (t.unique.of_map key).filter _
  match hsel : t.rows.filter q with
  | [] => exact Nat.zero_le 1
  | [_] => exact Nat.le_refl 1
  | a :: b :: rest =>
    have ha := mem_filter.mp (hsel ▸ mem_cons_self : a ∈ t.rows.filter q)
    have hb := mem_filter.mp
      (hsel ▸ mem_cons_of_mem _ mem_cons_self : b ∈ t.rows.filter q)
    rw [hsel, h a ha.1 b hb.1 ha.2 hb.2] at hnodup
    simp at hnodup

variable [DecidableEq κ]

def find? (t : Table key) (k : κ) : Option ρ := t.rows.find? fun r => key r = k

/-- A row whose key is there already is refused. -/
def insert (t : Table key) (row : ρ) : Option (Table key) :=
  if h : key row ∈ t.rows.map key then none
  else some ⟨t.rows ++ [row], by
    rw [map_append, map_singleton]
    exact t.unique.append (nodup_singleton _) (by simpa using h)⟩

/-- `UPDATE … SET … WHERE key = k AND p`. -/
def update (t : Table key) (k : κ) (p : ρ → Bool) (f : ρ → ρ) (hf : ∀ r, key (f r) = key r) :
    Table key where
  rows := t.rows.map fun r => if key r = k ∧ p r then f r else r
  unique := by
    have hkeys : (key ∘ fun r => if key r = k ∧ p r then f r else r) = key := by
      funext r
      simp only [Function.comp_apply]
      split
      · exact hf r
      · rfl
    rw [map_map, hkeys]
    exact t.unique

/-- The number of rows that an update changes. -/
def changed (t : Table key) (k : κ) (p : ρ → Bool) : Nat :=
  t.rows.countP fun r => key r = k ∧ p r

variable {t t' : Table key} {k k' : κ} {p : ρ → Bool} {f : ρ → ρ} {hf : ∀ r, key (f r) = key r}
  {r r' row : ρ}

theorem find?_eq_some : t.find? k = some r ↔ r ∈ t ∧ key r = k := by
  rw [find?, find?_unique, decide_eq_true_iff, mem_rows]
  simp only [decide_eq_true_iff]
  exact fun a ha b hb hka hkb => eq_of_key ha hb (hka.trans hkb.symm)

theorem find?_eq_none : t.find? k = none ↔ ∀ r ∈ t, key r ≠ k := by
  simp [find?, mem_rows]

theorem find?_mem (h : r ∈ t) : t.find? (key r) = some r := find?_eq_some.mpr ⟨h, rfl⟩

/-! ## Insertion -/

theorem insert_eq_some : t.insert row = some t' ↔
    t.find? (key row) = none ∧ t'.rows = t.rows ++ [row] := by
  have hkey : key row ∈ t.rows.map key ↔ t.find? (key row) ≠ none := by
    rw [Ne, find?_eq_none]
    simp [mem_rows]
  unfold insert
  split
  · next h => exact ⟨nofun, fun h' => absurd h'.1 (hkey.mp h)⟩
  next h =>
  have hnone : t.find? (key row) = none := by simpa using mt hkey.mpr h
  constructor
  · intro h'
    cases h'
    exact ⟨hnone, rfl⟩
  · intro h'
    rw [Option.some.injEq]
    exact ext_rows h'.2.symm

theorem exists_insert (h : t.find? (key row) = none) : ∃ t', t.insert row = some t' := by
  cases hins : t.insert row with
  | some t' => exact ⟨t', rfl⟩
  | none =>
    unfold insert at hins
    split at hins
    · next hmem =>
      obtain ⟨r, hr, hkey⟩ := mem_map.mp hmem
      exact absurd hkey (find?_eq_none.mp h r hr)
    · cases hins

theorem mem_insert (h : t.insert row = some t') : r ∈ t' ↔ r ∈ t ∨ r = row := by
  rw [mem_rows, (insert_eq_some.mp h).2]
  simp [mem_rows]

theorem find?_insert (h : t.insert row = some t') :
    t'.find? k = if k = key row then some row else t.find? k := by
  obtain ⟨hnone, hrows⟩ := insert_eq_some.mp h
  split
  · next hk => exact find?_eq_some.mpr ⟨(mem_insert h).mpr (.inr rfl), hk.symm⟩
  · next hk =>
    rw [find?, hrows, find?_append]
    simp [find?, Ne.symm hk]

/-! ## Updates -/

theorem mem_update : r ∈ t.update k p f hf ↔
    ∃ r₀ ∈ t, r = if key r₀ = k ∧ p r₀ then f r₀ else r₀ := by
  rw [mem_rows, update, mem_map]
  exact ⟨fun ⟨r₀, h, he⟩ => ⟨r₀, h, he.symm⟩, fun ⟨r₀, h, he⟩ => ⟨r₀, h, he.symm⟩⟩

theorem exists_update (h : r ∈ t) : ∃ r' ∈ t.update k p f hf, key r' = key r := by
  refine ⟨_, mem_update.mpr ⟨r, h, rfl⟩, ?_⟩
  split
  · exact hf r
  · rfl

theorem find?_update : (t.update k p f hf).find? k' =
    (t.find? k').map fun r => if key r = k ∧ p r then f r else r := by
  rw [find?, find?, update, find?_map]
  congr 1
  congr 1
  funext r
  simp only [Function.comp_apply]
  split
  · rw [hf]
  · rfl

/-- An update is what it does to the row under its key. -/
theorem update_congr {p' : ρ → Bool} {f' : ρ → ρ} (hf : ∀ r, key (f r) = key r)
    (hf' : ∀ r, key (f' r) = key r)
    (h : ∀ r, t.find? k = some r → (if p r then f r else r) = if p' r then f' r else r) :
    t.update k p f hf = t.update k p' f' hf' := by
  refine ext_rows (map_congr_left fun r hr => ?_)
  by_cases hk : key r = k
  · simpa [hk] using h r (find?_eq_some.mpr ⟨hr, hk⟩)
  · simp [hk]

theorem update_eq_self (h : ∀ r, t.find? k = some r → p r = true → f r = r) :
    t.update k p f hf = t := by
  refine ext_rows ((map_congr_left fun r hr => ?_).trans (map_id _))
  split
  · next hit => exact h r (find?_eq_some.mpr ⟨hr, hit.1⟩) hit.2
  · rfl

/-- An update changes one row exactly when there is one for it. -/
theorem changed_eq_one : t.changed k p = 1 ↔ ∃ r ∈ t, key r = k ∧ p r = true := by
  have hle : t.changed k p ≤ 1 := by
    rw [changed, countP_eq_length_filter]
    refine filter_length_le_one fun a ha b hb hqa hqb => eq_of_key ha hb ?_
    simp only [decide_eq_true_eq] at hqa hqb
    rw [hqa.1, hqb.1]
  have hpos : 0 < t.changed k p ↔ ∃ r ∈ t, key r = k ∧ p r = true := by
    rw [changed, countP_pos_iff]
    simp [mem_rows]
  rw [← hpos]
  omega

end Table
end AgentArchivist.Lib.Keyed
