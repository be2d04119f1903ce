import Mathlib.Data.List.Basic

/-! # Sources that are pulled chunk by chunk

A `PullSource` hands out its items on demand, as many at a time as it likes.
`Delivers s data` says that a source in state `s` hands out exactly `data`, in
order, and then stays at the end: it never fails and never answers a pull with
nothing while items are left. How `data` is cut into chunks is left open, so a
statement about every delivering source is a statement about every chunking. -/
namespace AgentArchivist.Lib.Source

/-- A source of items `α` that may fail with `ε`: `pull s room` asks for at most `room` items. -/
class PullSource (σ : Type) (α ε : outParam Type) where
  pull : σ → Nat → Except ε (List α) × σ
  length_le : ∀ {s room chunk}, (pull s room).1 = .ok chunk → chunk.length ≤ room

open PullSource

section Delivers

variable {σ α ε : Type} [PullSource σ α ε]

/-- The largest relation under which every pull hands out the next items of the data. -/
def Delivers (s : σ) (data : List α) : Prop :=
  ∃ R : σ → List α → Prop, R s data ∧ ∀ s data room, R s data → 0 < room →
    ∃ chunk rest s', pull s room = (.ok chunk, s') ∧ data = chunk ++ rest ∧
      (chunk = [] → rest = []) ∧ R s' rest

/-- What one pull of a delivering source does. -/
theorem Delivers.pull_eq {s : σ} {data : List α} (h : Delivers s data) {room : Nat}
    (hr : 0 < room) : ∃ chunk rest s', pull s room = (.ok chunk, s') ∧ data = chunk ++ rest ∧
      (chunk = [] → rest = []) ∧ Delivers s' rest := by
  obtain ⟨R, hR, hpull⟩ := h
  obtain ⟨chunk, rest, s', h1, h2, h3, h4⟩ := hpull s data room hR hr
  exact ⟨chunk, rest, s', h1, h2, h3, R, h4, hpull⟩

/-- A source delivers one list only. -/
theorem Delivers.unique {s : σ} {a b : List α} (ha : Delivers s a) (hb : Delivers s b) : a = b := by
  induction hn : a.length using Nat.strongRecOn generalizing s a b with
  | ind n ih =>
    obtain ⟨ca, ra, sa, hpa, rfl, hea, hda⟩ := ha.pull_eq Nat.one_pos
    obtain ⟨cb, rb, sb, hpb, rfl, heb, hdb⟩ := hb.pull_eq Nat.one_pos
    rw [hpa] at hpb
    cases hpb
    by_cases hc : ca = []
    · rw [hc, hea hc, heb hc]
    have hlt : ra.length < n := by
      have := List.length_pos_iff.mpr hc
      rw [← hn, List.length_append]
      omega
    rw [ih ra.length hlt hda hdb rfl]

/-- A source together with the proof of what it delivers. -/
structure Chunking (σ : Type) {α ε : Type} [PullSource σ α ε] (data : List α) where
  source : σ
  delivers : Delivers source data

/-- A source that always hands out some first part of what remains delivers what remains. -/
theorem delivers_remaining (remaining : σ → List α)
    (h : ∀ (s : σ) (room : Nat), 0 < room → ∃ n s', 0 < n ∧
      pull s room = (.ok ((remaining s).take n), s') ∧ remaining s' = (remaining s).drop n)
    (s : σ) : Delivers s (remaining s) := by
  refine ⟨fun s data => remaining s = data, rfl, ?_⟩
  rintro s _ room rfl hr
  obtain ⟨n, s', hn, hp, hs⟩ := h s room hr
  refine ⟨_, _, s', hp, (List.take_append_drop n _).symm, ?_, hs⟩
  intro hc
  obtain hz | hz := List.take_eq_nil_iff.mp hc
  · omega
  · rw [hz, List.drop_nil]

end Delivers

end AgentArchivist.Lib.Source
