import Mathlib.Data.List.Basic

/-! # Lexical order

Lists compared element by element, the shorter of two that agree first: the order of
`memcmp` on bytes, and the order of dates given field by field. Two lists of one length
differ at a first place (`lexLe_append`), which decides their order whatever follows. -/
namespace AgentArchivist.Lib.Lexical

variable {α : Type} [LT α]

/-- The lists agree up to a place, where the first one is smaller. -/
def LessAt (u v : List α) : Prop :=
  ∃ c x y u' v', u = c ++ x :: u' ∧ v = c ++ y :: v' ∧ x < y

theorem LessAt.cons {u v} (a : α) (h : LessAt u v) : LessAt (a :: u) (a :: v) := by
  obtain ⟨c, x, y, u', v', rfl, rfl, hlt⟩ := h
  exact ⟨a :: c, x, y, u', v', rfl, rfl, hlt⟩

variable [DecidableLT α] [DecidableEq α]

def lexLe : List α → List α → Bool
  | [], _ => true
  | _ :: _, [] => false
  | a :: s, b :: t => decide (a < b) || (a == b && lexLe s t)

theorem lexLe_cons {a b : α} {s t : List α} :
    lexLe (a :: s) (b :: t) = true ↔ a < b ∨ a = b ∧ lexLe s t = true := by
  simp [lexLe]

/-- Lists with beginnings of one length are in order by those, or agree there and are in order by
the rest. -/
theorem lexLe_append {u v s t : List α} (hlen : u.length = v.length)
    (h : lexLe (u ++ s) (v ++ t) = true) : LessAt u v ∨ u = v ∧ lexLe s t = true := by
  induction u generalizing v with
  | nil =>
    obtain rfl := List.length_eq_zero_iff.mp hlen.symm
    exact .inr ⟨rfl, h⟩
  | cons a u ih =>
    cases v with
    | nil => cases hlen
    | cons b v =>
      rcases lexLe_cons.mp h with hlt | ⟨rfl, hrest⟩
      · exact .inl ⟨[], a, b, u, v, rfl, rfl, hlt⟩
      · rcases ih (Nat.succ.inj hlen) hrest with hless | ⟨rfl, hle⟩
        · exact .inl (hless.cons a)
        · exact .inr ⟨rfl, hle⟩

end AgentArchivist.Lib.Lexical
