import AgentArchivist.Lib.OptionalEntries
import AgentArchivist.Protocol.Document

/-! # Reading the members of a document

The readers that the schema-checked documents share, over the refusal that each makes of
a member's name and a reason. A reader succeeds exactly on what the writer of its type
gives, so a document is read from the object it is written to (`holds_iff`). -/
namespace AgentArchivist.Protocol.Members
open Lib
open Fallible OptionalEntries SortedMap Utf16 Document IngestEnvelope Json Vocabulary

section
variable {ε : Type} (invalid : String → String → ε)

def require (object : List (String × Value)) (field : String) : Except ε Value :=
  match Object.get field object with
  | some value => .ok value
  | none => .error (invalid field "required member is missing")

def text (value : Value) (field : String) : Except ε String :=
  match value with
  | .text text => .ok text
  | _ => .error (invalid field "member must be a string")

/-- A non-negative integer below `2^63`. -/
def u63 (value : Value) (field : String) : Except ε UInt64 :=
  match value with
  | .int n =>
    if 0 ≤ n.toInt then .ok (UInt64.ofNat n.toInt.toNat)
    else .error (invalid field "integer is below zero")
  | _ => .error (invalid field "member must be an integer")

/-- `u63(require(object, field)?, field)`. -/
def integer (object : List (String × Value)) (field : String) : Except ε UInt64 := do
  let value ← require invalid object field
  u63 invalid value field

def typed {T : Type} [WireText T] (object : List (String × Value)) (field : String) :
    Except ε T := do
  let value ← require invalid object field
  let raw ← text invalid value field
  (WireText.fromStr raw).mapError fun _ => invalid field "value does not match the canonical grammar"

def optional {T : Type} [WireText T] (object : List (String × Value)) (field : String) :
    Except ε (Option T) :=
  match Object.get field object with
  | none => .ok none
  | some (.text raw) =>
    ((WireText.fromStr raw).map some).mapError fun _ =>
      invalid field "value does not match the canonical grammar"
  | some _ => .error (invalid field "member must be a string when present, never null")

def optionalU63 (object : List (String × Value)) (field : String) : Except ε (Option UInt64) :=
  match Object.get field object with
  | none => .ok none
  | some member => (u63 invalid member field).map some

end

/-- The members under other names, set one by one. -/
def retained (names : List String) (object : List (String × Value)) : List (String × Value) :=
  object.foldl (fun unknown m =>
    if names.contains m.1 then unknown else Object.set m.1 m.2 unknown) []

/-! ## Writing -/

/-- A counter fits the wire integer. -/
def Fits (n : UInt64) : Prop := n.toNat < 2 ^ 63

instance (n : UInt64) : Decidable (Fits n) := inferInstanceAs (Decidable (_ < _))

-- decided along the list: the words themselves are finite, but too many
instance (counters : List UInt64) : Decidable (∀ n ∈ counters, Fits n) := List.decidableBAll _ counters

/-- `u63_value` of a counter that fits; on another the source panics. -/
def u63Value (n : UInt64) : Value := .int (Int64.ofInt n.toNat)

/-- An object of known members, where they are present, and of retained ones. -/
def written (known : List (String × Option Value)) (unknown : List (String × Value)) : Value :=
  .object (assembled (present known ++ unknown))

/-! ## A reader succeeds on what its writer gives -/

section
variable {ε : Type} {invalid : String → String → ε} {object : List (String × Value)} {field : String}

theorem require_ok {v} :
    require invalid object field = .ok v ↔ Object.get field object = some v := by
  unfold require
  cases Object.get field object <;> simp

theorem text_ok {v s} : text invalid v field = .ok s ↔ v = .text s := by
  cases v <;> simp [text]

theorem typed_ok {T : Type} [WireText T] {t : T} :
    typed invalid object field = .ok t ↔ Object.get field object = some (textValue t) := by
  unfold typed
  simp only [bind_eq_ok, require_ok, text_ok, mapError_eq_ok, fromStr_ok]
  constructor
  · intro ⟨_, hget, _, hv, hs⟩
    rw [hget, hv, hs, textValue]
  · intro hget
    exact ⟨_, hget, _, rfl, rfl⟩

theorem optional_ok {T : Type} [WireText T] {t : Option T} :
    Members.optional invalid object field = .ok t ↔ Object.get field object = t.map textValue := by
  unfold Members.optional
  cases Object.get field object with
  | none => cases t <;> simp
  | some v =>
    cases v with
    | text s =>
      simp only [mapError_eq_ok, map_eq_ok, fromStr_ok]
      cases t <;> simp [textValue]
    | _ => cases t <;> simp [textValue]

theorem u63_ok {v n} : u63 invalid v field = .ok n ↔ Fits n ∧ v = u63Value n := by
  constructor
  · intro h
    cases v with
    | int k =>
      simp only [u63] at h
      split at h
      · rename_i hk
        cases h
        have hlt := Int64.toInt_lt k
        have hsize : k.toInt.toNat < 2 ^ 64 := by omega
        have hvalue : (UInt64.ofNat k.toInt.toNat).toNat = k.toInt.toNat :=
          UInt64.toNat_ofNat_of_lt' hsize
        refine ⟨?_, ?_⟩
        · unfold Fits
          omega
        · rw [u63Value, hvalue, Int.toNat_of_nonneg hk, Int64.ofInt_toInt]
      · cases h
    | _ => cases h
  · intro ⟨hfits, hv⟩
    unfold Fits at hfits
    have hint : (Int64.ofInt n.toNat).toInt = n.toNat :=
      Int64.toInt_ofInt_of_le (by omega) (by omega)
    rw [hv, u63Value, u63]
    simp [hint]

theorem integer_ok {n} : integer invalid object field = .ok n ↔
    Fits n ∧ Object.get field object = some (u63Value n) := by
  unfold integer
  simp only [bind_eq_ok, require_ok, u63_ok]
  constructor
  · intro ⟨_, hget, hfits, hv⟩
    exact ⟨hfits, hv ▸ hget⟩
  · intro ⟨hfits, hget⟩
    exact ⟨_, hget, hfits, rfl⟩

theorem optionalU63_ok {n} : optionalU63 invalid object field = .ok n ↔
    (∀ k ∈ n, Fits k) ∧ Object.get field object = n.map u63Value := by
  unfold optionalU63
  cases Object.get field object with
  | none => cases n <;> simp
  | some v =>
    simp only [map_eq_ok, u63_ok]
    cases n <;> simp

end

theorem retained_eq {names object} (hs : Sorted cmpUtf16 object) :
    retained names object = rest names object := by
  have hsub : Sorted cmpUtf16 (rest names object) := List.Pairwise.filter _ hs
  have hfold : retained names object =
      (rest names object).foldl (fun o m => upsert cmpUtf16 m.1 m.2 o) [] := by
    unfold rest
    rw [List.foldl_filter]
    unfold retained
    congr 1
    funext unknown m
    cases hm : names.contains m.1 <;> simp only [Object.set] <;> rfl
  rw [hfold]
  exact foldl_upsert_eq hsub (List.Perm.refl _)

end AgentArchivist.Protocol.Members
