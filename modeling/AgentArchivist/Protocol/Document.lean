import AgentArchivist.Protocol.EnvelopeSize
import AgentArchivist.Protocol.ObjectKey

/-! # Documents of listed members

A document is an object whose members are set one after another, under distinct names. Its
members are read back by name, and where they are flat and of moderate length its canonical
bytes parse back to it. -/
namespace AgentArchivist.Protocol.Document
open Lib List
open SortedMap Utf16 Utf8 Derivation EnvelopeSize Json JsonCanonical Vocabulary

/-! ## Objects of listed members -/

/-- The members of an object, set one after another. -/
def assembled (listed : List (String × Value)) : List (String × Value) :=
  listed.foldl (fun object m => Object.set m.1 m.2 object) []

theorem set_assembled {listed name v} :
    Object.set name v (assembled listed) = assembled (listed ++ [(name, v)]) := by
  rw [assembled, assembled, foldl_append]
  rfl

section
variable {listed : List (String × Value)} (hnames : (listed.map Prod.fst).Nodup)
include hnames

theorem get_assembled {name v} (h : (name, v) ∈ listed) :
    Object.get name (assembled listed) = some v := (lookup_foldl_upsert hnames).mpr h

theorem assembled_sorted : Sorted cmpUtf16 (assembled listed) ∧ (assembled listed).Perm listed :=
  foldl_upsert_nil _ hnames

theorem assembled_wellFormed (h : ∀ m ∈ listed, WellFormed m.2) :
    WellFormed (.object (assembled listed)) := by
  obtain ⟨hsorted, hperm⟩ := assembled_sorted hnames
  exact .object hsorted fun m hm => h m (hperm.mem_iff.mp hm)

theorem assembled_depth {n} (h : ∀ m ∈ listed, valueDepth m.2 < n) :
    valueDepth (.object (assembled listed)) < n + 1 := by
  obtain ⟨-, hperm⟩ := assembled_sorted hnames
  exact membersDepth_lt.mpr fun m hm => h m (hperm.mem_iff.mp hm)

theorem length_assembled {k} (h : ∀ m ∈ listed, memberCost m ≤ k) :
    (Json.canonicalBytes (.object (assembled listed))).length ≤ 2 + listed.length * k := by
  obtain ⟨-, hperm⟩ := assembled_sorted hnames
  rw [← hperm.length_eq]
  exact length_object_le fun m hm => h m (hperm.mem_iff.mp hm)

end

/-! ## How long a member is -/

@[simp] theorem short_text {validate : String → Bool} [Bounded validate] (t : Text validate)
    (h : Bounded.limit validate ≤ 1024) : (utf8 (WireText.text t)).length ≤ 1024 :=
  (Bounded.fits t.valid).trans h

attribute [simp] Bounded.limit

@[simp] theorem short_digest (d : Digest) : (utf8 (WireText.text d)).length ≤ 1024 := by
  show (utf8 d.toHex).length ≤ 1024
  rw [ObjectKey.utf8_toHex_length]
  decide

@[simp] theorem short_signature (s : Ed25519Signature) : (utf8 (WireText.text s)).length ≤ 1024 := by
  show (utf8 (Sha256.encodeHex s.raw)).length ≤ 1024
  rw [Sha256.utf8_encodeHex, Sha256.flatMap_hexPair_length, s.length_raw]
  decide

theorem length_array_le {k} : ∀ {items : List Value},
    (∀ v ∈ items, (Json.canonicalBytes v).length ≤ k) →
      (Json.canonicalBytes (.array items)).length ≤ 2 + items.length * (k + 1) := by
  have hitems : ∀ (first : Bool) (items : List Value),
      (∀ v ∈ items, (Json.canonicalBytes v).length ≤ k) →
        (writeItems first items).length ≤ items.length * (k + 1) := by
    intro first items
    induction items generalizing first with
    | nil => simp [writeItems]
    | cons v items ih =>
      intro h
      obtain ⟨hv, hrest⟩ := forall_mem_cons.mp h
      have hrest := ih false hrest
      have hcomma : (if first then [] else [(0x2c : UInt8)]).length ≤ 1 := by cases first <;> simp
      rw [writeItems, length_append, length_append, length_cons, Nat.succ_mul]
      omega
  intro items h
  have hwritten := hitems true items h
  rw [Json.canonicalBytes, length_cons, length_append, length_singleton]
  omega

/-! ## Members of moderate length -/

/-- A value that the parser's limits allow as a member of a document. -/
structure Moderate (v : Value) : Prop where
  wellFormed : WellFormed v
  shallow : valueDepth v < 4
  short : (Json.canonicalBytes v).length ≤ 99000

@[simp] theorem moderate_text {text} (h : (utf8 text).length ≤ 1024) : Moderate (.text text) where
  wellFormed := .text text
  shallow := by simp [valueDepth]
  short := by
    have hwritten := length_writeString text
    simp only [Json.canonicalBytes]
    omega

@[simp] theorem moderate_int (n : Int64) : Moderate (.int n) where
  wellFormed := .int n
  shallow := by simp [valueDepth]
  short := by
    have hwritten := length_renderI64 n
    simp only [Json.canonicalBytes]
    omega

/-- A number or a short text. -/
def Brief (v : Value) : Prop := (∃ text, v = .text text ∧ (utf8 text).length ≤ 1024) ∨ ∃ n, v = .int n

@[simp] theorem brief_short {text} (h : (utf8 text).length ≤ 1024) : Brief (.text text) := .inl ⟨text, rfl, h⟩

theorem Brief.moderate {v} (h : Brief v) : Moderate v := by
  rcases h with ⟨text, rfl, htext⟩ | ⟨n, rfl⟩
  · exact moderate_text htext
  · exact moderate_int n

/-- An object of a few short texts and numbers. -/
theorem moderate_assembled {listed} (hnames : (listed.map Prod.fst).Nodup)
    (hshort : ∀ m ∈ listed, (utf8 m.1).length ≤ 40) (hbrief : ∀ m ∈ listed, Brief m.2)
    (hlen : listed.length ≤ 14) : Moderate (.object (assembled listed)) where
  wellFormed :=
    assembled_wellFormed hnames fun m hm => (hbrief m hm).moderate.wellFormed
  shallow := by
    have hdepth : valueDepth (.object (assembled listed)) < 1 + 1 := by
      refine assembled_depth hnames fun m hm => ?_
      rcases hbrief m hm with ⟨text, h, -⟩ | ⟨n, h⟩ <;> simp [h, valueDepth]
    omega
  short := by
    have hcost : ∀ m ∈ listed, memberCost m ≤ 7000 := by
      rintro ⟨name, v⟩ hm
      have hlong := length_writeString name
      have hname : (utf8 name).length ≤ 40 := hshort _ hm
      rcases hbrief _ hm with ⟨text, h, htext⟩ | ⟨n, h⟩ <;> cases h <;>
        simp only [memberCost, Json.canonicalBytes]
      · have := length_writeString text
        omega
      · have := length_renderI64 n
        omega
    have := length_assembled hnames hcost
    omega

/-- A document of a few moderate members is read back. -/
theorem parse_moderate {listed} (hnames : (listed.map Prod.fst).Nodup)
    (hshort : ∀ m ∈ listed, (utf8 m.1).length ≤ 40) (hvalues : ∀ m ∈ listed, Moderate m.2)
    (hlen : listed.length ≤ 80) :
    Json.parse (Json.canonicalBytes (.object (assembled listed))) = .ok (.object (assembled listed)) := by
  have hcost : ∀ m ∈ listed, memberCost m ≤ 100000 := by
    intro m hm
    have hname := length_writeString m.1
    have hmoderate := (hvalues m hm).short
    have := hshort m hm
    unfold memberCost
    omega
  have hdepth := assembled_depth hnames fun m hm => (hvalues m hm).shallow
  have hlength := length_assembled hnames hcost
  refine parse_canonicalBytes (assembled_wellFormed hnames fun m hm => (hvalues m hm).wellFormed)
    ((Nat.le_of_lt_succ hdepth).trans (by decide)) (hlength.trans ?_)
  have hbound : DEFAULT_MAX_BYTES = 8388608 := rfl
  omega

/-! ## A signature over the other members -/

/-- What was set last is removed again. -/
theorem remove_assembled {listed name v} (hnames : ((listed ++ [(name, v)]).map Prod.fst).Nodup) :
    Object.remove name (assembled (listed ++ [(name, v)])) = assembled listed := by
  rw [map_append, nodup_append] at hnames
  obtain ⟨-, hperm⟩ := assembled_sorted hnames.1
  have hfresh : name ∉ (assembled listed).map Prod.fst := by
    intro hmem
    exact hnames.2.2 name ((hperm.map Prod.fst).mem_iff.mp hmem) name (by simp) rfl
  rw [← set_assembled]
  exact eraseP_upsert hfresh

end AgentArchivist.Protocol.Document
