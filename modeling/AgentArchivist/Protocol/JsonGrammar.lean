import AgentArchivist.Protocol.Json

/-! # JSON texts and what they denote

The RFC 8259 grammar as a relation between byte strings and syntax trees, written
without reference to the parser: characters rather than byte runs, and an escape
`\u` as the spelling of a character's UTF-16 code units. A tree keeps the members
of an object in the order of the text and the parts of a number, and forgets
whitespace and how characters were spelled. `InDomain` is the protocol's value
domain, `denote` the value of a tree in it. -/
namespace AgentArchivist.Protocol.JsonGrammar
open Lib List
open Protocol.Json Decimal SortedMap Utf8 Utf16

/-! ## Trees -/

/-- `frac`: nothing, or a point and digits. -/
def FractionText (text : List UInt8) : Prop :=
  text = [] ∨ ∃ ds, ds ≠ [] ∧ ds.all isDigit = true ∧ text = 0x2e :: ds

/-- `exp`: nothing, or `e` or `E`, an optional sign and digits. -/
def ExponentText (text : List UInt8) : Prop :=
  text = [] ∨ ∃ e sign ds, (e = 0x65 ∨ e = 0x45) ∧ (sign = [] ∨ sign = [0x2b] ∨ sign = [0x2d]) ∧
    ds ≠ [] ∧ ds.all isDigit = true ∧ text = e :: (sign ++ ds)

/-- A number as it is spelled: `[ minus ] int [ frac ] [ exp ]`. -/
structure Number where
  negative : Bool
  whole : List UInt8
  fraction : List UInt8
  exponent : List UInt8
  whole_text : Whole whole
  fraction_text : FractionText fraction
  exponent_text : ExponentText exponent

def Number.bytes (n : Number) : List UInt8 :=
  (if n.negative then [0x2d] else []) ++ n.whole ++ n.fraction ++ n.exponent

/-- The integer part, with its sign. -/
def Number.integer (n : Number) : Int :=
  if n.negative then -(valueFrom 0 n.whole : Int) else valueFrom 0 n.whole

inductive Tree where
  | null
  | bool (b : Bool)
  | number (n : Number)
  | text (s : String)
  | array (items : List Tree)
  | object (members : List (String × Tree))

/-! ## Texts -/

/-- `ws`. -/
def Blank (text : List UInt8) : Prop := ∀ b ∈ text, b = 0x20 ∨ b = 0x09 ∨ b = 0x0a ∨ b = 0x0d

/-- A character that may stand in a string as itself. -/
def Unescaped (c : Char) : Prop := c ≠ '\x22' ∧ c ≠ '\x5c' ∧ 0x20 ≤ c.toNat

/-- A hex digit, in either case, and its value. -/
def HexDigit (b : UInt8) (n : Nat) : Prop :=
  n < 10 ∧ b.toNat = 0x30 + n ∨
    10 ≤ n ∧ n < 16 ∧ (b.toNat = 0x61 + (n - 10) ∨ b.toNat = 0x41 + (n - 10))

/-- Four hex digits and their value. -/
inductive HexQuad : List UInt8 → Nat → Prop where
  | mk {a b c d : UInt8} {w x y z : Nat} : HexDigit a w → HexDigit b x → HexDigit c y →
      HexDigit d z → HexQuad [a, b, c, d] (w * 0x1000 + x * 0x100 + y * 0x10 + z)

/-- `\u` and four hex digits that spell a code unit. -/
inductive UnitText : List UInt8 → UInt16 → Prop where
  | mk {quad : List UInt8} {n : Nat} : HexQuad quad n →
      UnitText (0x5c :: 0x75 :: quad) (UInt16.ofNat n)

/-- An escape sequence and the character it stands for. -/
inductive EscapeText : List UInt8 → Char → Prop where
  | quote : EscapeText [0x5c, 0x22] '\x22'
  | backslash : EscapeText [0x5c, 0x5c] '\x5c'
  | slash : EscapeText [0x5c, 0x2f] '/'
  | backspace : EscapeText [0x5c, 0x62] '\x08'
  | formFeed : EscapeText [0x5c, 0x66] '\x0c'
  | lineFeed : EscapeText [0x5c, 0x6e] '\n'
  | carriageReturn : EscapeText [0x5c, 0x72] '\r'
  | tab : EscapeText [0x5c, 0x74] '\t'
  /-- A character of the basic plane. -/
  | unit {text : List UInt8} {u : UInt16} {c : Char} : UnitText text u → encodeChar c = [u] →
      EscapeText text c
  /-- A character above it, as a surrogate pair. -/
  | pair {high low : List UInt8} {u v : UInt16} {c : Char} : UnitText high u → UnitText low v →
      encodeChar c = [u, v] → EscapeText (high ++ low) c

/-- The characters between the quotes of a string. -/
inductive StringBody : List UInt8 → List Char → Prop where
  | nil : StringBody [] []
  | plain {c : Char} {text : List UInt8} {cs : List Char} : Unescaped c → StringBody text cs →
      StringBody (String.utf8EncodeChar c ++ text) (c :: cs)
  | escape {seq : List UInt8} {c : Char} {text : List UInt8} {cs : List Char} :
      EscapeText seq c → StringBody text cs → StringBody (seq ++ text) (c :: cs)

def StringText (text : List UInt8) (s : String) : Prop :=
  ∃ body, StringBody body s.toList ∧ text = 0x22 :: (body ++ [0x22])

mutual
/-- `value`. -/
inductive ValueText : List UInt8 → Tree → Prop where
  | null : ValueText (utf8 "null") .null
  | true : ValueText (utf8 "true") (.bool true)
  | false : ValueText (utf8 "false") (.bool false)
  | number (n : Number) : ValueText n.bytes (.number n)
  | text {text : List UInt8} {s : String} : StringText text s → ValueText text (.text s)
  | emptyArray {w : List UInt8} : Blank w → ValueText (0x5b :: (w ++ [0x5d])) (.array [])
  | array {text : List UInt8} {items : List Tree} : ItemsText text items →
      ValueText (0x5b :: (text ++ [0x5d])) (.array items)
  | emptyObject {w : List UInt8} : Blank w → ValueText (0x7b :: (w ++ [0x7d])) (.object [])
  | object {text : List UInt8} {members : List (String × Tree)} : MembersText text members →
      ValueText (0x7b :: (text ++ [0x7d])) (.object members)
/-- One or more values, separated by commas. -/
inductive ItemsText : List UInt8 → List Tree → Prop where
  | one {w text w' : List UInt8} {t : Tree} : Blank w → ValueText text t → Blank w' →
      ItemsText (w ++ text ++ w') [t]
  | cons {w text w' rest : List UInt8} {t : Tree} {ts : List Tree} : Blank w →
      ValueText text t → Blank w' → ItemsText rest ts →
      ItemsText (w ++ text ++ w' ++ 0x2c :: rest) (t :: ts)
/-- One or more members, separated by commas. -/
inductive MembersText : List UInt8 → List (String × Tree) → Prop where
  | one {text : List UInt8} {m : String × Tree} : MemberText text m → MembersText text [m]
  | cons {text rest : List UInt8} {m : String × Tree} {ms : List (String × Tree)} :
      MemberText text m → MembersText rest ms → MembersText (text ++ 0x2c :: rest) (m :: ms)
/-- `string name-separator value`, with the whitespace around it. -/
inductive MemberText : List UInt8 → String × Tree → Prop where
  | mk {w name w₁ w₂ text w' : List UInt8} {s : String} {t : Tree} : Blank w →
      StringText name s → Blank w₁ → Blank w₂ → ValueText text t → Blank w' →
      MemberText (w ++ name ++ w₁ ++ 0x3a :: (w₂ ++ text ++ w')) (s, t)
end

/-- `JSON-text = ws value ws`. -/
def JsonText (text : List UInt8) (t : Tree) : Prop :=
  ∃ w body w', Blank w ∧ ValueText body t ∧ Blank w' ∧ text = w ++ body ++ w'

/-! ## The value domain -/

/-- Numbers are integers within `i64`, and no object names a member twice. -/
inductive InDomain : Tree → Prop where
  | null : InDomain .null
  | bool (b : Bool) : InDomain (.bool b)
  | number {n : Number} : n.fraction = [] → n.exponent = [] →
      -2 ^ 63 ≤ n.integer ∧ n.integer < 2 ^ 63 → InDomain (.number n)
  | text (s : String) : InDomain (.text s)
  | array {items : List Tree} : (∀ t ∈ items, InDomain t) → InDomain (.array items)
  | object {members : List (String × Tree)} : (members.map Prod.fst).Nodup →
      (∀ m ∈ members, InDomain m.2) → InDomain (.object members)

mutual
/-- The most arrays and objects around any value of the tree. -/
def depth : Tree → Nat
  | .array items => depthItems items
  | .object members => depthMembers members
  | _ => 0
def depthItems : List Tree → Nat
  | [] => 0
  | t :: ts => max (depth t + 1) (depthItems ts)
def depthMembers : List (String × Tree) → Nat
  | [] => 0
  | (_, t) :: ms => max (depth t + 1) (depthMembers ms)
end

mutual
/-- The value of a tree in the domain: members in canonical order. -/
def denote : Tree → Value
  | .null => .null
  | .bool b => .bool b
  | .number n => .int (Int64.ofInt n.integer)
  | .text s => .text s
  | .array items => .array (denoteItems items)
  | .object members => .object (sort cmpUtf16 (denoteMembers members))
def denoteItems : List Tree → List Value
  | [] => []
  | t :: ts => denote t :: denoteItems ts
def denoteMembers : List (String × Tree) → List (String × Value)
  | [] => []
  | (name, t) :: ms => (name, denote t) :: denoteMembers ms
end

/-- Trees that differ in the order of members. -/
inductive Reordered : Tree → Tree → Prop where
  | refl (t : Tree) : Reordered t t
  | trans {t t' t'' : Tree} : Reordered t t' → Reordered t' t'' → Reordered t t''
  | members {ms ms' : List (String × Tree)} : ms.Perm ms' → Reordered (.object ms) (.object ms')
  | inItem {a b : List Tree} {t t' : Tree} : Reordered t t' →
      Reordered (.array (a ++ t :: b)) (.array (a ++ t' :: b))
  | inMember {a b : List (String × Tree)} {name : String} {t t' : Tree} : Reordered t t' →
      Reordered (.object (a ++ (name, t) :: b)) (.object (a ++ (name, t') :: b))

/-! ## Depth and denotation of the parts -/

theorem depthItems_lt {n} : ∀ {ts : List Tree},
    depthItems ts < n + 1 ↔ ∀ t ∈ ts, depth t < n
  | [] => by simp [depthItems]
  | t :: ts => by
    have ih := @depthItems_lt n ts
    simp only [depthItems, forall_mem_cons, ← ih]
    omega

theorem depthMembers_lt {n} : ∀ {ms : List (String × Tree)},
    depthMembers ms < n + 1 ↔ ∀ m ∈ ms, depth m.2 < n
  | [] => by simp [depthMembers]
  | (name, t) :: ms => by
    have ih := @depthMembers_lt n ms
    simp only [depthMembers, forall_mem_cons, ← ih]
    omega

theorem denoteItems_eq_map : ∀ ts : List Tree, denoteItems ts = ts.map denote
  | [] => rfl
  | t :: ts => by rw [denoteItems, denoteItems_eq_map ts, map_cons]

theorem denoteMembers_eq_map : ∀ ms : List (String × Tree),
    denoteMembers ms = ms.map fun m => (m.1, denote m.2)
  | [] => rfl
  | (name, t) :: ms => by rw [denoteMembers, denoteMembers_eq_map ms, map_cons]

theorem denoteMembers_names (ms : List (String × Tree)) :
    (denoteMembers ms).map Prod.fst = ms.map Prod.fst := by
  rw [denoteMembers_eq_map, map_map]
  rfl

/-- A tree in the domain denotes a well-formed value. -/
theorem wellFormed_denote {t} (h : InDomain t) : WellFormed (denote t) := by
  induction h with
  | null => exact .null
  | bool b => exact .bool b
  | number => exact .int _
  | text s => exact .text s
  | @array items _ ih =>
    rw [denote, denoteItems_eq_map]
    refine .array ?_
    intro v hv
    obtain ⟨t, ht, rfl⟩ := mem_map.mp hv
    exact ih t ht
  | @object members hnodup _ ih =>
    have hnames : ((denoteMembers members).map Prod.fst).Nodup := by
      rwa [denoteMembers_names]
    refine .object (sort_sorted hnames) ?_
    intro m hm
    have hm' := (sort_perm (denoteMembers members)).mem_iff.mp hm
    rw [denoteMembers_eq_map] at hm'
    obtain ⟨x, hx, rfl⟩ := mem_map.mp hm'
    exact ih x hx

/-! ## Member order -/

theorem inDomain_array {items} : InDomain (.array items) ↔ ∀ t ∈ items, InDomain t :=
  ⟨fun h => by cases h with | array h => exact h, .array⟩

theorem inDomain_object {members} :
    InDomain (.object members) ↔
      (members.map Prod.fst).Nodup ∧ ∀ m ∈ members, InDomain m.2 :=
  ⟨fun h => by cases h with | object h h' => exact ⟨h, h'⟩, fun h => .object h.1 h.2⟩

theorem depth_array {items n} :
    depth (.array items) < n + 1 ↔ ∀ t ∈ items, depth t < n := depthItems_lt

theorem depth_object {members n} :
    depth (.object members) < n + 1 ↔ ∀ m ∈ members, depth m.2 < n := depthMembers_lt

theorem Reordered.inDomain {t t'} (h : Reordered t t') : InDomain t ↔ InDomain t' := by
  induction h with
  | refl t => rfl
  | trans _ _ ih ih' => exact ih.trans ih'
  | members hp =>
    rw [inDomain_object, inDomain_object, (hp.map Prod.fst).nodup_iff]
    simp [hp.mem_iff]
  | inItem _ ih => simp only [inDomain_array, forall_mem_append, forall_mem_cons, ih]
  | inMember _ ih =>
    simp only [inDomain_object, map_append, map_cons, forall_mem_append,
      forall_mem_cons, ih]

theorem Reordered.depth_lt {t t'} (h : Reordered t t') : ∀ n, depth t < n ↔ depth t' < n := by
  induction h with
  | refl t => exact fun n => Iff.rfl
  | trans _ _ ih ih' => exact fun n => (ih n).trans (ih' n)
  | members hp =>
    intro n
    cases n with
    | zero => simp
    | succ n => simp only [depth_object, hp.mem_iff]
  | inItem _ ih =>
    intro n
    cases n with
    | zero => simp
    | succ n => simp only [depth_array, forall_mem_append, forall_mem_cons, ih n]
  | inMember _ ih =>
    intro n
    cases n with
    | zero => simp
    | succ n => simp only [depth_object, forall_mem_append, forall_mem_cons, ih n]

/-- What a text denotes does not depend on the order of members. -/
theorem Reordered.denote_eq {t t'} (h : Reordered t t') (hd : InDomain t) :
    denote t = denote t' := by
  induction h with
  | refl t => rfl
  | trans h _ ih ih' => exact (ih hd).trans (ih' (h.inDomain.mp hd))
  | @members ms ms' hp =>
    have hnames : ((denoteMembers ms).map Prod.fst).Nodup := by
      rw [denoteMembers_names]
      exact (inDomain_object.mp hd).1
    have hperm : (denoteMembers ms).Perm (denoteMembers ms') := by
      rw [denoteMembers_eq_map, denoteMembers_eq_map]
      exact hp.map _
    rw [denote, denote, sort_eq_of_perm hperm hnames]
  | @inItem a b t t' _ ih =>
    have ht : InDomain t := inDomain_array.mp hd t (by simp)
    simp [denote, denoteItems_eq_map, ih ht]
  | @inMember a b name t t' _ ih =>
    have ht : InDomain t := (inDomain_object.mp hd).2 (name, t) (by simp)
    simp [denote, denoteMembers_eq_map, ih ht]

end AgentArchivist.Protocol.JsonGrammar
