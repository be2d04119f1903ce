import AgentArchivist.Protocol.JsonString

/-! # The parser accepts its grammar

`Reads room item` says that a parser of values reads exactly the texts of trees in
the domain that are less than `room` deep. Given it for the parts of an array or an
object, it holds for the whole (`value_reads`, by induction on the room), and
`parseWithLimits` adds the whitespace around the text and the length bound. -/
namespace AgentArchivist.Protocol.JsonAccept
open Lib List
open Json JsonGrammar JsonTokens JsonString Fallible Fallible.Cursor SortedMap Utf8 Utf16 Decimal

/-- A tree the parser has room for. -/
def Fits (room : Nat) (t : Tree) : Prop := InDomain t ∧ depth t < room

/-- A step that reads the texts of the trees there is room for, and only those. -/
structure Reads (room : Nat) (item : Cursor UInt8 → Result (Value × Cursor UInt8)) : Prop where
  sound : ∀ {c c' : Cursor UInt8} {v : Value}, item c = .ok (v, c') →
    ∃ text t, ValueText text t ∧ Fits room t ∧ v = denote t ∧ Spans c text c'
  complete : ∀ {c c' : Cursor UInt8} {text : List UInt8} {t : Tree}, ValueText text t →
    Fits room t → Spans c text c' → Ends c' → item c = .ok (denote t, c')

variable {c c' : Cursor UInt8} {room : Nat}
  {item : Cursor UInt8 → Result (Value × Cursor UInt8)}

/-! ## Where texts begin and end -/

theorem blank_append {w w'} (h : Blank w) (h' : Blank w') : Blank (w ++ w') := by
  intro b hb
  rcases mem_append.mp hb with hb | hb
  · exact h b hb
  · exact h' b hb

theorem blank_nil : Blank [] := fun _ h => by cases h

/-- The bytes a value can begin with. -/
def startsValue (b : UInt8) : Bool :=
  b == 0x7b || b == 0x5b || b == 0x22 || b == 0x74 || b == 0x66 || b == 0x6e || b == 0x2d ||
    isDigit b

theorem startsValue_spec {b} (h : startsValue b = true) : isWs b = false ∧ b ≠ 0x5d ∧ b ≠ 0x7d := by
  refine ⟨Bool.eq_false_iff.mpr ?_, ?_, ?_⟩
  · intro hw
    rcases isWs_iff.mp hw with rfl | rfl | rfl | rfl <;> cases h
  all_goals
    rintro rfl
    cases h

/-- A number is told by its first byte. -/
theorem number_head (n : Number) :
    ∃ b rest, n.bytes = b :: rest ∧ (b == 0x2d || isDigit b) = true := by
  obtain ⟨d, rest, hd, hdigit⟩ := n.whole_text.head
  unfold Number.bytes
  cases n.negative with
  | true => exact ⟨0x2d, _, rfl, rfl⟩
  | false =>
    rw [hd]
    exact ⟨d, _, rfl, by simp [hdigit]⟩

theorem valueText_head {text t} (h : ValueText text t) :
    ∃ b rest, text = b :: rest ∧ startsValue b = true := by
  cases h with
  | null => exact ⟨0x6e, _, rfl, rfl⟩
  | true => exact ⟨0x74, _, rfl, rfl⟩
  | false => exact ⟨0x66, _, rfl, rfl⟩
  | number n =>
    obtain ⟨b, rest, hb, hstart⟩ := number_head n
    refine ⟨b, rest, hb, ?_⟩
    rw [startsValue, Bool.or_assoc, hstart, Bool.or_true]
  | text h =>
    obtain ⟨body, -, rfl⟩ := h
    exact ⟨0x22, _, rfl, rfl⟩
  | emptyArray | array => exact ⟨0x5b, _, rfl, rfl⟩
  | emptyObject | object => exact ⟨0x7b, _, rfl, rfl⟩

/-- Skipping whitespace finds the value behind it. -/
theorem skipWs_value {w text : List UInt8} {t : Tree} (hw : Blank w) (ht : ValueText text t)
    (hs : Spans c (w ++ text) c') : Spans (skipWs c) text c' := by
  obtain ⟨c1, hblank, htext⟩ := hs.split
  obtain ⟨b, rest, rfl, hb⟩ := valueText_head ht
  rw [skipWs_eq hblank hw]
  · exact htext
  intro a ha
  rw [htext.peek] at ha
  cases ha
  exact (startsValue_spec hb).1

/-- The bytes that may follow a value: whitespace, a comma or a closing bracket. -/
theorem ends_of_delimiter (h : ∀ b, c.peek = some b → isWs b = true ∨ b = 0x2c ∨ b = 0x5d ∨ b = 0x7d) :
    Ends c := by
  intro b hb
  rcases h b hb with hw | rfl | rfl | rfl
  · rcases isWs_iff.mp hw with rfl | rfl | rfl | rfl <;> exact ⟨rfl, rfl⟩
  · exact ⟨rfl, rfl⟩
  · exact ⟨rfl, rfl⟩
  · exact ⟨rfl, rfl⟩

theorem ends_before {w rest b} (hw : Blank w) (hb : b = 0x2c ∨ b = 0x5d ∨ b = 0x7d)
    (hs : Spans c (w ++ b :: rest) c') : Ends c := by
  refine ends_of_delimiter ?_
  intro a ha
  cases w with
  | nil =>
    rw [hs.peek] at ha
    cases ha
    exact .inr hb
  | cons x w =>
    rw [hs.peek] at ha
    cases ha
    exact .inl (isWs_iff.mpr (hw a (mem_cons_self ..)))

theorem isWs_delimiter {b} (h : b = 0x2c ∨ b = 0x5d ∨ b = 0x7d) : isWs b = false := by
  rcases h with rfl | rfl | rfl <;> rfl

/-- Skipping whitespace finds the delimiter behind it. -/
theorem skipWs_delimiter {w rest b} (hw : Blank w) (hb : isWs b = false)
    (hs : Spans c (w ++ b :: rest) c') : Spans (skipWs c) (b :: rest) c' := by
  obtain ⟨c1, hblank, hrest⟩ := hs.split
  rw [skipWs_eq hblank hw]
  · exact hrest
  intro a ha
  rw [hrest.peek] at ha
  cases ha
  exact hb

variable {v : Value} {name : String}

theorem skipWs_skipWs (c : Cursor UInt8) : skipWs (skipWs c) = skipWs c := by
  refine skipWs_eq (Spans.nil _) blank_nil fun b hb => ?_
  exact peek_skipWhile hb

theorem foldlM_snoc {α : Type} {out xs : List α} : xs.foldlM (fun out v => some (out ++ [v])) out = some (out ++ xs) := by
  induction xs generalizing out with
  | nil => simp
  | cons x xs ih => simp [ih]

/-! ## Lists -/

/-- One or more, separated by commas. -/
inductive Listed {τ : Type} (One : List UInt8 → τ → Prop) : List UInt8 → List τ → Prop
  | one {text t} : One text t → Listed One text [t]
  | cons {text rest t ts} : One text t → Listed One rest ts →
      Listed One (text ++ 0x2c :: rest) (t :: ts)

theorem itemsText_iff : ∀ {ts : List Tree} {text}, ItemsText text ts ↔ Listed JsonText text ts
  | [], _ => ⟨nofun, nofun⟩
  | t :: ts, text => by
    constructor
    · intro h
      cases h with
      | one hw ht hw' => exact .one ⟨_, _, _, hw, ht, hw', rfl⟩
      | cons hw ht hw' hrest => exact .cons ⟨_, _, _, hw, ht, hw', rfl⟩ (itemsText_iff.mp hrest)
    · intro h
      cases h with
      | one h =>
        obtain ⟨_, _, _, hw, ht, hw', rfl⟩ := h
        exact .one hw ht hw'
      | cons h hrest =>
        obtain ⟨_, _, _, hw, ht, hw', rfl⟩ := h
        exact .cons hw ht hw' (itemsText_iff.mpr hrest)

theorem membersText_iff : ∀ {ms : List (String × Tree)} {text},
    MembersText text ms ↔ Listed MemberText text ms
  | [], _ => ⟨nofun, nofun⟩
  | m :: ms, text => by
    constructor
    · intro h
      cases h with
      | one h => exact .one h
      | cons h hrest => exact .cons h (membersText_iff.mp hrest)
    · intro h
      cases h with
      | one h => exact .one h
      | cons h hrest => exact .cons h (membersText_iff.mpr hrest)

/-- An array and an object: brackets around whitespace, or around what `read` finds. -/
def bracketed {α} (opened closed : UInt8) (wrap : List α → Value)
    (read : Cursor UInt8 → Result (List α × Cursor UInt8)) (c : Cursor UInt8) :
    Result (Value × Cursor UInt8) := do
  let c ← expect opened c
  let c := skipWs c
  if c.peek = some closed then .ok (wrap [], c.advance 1)
  else
    let (out, c) ← read c
    .ok (wrap out, c)

theorem bracketed_ok {α opened closed} {wrap : List α → Value} {read} :
    bracketed opened closed wrap read c = .ok (v, c') ↔ ∃ c₁, Spans c [opened] c₁ ∧
      ((skipWs c₁).peek = some closed ∧ (v, c') = (wrap [], (skipWs c₁).advance 1) ∨
        (skipWs c₁).peek ≠ some closed ∧ ∃ out, v = wrap out ∧
          read (skipWs c₁) = .ok (out, c')) := by
  simp only [bracketed, bind_eq_ok, expect_ok]
  refine exists_congr fun c₁ => and_congr_right fun _ => ?_
  split
  case isTrue hp => simp [hp, eq_comm]
  case isFalse hp =>
    simp only [bind_eq_ok, Prod.exists, Except.ok.injEq, Prod.mk.injEq, hp, false_and, ne_eq,
      not_false_iff, true_and, false_or]
    constructor
    · intro ⟨out, c2, h, hv, hc⟩
      exact ⟨out, hv.symm, hc ▸ h⟩
    · intro ⟨out, hv, h⟩
      exact ⟨out, c', h, hv.symm, rfl⟩

section
variable {τ α : Type}

/-- An array or an object. `one` reads an entry behind any whitespace, `push` adds it to those
before, and `read` reads the entries up to the closing bracket. -/
structure Container (room : Nat) (opened closed : UInt8) (One : List UInt8 → τ → Prop)
    (fits : τ → Prop) (val : τ → α) (tree : List τ → Tree) (wrap : List α → Value)
    (push : List α → α → Option (List α)) (one : Cursor UInt8 → Result (α × Cursor UInt8))
    (read : Nat → List α → Cursor UInt8 → Result (List α × Cursor UInt8)) : Prop where
  skips : ∀ c, one (skipWs c) = one c
  starts : ∀ {c r}, one c = .ok r → ∃ b, (skipWs c).peek = some b ∧ startsValue b = true
  sound : ∀ {c c' a}, one c = .ok (a, c') → ∃ text t, (∀ w', Blank w' → One (text ++ w') t) ∧
    fits t ∧ a = val t ∧ Spans c text c'
  complete : ∀ {text t c c' b rest}, One text t → fits t → b = 0x2c ∨ b = 0x5d ∨ b = 0x7d →
    Spans c (text ++ b :: rest) c' →
    ∃ c₁, one c = .ok (val t, c₁) ∧ Spans (skipWs c₁) (b :: rest) c'
  closing : closed = 0x5d ∨ closed = 0x7d
  zero : ∀ {out c r}, read 0 out c ≠ .ok r
  succ : ∀ {fuel out c r}, read (fuel + 1) out c = .ok r ↔ ∃ a c₁ out', one c = .ok (a, c₁) ∧
    push out a = some out' ∧
    ((skipWs c₁).peek = some 0x2c ∧ read fuel out' ((skipWs c₁).advance 1) = .ok r ∨
      (skipWs c₁).peek = some closed ∧ r = (out', (skipWs c₁).advance 1))
  empty : ∀ {w}, Blank w → ValueText (opened :: (w ++ [closed])) (tree [])
  full : ∀ {text ts}, Listed One text ts → ValueText (opened :: (text ++ [closed])) (tree ts)
  fitting : ∀ {ts}, Fits (room + 1) (tree ts) ↔
    (∀ t ∈ ts, fits t) ∧ ∃ out, (ts.map val).foldlM push [] = some out
  denotes : ∀ {ts out}, (ts.map val).foldlM push [] = some out → wrap out = denote (tree ts)

variable {opened closed : UInt8} {One : List UInt8 → τ → Prop} {fits : τ → Prop} {val : τ → α}
  {tree : List τ → Tree} {wrap : List α → Value} {push : List α → α → Option (List α)}
  {one : Cursor UInt8 → Result (α × Cursor UInt8)}
  {read : Nat → List α → Cursor UInt8 → Result (List α × Cursor UInt8)}

namespace Container
variable (h : Container room opened closed One fits val tree wrap push one read)
include h

theorem read_skipWs {fuel out r} : read fuel out (skipWs c) = .ok r ↔ read fuel out c = .ok r := by
  cases fuel with
  | zero => exact iff_of_false h.zero h.zero
  | succ fuel => rw [h.succ, h.succ, h.skips]

theorem read_sound {fuel out out'} (hread : read fuel out c = .ok (out', c')) :
    ∃ text ts, Listed One text ts ∧ (∀ t ∈ ts, fits t) ∧ (ts.map val).foldlM push out = some out' ∧
      Spans c (text ++ [closed]) c' := by
  induction fuel generalizing out c with
  | zero => exact absurd hread h.zero
  | succ fuel ih =>
    obtain ⟨a, c₁, out₁, hone, hpush, hrest⟩ := h.succ.mp hread
    obtain ⟨text, t, htext, ht, rfl, hs⟩ := h.sound hone
    obtain ⟨w', hw', hws'⟩ := skipWs_spans c₁
    rcases hrest with ⟨hcomma, hrest⟩ | ⟨hclose, heq⟩
    · obtain ⟨rest, ts, hlisted, hts, hfold, hs'⟩ := ih hrest
      refine ⟨text ++ w' ++ 0x2c :: rest, t :: ts, .cons (htext w' hw') hlisted,
        forall_mem_cons.mpr ⟨ht, hts⟩, ?_, ?_⟩
      · rw [map_cons, foldlM_cons, hpush]
        exact hfold
      have hmore : Spans (skipWs c₁) (0x2c :: (rest ++ [closed])) c' :=
        spans_cons.mpr ⟨hcomma, hs'⟩
      rw [append_assoc]
      exact (hs.append hws').append hmore
    · obtain ⟨rfl, rfl⟩ := Prod.mk.inj heq
      exact ⟨text ++ w', [t], .one (htext w' hw'), forall_mem_singleton.mpr ht, by simp [hpush],
        (hs.append hws').append (spans_peek hclose)⟩

theorem read_complete {text ts out out'} (hlisted : Listed One text ts) (hts : ∀ t ∈ ts, fits t)
    (hfold : (ts.map val).foldlM push out = some out') (hs : Spans c (text ++ [closed]) c') {fuel}
    (hfuel : (skipWs c).rest.length ≤ fuel) : read (fuel + 1) out c = .ok (out', c') := by
  induction hlisted generalizing fuel out c with
  | one hone =>
    obtain ⟨c₁, hread, hafter⟩ := h.complete hone (hts _ (mem_singleton_self _)) (.inr h.closing) hs
    obtain ⟨hp, hnil⟩ := spans_cons.mp hafter
    obtain rfl := spans_nil.mp hnil
    exact h.succ.mpr ⟨_, _, out', hread, by simpa using hfold, .inr ⟨hp, rfl⟩⟩
  | cons hone _ ih =>
    obtain ⟨ht, hts⟩ := forall_mem_cons.mp hts
    obtain ⟨out₁, hpush, hfold⟩ := Option.bind_eq_some_iff.mp hfold
    rw [append_assoc] at hs
    obtain ⟨c₁, hread, hafter⟩ := h.complete hone ht (.inl rfl) hs
    obtain ⟨hp, hmore⟩ := spans_cons.mp hafter
    -- the comma alone makes what is left shorter
    obtain ⟨_, _, -, -, -, hentry⟩ := h.sound ((h.skips c).trans hread)
    obtain ⟨_, -, hblank⟩ := skipWs_spans c₁
    obtain ⟨_, -, hnext⟩ := skipWs_spans ((skipWs c₁).advance 1)
    have hlength := hentry.length.trans (congrArg _ (hblank.length.trans (congrArg _
      ((spans_peek hp).length.trans (congrArg _ hnext.length)))))
    obtain ⟨fuel, rfl⟩ := Nat.exists_eq_succ_of_ne_zero (by simp at hlength; omega : fuel ≠ 0)
    refine h.succ.mpr ⟨_, _, out₁, hread, hpush, .inl ⟨hp, ih hts hfold hmore ?_⟩⟩
    simp at hlength
    omega

theorem reads_sound {v} (hok : bracketed opened closed wrap (fun c => read (c.rest.length + 1) [] c) c =
      .ok (v, c')) :
    ∃ text t, ValueText text t ∧ Fits (room + 1) t ∧ v = denote t ∧ Spans c text c' := by
  obtain ⟨c1, hopen, hread⟩ := bracketed_ok.mp hok
  rcases hread with ⟨hclose, heq⟩ | ⟨-, out, rfl, hread⟩
  · obtain ⟨rfl, rfl⟩ := Prod.mk.inj heq
    obtain ⟨w, hw, hws⟩ := skipWs_spans c1
    exact ⟨_, tree [], h.empty hw, h.fitting.mpr ⟨by simp, [], rfl⟩, h.denotes rfl,
      hopen.append (hws.append (spans_peek hclose))⟩
  · obtain ⟨text, ts, htext, hts, hfold, hs⟩ := h.read_sound (h.read_skipWs.mp hread)
    exact ⟨_, tree ts, h.full htext, h.fitting.mpr ⟨hts, out, hfold⟩, h.denotes hfold,
      hopen.append hs⟩

theorem reads_complete {text ts} (hlisted : Listed One text ts) (hfits : Fits (room + 1) (tree ts))
    (hs : Spans c (opened :: (text ++ [closed])) c') :
    bracketed opened closed wrap (fun c => read (c.rest.length + 1) [] c) c =
      .ok (denote (tree ts), c') := by
  obtain ⟨hp, hs⟩ := spans_cons.mp hs
  obtain ⟨hts, out, hfold⟩ := h.fitting.mp hfits
  have hread := h.read_complete hlisted hts hfold hs (Nat.le_refl _)
  refine bracketed_ok.mpr ⟨c.advance 1, spans_peek hp, .inr ⟨?_, out, (h.denotes hfold).symm,
    h.read_skipWs.mpr hread⟩⟩
  obtain ⟨_, _, _, hone, -⟩ := h.succ.mp hread
  obtain ⟨b, hb, hstarts⟩ := h.starts hone
  obtain ⟨-, hne⟩ := startsValue_spec hstarts
  rw [hb]
  rintro ⟨⟩
  exact h.closing.elim hne.1 hne.2

theorem reads_empty {w} (hw : Blank w) (hs : Spans c (opened :: (w ++ [closed])) c') :
    bracketed opened closed wrap (fun c => read (c.rest.length + 1) [] c) c =
      .ok (denote (tree []), c') := by
  obtain ⟨hp, hs⟩ := spans_cons.mp hs
  obtain ⟨hclose, hnil⟩ := spans_cons.mp (skipWs_delimiter hw (isWs_delimiter (.inr h.closing)) hs)
  obtain rfl := spans_nil.mp hnil
  rw [← h.denotes rfl]
  exact bracketed_ok.mpr ⟨_, spans_peek hp, .inl ⟨hclose, rfl⟩⟩

end Container

end

/-! ## Arrays -/

theorem array_container (hi : Reads room item) : Container room 0x5b 0x5d JsonText (Fits room) denote
    .array .array (fun out v => some (out ++ [v])) (fun c => item (skipWs c)) (items item) where
  skips c := congrArg item (skipWs_skipWs c)
  starts := by
    rintro c ⟨v, c'⟩ hread
    obtain ⟨text, t, htext, -, -, hs⟩ := hi.sound hread
    obtain ⟨b, rest, rfl, hb⟩ := valueText_head htext
    exact ⟨b, hs.peek, hb⟩
  sound hread := by
    obtain ⟨text, t, htext, ht, rfl, hs⟩ := hi.sound hread
    obtain ⟨w, hw, hws⟩ := skipWs_spans _
    exact ⟨w ++ text, t, fun w' hw' => ⟨w, text, w', hw, htext, hw', rfl⟩, ht, rfl, hws.append hs⟩
  complete h ht hb hs := by
    obtain ⟨w, text, w', hw, htext, hw', rfl⟩ := h
    rw [append_assoc] at hs
    obtain ⟨c₁, hvalue, hafter⟩ := hs.split
    exact ⟨c₁, hi.complete htext ht (skipWs_value hw htext hvalue) (ends_before hw' hb hafter),
      skipWs_delimiter hw' (isWs_delimiter hb) hafter⟩
  closing := .inl rfl
  zero := nofun
  succ := by
    simp only [items, bind_eq_ok, Prod.exists, Option.some.injEq, exists_and_left,
      exists_eq_left']
    refine exists_congr fun v => exists_congr fun c₁ => and_congr_right fun _ => ?_
    split
    · rename_i hp
      simp [hp]
    · rename_i hp
      simp [hp, eq_comm]
    · rename_i hcomma hclose
      exact ⟨nofun, fun h => h.elim (fun h => (hcomma h.1).elim) (fun h => (hclose h.1).elim)⟩
  empty := .emptyArray
  full h := .array (itemsText_iff.mpr h)
  fitting := by
    intro ts
    unfold Fits
    rw [inDomain_array, depth_array, foldlM_snoc]
    simp [forall_and]
  denotes := by
    intro ts out h
    rw [foldlM_snoc] at h
    cases h
    rw [denote, denoteItems_eq_map]
    rfl

/-! ## Objects -/

theorem stringText_head {text s} (h : StringText text s) : ∃ rest, text = 0x22 :: rest := by
  obtain ⟨body, -, rfl⟩ := h
  exact ⟨_, rfl⟩

theorem member_ok : member item c = .ok ((name, v), c') ↔
    ∃ c₁ c₂, string (skipWs c) = .ok (name, c₁) ∧ Spans (skipWs c₁) [0x3a] c₂ ∧
      item (skipWs c₂) = .ok (v, c') := by
  simp only [member, bind_eq_ok, expect_ok, Prod.exists]
  constructor
  · intro ⟨s, c₁, hs, c₂, hcolon, v', c3, hv, heq⟩
    cases heq
    exact ⟨c₁, c₂, hs, hcolon, hv⟩
  · intro ⟨c₁, c₂, hs, hcolon, hv⟩
    exact ⟨name, c₁, hs, c₂, hcolon, v, c', hv, rfl⟩

theorem insert_ok {ms ms'} :
    Object.insert name v ms = .ok ms' ↔ insertNew cmpUtf16 name v ms = some ms' := by
  unfold Object.insert
  cases insertNew cmpUtf16 name v ms <;> simp

theorem object_container (hi : Reads room item) : Container room 0x7b 0x7d MemberText
    (fun m => Fits room m.2) (fun m => (m.1, denote m.2)) .object .object
    (fun out m => insertNew cmpUtf16 m.1 m.2 out) (member item) (members item) where
  skips c := by
    unfold member
    rw [skipWs_skipWs]
  starts := by
    rintro c ⟨⟨name, v⟩, c'⟩ hread
    obtain ⟨c1, c2, hname, -, -⟩ := member_ok.mp hread
    obtain ⟨nameText, htext, hs⟩ := string_ok.mp hname
    obtain ⟨tail, rfl⟩ := stringText_head htext
    exact ⟨0x22, hs.peek, rfl⟩
  sound := by
    rintro c c' ⟨name, v⟩ hread
    obtain ⟨c1, c2, hname, hcolon, hvalue⟩ := member_ok.mp hread
    obtain ⟨nameText, hnameText, hs⟩ := string_ok.mp hname
    obtain ⟨text, t, htext, ht, rfl, hs'⟩ := hi.sound hvalue
    obtain ⟨w, hw, hws⟩ := skipWs_spans c
    obtain ⟨w1, hw1, hws1⟩ := skipWs_spans c1
    obtain ⟨w2, hw2, hws2⟩ := skipWs_spans c2
    refine ⟨w ++ nameText ++ w1 ++ 0x3a :: (w2 ++ text), (name, t), ?_, ht, rfl, ?_⟩
    · intro w' hw'
      have hm := MemberText.mk hw hnameText hw1 hw2 htext hw'
      rwa [append_assoc, cons_append]
    · exact ((hws.append hs).append hws1).append (hcolon.append (hws2.append hs'))
  complete := by
    intro text m c c' b rest h ht hb hs
    cases h with
    | @mk w nameText w1 w2 text w' _ _ hw hname hw1 hw2 htext hw' =>
      have hsplit : Spans c (w ++ (nameText ++ (w1 ++ 0x3a ::
          (w2 ++ text ++ (w' ++ b :: rest))))) c' := by simpa using hs
      -- the name
      obtain ⟨tail, rfl⟩ := stringText_head hname
      have hstart : Spans (skipWs c) ((0x22 :: tail) ++ (w1 ++ 0x3a ::
          (w2 ++ text ++ (w' ++ b :: rest)))) c' := skipWs_delimiter hw rfl hsplit
      obtain ⟨c₁, hnameSpan, hs1⟩ := hstart.split
      -- the colon
      obtain ⟨hp, hs2⟩ := spans_cons.mp (skipWs_delimiter hw1 rfl hs1)
      -- the value
      obtain ⟨c2, hvalue, hafter⟩ := hs2.split
      have hitem := hi.complete htext ht (skipWs_value hw2 htext hvalue) (ends_before hw' hb hafter)
      exact ⟨c2, member_ok.mpr ⟨c₁, _, string_ok.mpr ⟨_, hname, hnameSpan⟩, spans_peek hp, hitem⟩,
        skipWs_delimiter hw' (isWs_delimiter hb) hafter⟩
  closing := .inr rfl
  zero := nofun
  succ := by
    intro fuel out c r
    simp only [members, bind_eq_ok, Prod.exists, insert_ok]
    constructor
    · intro ⟨name, v, c₁, hm, out', hins, h⟩
      refine ⟨name, v, c₁, out', hm, hins, ?_⟩
      split at h
      · exact .inl ⟨‹_›, h⟩
      · cases h
        exact .inr ⟨‹_›, rfl⟩
      · cases h
    · intro ⟨name, v, c₁, out', hm, hins, h⟩
      refine ⟨name, v, c₁, hm, out', hins, ?_⟩
      rcases h with ⟨hp, h⟩ | ⟨hp, rfl⟩
      · rw [hp]
        exact h
      · rw [hp]
        rfl
  empty := .emptyObject
  full h := .object (membersText_iff.mpr h)
  fitting := by
    intro ms
    unfold Fits
    rw [inDomain_object, depth_object, ← denoteMembers_eq_map]
    simp only [foldlM_insertNew_nil, denoteMembers_names, exists_and_left, exists_eq', and_true]
    constructor
    · exact fun ⟨⟨hnodup, hdom⟩, hdepth⟩ => ⟨fun m hm => ⟨hdom m hm, hdepth m hm⟩, hnodup⟩
    · exact fun ⟨hms, hnodup⟩ => ⟨⟨hnodup, fun m hm => (hms m hm).1⟩, fun m hm => (hms m hm).2⟩
  denotes := by
    intro ms out h
    rw [← denoteMembers_eq_map] at h
    rw [denote, (foldlM_insertNew_nil.mp h).2]

/-! ## Values -/

theorem value_sound (hi : Reads room (value room)) (h : value (room + 1) c = .ok (v, c')) :
    ∃ text t, ValueText text t ∧ Fits (room + 1) t ∧ v = denote t ∧ Spans c text c' := by
  have hflat : ∀ t, InDomain t → depth t = 0 → Fits (room + 1) t :=
    fun t hd h0 => ⟨hd, by omega⟩
  simp only [value] at h
  split at h
  · exact (object_container hi).reads_sound h
  · exact (array_container hi).reads_sound h
  · obtain ⟨⟨s, c1⟩, hstring, h⟩ := bind_eq_ok.mp h
    cases h
    obtain ⟨text, htext, hs⟩ := string_ok.mp hstring
    exact ⟨text, .text s, .text htext, hflat _ (.text s) rfl, rfl, hs⟩
  · obtain ⟨c1, hword, h⟩ := bind_eq_ok.mp h
    cases h
    exact ⟨_, .bool true, .true, hflat _ (.bool true) rfl, rfl, literal_ok.mp hword⟩
  · obtain ⟨c1, hword, h⟩ := bind_eq_ok.mp h
    cases h
    exact ⟨_, .bool false, .false, hflat _ (.bool false) rfl, rfl, literal_ok.mp hword⟩
  · obtain ⟨c1, hword, h⟩ := bind_eq_ok.mp h
    cases h
    exact ⟨_, .null, .null, hflat _ .null rfl, rfl, literal_ok.mp hword⟩
  · split at h
    · obtain ⟨n, hn, hv, hs, -⟩ := number_ok.mp h
      exact ⟨_, .number n, .number n, hflat _ hn rfl, hv, hs⟩
    · cases h
  · cases h

theorem value_number {n : Number} (hs : Spans c n.bytes c') : value (room + 1) c = number c := by
  obtain ⟨b, rest, hb, hstart⟩ := number_head n
  have hp : c.peek = some b := (hb ▸ hs).peek
  simp only [value]
  rw [hp]
  split
  case h_7 _ heq =>
    cases heq
    rw [if_pos hstart]
  all_goals
    rename_i heq
    cases heq <;> cases hstart

theorem value_complete (hi : Reads room (value room)) {text t} (ht : ValueText text t)
    (hfits : Fits (room + 1) t) (hs : Spans c text c') (hends : Ends c') :
    value (room + 1) c = .ok (denote t, c') := by
  simp only [value]
  cases ht with
  | null | true | false =>
    rw [hs.peek]
    exact bind_eq_ok.mpr ⟨c', literal_ok.mpr hs, rfl⟩
  | text htext =>
    obtain ⟨rest, rfl⟩ := stringText_head htext
    rw [hs.peek]
    exact bind_eq_ok.mpr ⟨_, string_ok.mpr ⟨_, htext, hs⟩, rfl⟩
  | number n =>
    rw [← value, value_number hs]
    exact number_ok.mpr ⟨n, hfits.1, rfl, hs, hends⟩
  | emptyArray hw =>
    rw [hs.peek]
    exact (array_container hi).reads_empty hw hs
  | array htext =>
    rw [hs.peek]
    exact (array_container hi).reads_complete (itemsText_iff.mp htext) hfits hs
  | emptyObject hw =>
    rw [hs.peek]
    exact (object_container hi).reads_empty hw hs
  | object htext =>
    rw [hs.peek]
    exact (object_container hi).reads_complete (membersText_iff.mp htext) hfits hs

theorem value_reads : ∀ room : Nat, Reads room (value room)
  | 0 => ⟨nofun, fun _ hfits => absurd hfits.2 (Nat.not_lt_zero _)⟩
  | room + 1 => ⟨value_sound (value_reads room), value_complete (value_reads room)⟩

/-! ## Whole texts -/

/-- A value is read from the input as a text of the grammar around which only whitespace stands. -/
theorem parseWithLimits_ok {input} {maxBytes maxDepth} :
    parseWithLimits input maxBytes maxDepth = .ok v ↔ input.length ≤ maxBytes ∧
      ∃ t, JsonText input t ∧ InDomain t ∧ depth t ≤ maxDepth ∧ denote t = v := by
  have hreads := value_reads (maxDepth + 1)
  unfold parseWithLimits
  constructor
  · intro h
    split at h
    case isTrue => cases h
    case isFalse hlen =>
      obtain ⟨⟨v', c⟩, hvalue, h⟩ := bind_eq_ok.mp h
      simp only at h
      split at h
      case isTrue => cases h
      case isFalse hend =>
        cases h
        obtain ⟨body, t, hbody, ⟨hdom, hdepth⟩, hv, hs⟩ := hreads.sound hvalue
        obtain ⟨w, hw, hws⟩ := skipWs_spans ⟨0, input⟩
        obtain ⟨w', hw', hws'⟩ := skipWs_spans c
        refine ⟨Nat.le_of_not_lt hlen, t, ⟨w, body, w', hw, hbody, hw', ?_⟩, hdom,
          Nat.le_of_lt_succ hdepth, hv.symm⟩
        have hall := ((hws.append hs).append hws').rest
        rwa [not_not.mp hend, append_nil] at hall
  · intro ⟨hlen, t, ⟨w, body, w', hw, hbody, hw', htext⟩, hdom, hdepth, hv⟩
    rw [if_neg (Nat.not_lt_of_le hlen)]
    have hs : Spans ⟨0, input⟩ ((w ++ body) ++ w') ⟨(w ++ body ++ w').length, []⟩ :=
      ⟨by rw [htext, append_nil], (Nat.zero_add _).symm⟩
    obtain ⟨c1, hvalue, hafter⟩ := hs.split
    have hblank : ∀ b, c1.peek = some b → isWs b = true := by
      intro b hb
      obtain ⟨rest, hrest⟩ := head?_eq_some_iff.mp hb
      have hc1 : c1.rest = w' := by rw [hafter.rest, append_nil]
      exact isWs_iff.mpr (hw' b (by rw [← hc1, hrest]; exact mem_cons_self ..))
    have hread := hreads.complete hbody ⟨hdom, Nat.lt_succ_of_le hdepth⟩
      (skipWs_value hw hbody hvalue) (ends_of_delimiter fun b hb => .inl (hblank b hb))
    refine bind_eq_ok.mpr ⟨_, hread, ?_⟩
    have hskip := skipWs_eq hafter hw' nofun
    simp only [hskip, hv]
    rfl

/-- The parser accepts exactly the JSON texts within its bounds whose numbers are
integers of `i64` and whose objects name no member twice, and returns what they
denote, which neither whitespace nor the order of members changes. -/
theorem parse_accepts_grammar (maxBytes maxDepth : Nat) :
    (∀ input v, parseWithLimits input maxBytes maxDepth = .ok v ↔ input.length ≤ maxBytes ∧
      ∃ t, JsonText input t ∧ InDomain t ∧ depth t ≤ maxDepth ∧ denote t = v) ∧
    ∀ input input' t t', JsonText input t → JsonText input' t' → Reordered t t' →
      input.length ≤ maxBytes → input'.length ≤ maxBytes →
      InDomain t → depth t ≤ maxDepth →
      parseWithLimits input maxBytes maxDepth = .ok (denote t) ∧
        parseWithLimits input' maxBytes maxDepth = .ok (denote t) := by
  refine ⟨fun _ _ => parseWithLimits_ok, ?_⟩
  intro input input' t t' ht ht' hre hlen hlen' hdom hdepth
  have hdepth' : depth t' ≤ maxDepth :=
    Nat.le_of_lt_succ ((hre.depth_lt (maxDepth + 1)).mp (Nat.lt_succ_of_le hdepth))
  exact ⟨parseWithLimits_ok.mpr ⟨hlen, t, ht, hdom, hdepth, rfl⟩,
    parseWithLimits_ok.mpr ⟨hlen', t', ht', hre.inDomain.mp hdom, hdepth',
      (hre.denote_eq hdom).symm⟩⟩

/-- The text of a member with a one-letter name and no value. -/
theorem nullMember {ch} (h : Unescaped ch) : MemberText
    (0x22 :: (String.utf8EncodeChar ch ++ [0x22]) ++ 0x3a :: utf8 "null")
    (String.ofList [ch], .null) := by
  have hname : StringText (0x22 :: (String.utf8EncodeChar ch ++ [0x22])) (String.ofList [ch]) := by
    have hbody := StringBody.plain h .nil
    exact ⟨_, by simpa using hbody, rfl⟩
  have hmember := MemberText.mk blank_nil hname blank_nil blank_nil .null blank_nil
  simpa using hmember

theorem parse_accepts_grammar_reordered :
    parseWithLimits (utf8 "\x7b\"a\":null,\"b\":null\x7d") 64 1
        = .ok (denote (.object [("a", .null), ("b", .null)])) ∧
      parseWithLimits (utf8 " \x7b\"b\":null,\"a\":null\x7d\n") 64 1
        = .ok (denote (.object [("a", .null), ("b", .null)])) := by
  have ha : Unescaped 'a' := by
    unfold Unescaped
    decide
  have hb : Unescaped 'b' := by
    unfold Unescaped
    decide
  have hspace : Blank [0x20] := by simp [Blank]
  have hline : Blank [0x0a] := by simp [Blank]
  have hdom : InDomain (.object [("a", .null), ("b", .null)]) := by
    refine inDomain_object.mpr ⟨by decide, ?_⟩
    intro m hm
    simp only [mem_cons, not_mem_nil, or_false] at hm
    rcases hm with rfl | rfl <;> exact .null
  exact (parse_accepts_grammar 64 1).2 _ _ _ (.object [("b", .null), ("a", .null)])
    ⟨[], _, [], blank_nil, .object (.cons (nullMember ha) (.one (nullMember hb))), blank_nil,
      by decide⟩
    ⟨[0x20], _, [0x0a], hspace, .object (.cons (nullMember hb) (.one (nullMember ha))), hline,
      by decide⟩
    (.members (List.Perm.swap ..)) (by decide) (by decide) hdom (by decide)

end AgentArchivist.Protocol.JsonAccept
