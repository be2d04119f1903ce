import AgentArchivist.Protocol.ArtifactDocument

/-! # What is read as an inference artifact

A record is read from exactly the object it is written to, where it is `Valid`
(`fromValue_iff`): the payload and the metadata by the same rule for their own objects,
and the members of the kind one kind at a time. -/
namespace AgentArchivist.Protocol.InferenceArtifact
open Lib
open Fallible OptionalEntries SortedMap Utf16
open AgentArchivist.Protocol.IngestEnvelope (textValue)
open Protocol.Json Protocol.Members Protocol.Vocabulary

variable {object : List (String × Value)}

theorem written_eq {known unknown} :
    written known unknown = .object object ↔
      (present known ++ unknown).foldl (fun m e => upsert cmpUtf16 e.1 e.2 m) [] = object :=
  ⟨fun h => Value.object.inj h, fun h => congrArg Value.object h⟩

/-! ## The payload -/

structure Payload.Valid (p : Payload) : Prop where
  size : 1 ≤ p.payloadSize
  fits : Fits p.payloadSize
  sorted : Sorted cmpUtf16 p.unknownFields
  unknown : ∀ m ∈ p.unknownFields, m.1 ∉ ["payload_digest", "payload_size"]

theorem Payload.known_names (p : Payload) :
    p.known.map Prod.fst = ["payload_digest", "payload_size"] := rfl

theorem Payload.names_nodup (p : Payload) : (p.known.map Prod.fst).Nodup := by
  rw [p.known_names]
  decide

theorem Payload.fromValue_object (hs : Sorted cmpUtf16 object) {p} :
    Payload.fromValue (.object object) = .ok p ↔
      1 ≤ p.payloadSize ∧ Fits p.payloadSize ∧ Holds cmpUtf16 p.known p.unknownFields object := by
  simp only [Payload.fromValue, bind_eq_ok, typed_ok, integer_ok, retained_eq hs, refuse_eq_ok,
    UInt64.not_lt]
  constructor
  · intro ⟨digest, hdigest, size, ⟨hfits, hsize⟩, hpos, h⟩
    cases h
    refine ⟨hpos, hfits, ⟨?_, rfl⟩⟩
    exact List.forall_mem_cons.mpr ⟨hdigest, List.forall_mem_singleton.mpr hsize⟩
  · intro ⟨hpos, hfits, hvalues, hothers⟩
    have hdigest := hvalues _ List.mem_cons_self
    have hsize := hvalues _ (List.mem_cons_of_mem _ List.mem_cons_self)
    refine ⟨_, hdigest, _, ⟨hfits, hsize⟩, hpos, ?_⟩
    rw [Payload.known_names] at hothers
    rw [← hothers]

theorem Payload.fromValue_iff {v} (hv : WellFormed v) {p} :
    Payload.fromValue v = .ok p ↔ p.Valid ∧ p.toValue = v := by
  cases hv with
  | object hs _ =>
    rw [Payload.fromValue_object hs, holds_iff p.names_nodup hs, Payload.toValue, written_eq]
    constructor
    · intro ⟨hpos, hfits, hsorted, hunknown, hwritten⟩
      exact ⟨⟨hpos, hfits, hsorted, hunknown⟩, hwritten⟩
    · intro ⟨h, hwritten⟩
      exact ⟨h.size, h.fits, h.sorted, h.unknown, hwritten⟩
  | _ => simp [Payload.fromValue, Payload.toValue, written]

/-! ## The metadata -/

namespace Metadata

/-- Every entry is one that its reader returns. -/
structure Readable (m : Metadata) : Prop where
  contentType : ∀ t ∈ m.contentType, isPrintableAscii t = true
  providerRequestId : ∀ t ∈ m.providerRequestId, isPrintableAscii t = true
  httpStatus : ∀ n ∈ m.httpStatus, Fits n ∧ 100 ≤ n ∧ n ≤ 599
  rateLimitLimit : ∀ n ∈ m.rateLimitLimit, Fits n
  rateLimitRemaining : ∀ n ∈ m.rateLimitRemaining, Fits n
  rateLimitReset : ∀ n ∈ m.rateLimitReset, Fits n
  usageInputTokens : ∀ n ∈ m.usageInputTokens, Fits n
  usageOutputTokens : ∀ n ∈ m.usageOutputTokens, Fits n
  usageTotalTokens : ∀ n ∈ m.usageTotalTokens, Fits n

structure Valid (m : Metadata) : Prop extends m.Readable where
  nonempty : m.isEmpty = false

variable {v : Value}

theorem printableAscii_ok {s} :
    printableAscii v = .ok s ↔ isPrintableAscii s = true ∧ v = .text s := by
  cases v with
  | text raw =>
    simp only [printableAscii]
    by_cases h : isPrintableAscii raw = true
    · rw [if_pos h]
      simp only [Except.ok.injEq, Value.text.injEq]
      exact ⟨fun heq => ⟨heq ▸ h, heq⟩, And.right⟩
    · rw [if_neg h]
      simp only [reduceCtorEq, Value.text.injEq, false_iff]
      rintro ⟨hs, rfl⟩
      exact h hs
  | _ => simp [printableAscii]

/-- The entry under a name becomes the value. -/
def assign (name : String) (v : Value) (known : List (String × Option Value)) :
    List (String × Option Value) :=
  known.map fun e => if e.1 = name then (e.1, some v) else e

/-- What one turn of the loop does. -/
theorem readEntry_ok {m m' name} (hm : m.Readable) (h : readEntry m (name, v) = .ok m') :
    m'.Readable ∧ m'.known = assign name v m.known ∧ name ∈ m.known.map Prod.fst := by
  obtain ⟨h1, h2, h3, h4, h5, h6, h7, h8, h9⟩ := hm
  unfold readEntry at h
  split at h
  case h_10 => cases h
  case' h_1 hname | h_2 hname =>
    subst hname
    obtain ⟨t, ht, ⟨⟩⟩ := bind_eq_ok.mp h
    obtain ⟨hread, rfl⟩ := printableAscii_ok.mp ht
  case' h_3 hname =>
    subst hname
    obtain ⟨n, hn, hset⟩ := bind_eq_ok.mp h
    obtain ⟨hfits, rfl⟩ := u63_ok.mp hn
    split at hset <;> cases hset
    rename_i hrange
    have hread := And.intro hfits hrange
  case' h_4 hname | h_5 hname | h_6 hname | h_7 hname | h_8 hname | h_9 hname =>
    subst hname
    obtain ⟨n, hn, ⟨⟩⟩ := bind_eq_ok.mp h
    obtain ⟨hread, rfl⟩ := u63_ok.mp hn
  -- what was read is readable, and the other entries are as before
  all_goals
    refine ⟨?_, by simp [known, assign], by simp [known]⟩
    constructor <;> first | assumption | simpa using hread

variable {m : Metadata}

/-- An entry that is written is read. -/
theorem readEntry_known {name} (hm : m.Readable) (h : (name, some v) ∈ m.known) (m₀ : Metadata) :
    ∃ m₁, readEntry m₀ (name, v) = .ok m₁ := by
  simp only [known, List.mem_cons, Prod.mk.injEq, List.not_mem_nil, or_false, eq_comm (a := some v),
    Option.map_eq_some_iff] at h
  rcases h with ⟨rfl, t, ht, rfl⟩ | ⟨rfl, t, ht, rfl⟩ | ⟨rfl, n, hn, rfl⟩ | ⟨rfl, n, hn, rfl⟩ |
    ⟨rfl, n, hn, rfl⟩ | ⟨rfl, n, hn, rfl⟩ | ⟨rfl, n, hn, rfl⟩ | ⟨rfl, n, hn, rfl⟩ | ⟨rfl, n, hn, rfl⟩
  · exact ⟨_, bind_of_ok (printableAscii_ok.mpr ⟨hm.contentType t ht, rfl⟩)⟩
  · exact ⟨_, bind_of_ok (printableAscii_ok.mpr ⟨hm.providerRequestId t ht, rfl⟩)⟩
  · obtain ⟨hfits, hrange⟩ := hm.httpStatus n hn
    exact ⟨_, (bind_of_ok (u63_ok.mpr ⟨hfits, rfl⟩)).trans (if_pos hrange)⟩
  · exact ⟨_, bind_of_ok (u63_ok.mpr ⟨hm.rateLimitLimit n hn, rfl⟩)⟩
  · exact ⟨_, bind_of_ok (u63_ok.mpr ⟨hm.rateLimitRemaining n hn, rfl⟩)⟩
  · exact ⟨_, bind_of_ok (u63_ok.mpr ⟨hm.rateLimitReset n hn, rfl⟩)⟩
  · exact ⟨_, bind_of_ok (u63_ok.mpr ⟨hm.usageInputTokens n hn, rfl⟩)⟩
  · exact ⟨_, bind_of_ok (u63_ok.mpr ⟨hm.usageOutputTokens n hn, rfl⟩)⟩
  · exact ⟨_, bind_of_ok (u63_ok.mpr ⟨hm.usageTotalTokens n hn, rfl⟩)⟩

theorem map_u63Value_inj {a b : Option UInt64} (ha : ∀ n ∈ a, Fits n) (hb : ∀ n ∈ b, Fits n)
    (h : a.map u63Value = b.map u63Value) : a = b := by
  cases a with
  | none => exact (Option.map_eq_none_iff.mp h.symm).symm
  | some n =>
    cases b with
    | none => simp at h
    | some k =>
      have hn : u63 invalid (u63Value n) "" = .ok n := u63_ok.mpr ⟨ha n rfl, rfl⟩
      have hk : u63 invalid (u63Value k) "" = .ok k := u63_ok.mpr ⟨hb k rfl, rfl⟩
      rw [Option.some.inj h] at hn
      rw [Except.ok.inj (hn.symm.trans hk)]

theorem map_text_inj {a b : Option String} (h : a.map Value.text = b.map Value.text) : a = b :=
  Option.map_injective (fun _ _ => Value.text.inj) h

/-- The entries determine the metadata. -/
theorem known_injective {m m' : Metadata} (hm : m.Readable) (hm' : m'.Readable)
    (h : m.known = m'.known) : m = m' := by
  simp only [known, List.cons.injEq, Prod.mk.injEq, true_and, and_true] at h
  obtain ⟨h1, h2, h3, h4, h5, h6, h7, h8, h9⟩ := h
  have h1 := map_text_inj h1
  have h2 := map_text_inj h2
  have h3 := map_u63Value_inj (fun n hn => (hm.httpStatus n hn).1)
    (fun n hn => (hm'.httpStatus n hn).1) h3
  have h4 := map_u63Value_inj hm.rateLimitLimit hm'.rateLimitLimit h4
  have h5 := map_u63Value_inj hm.rateLimitRemaining hm'.rateLimitRemaining h5
  have h6 := map_u63Value_inj hm.rateLimitReset hm'.rateLimitReset h6
  have h7 := map_u63Value_inj hm.usageInputTokens hm'.usageInputTokens h7
  have h8 := map_u63Value_inj hm.usageOutputTokens hm'.usageOutputTokens h8
  have h9 := map_u63Value_inj hm.usageTotalTokens hm'.usageTotalTokens h9
  cases m
  cases m'
  simp_all

/-- The whole loop, from any metadata. -/
theorem readEntries_ok {m m'} (hm : m.Readable) (h : object.foldlM readEntry m = .ok m') :
    m'.Readable ∧ m'.known = object.foldl (fun known e => assign e.1 e.2 known) m.known ∧
      ∀ e ∈ object, e.1 ∈ m.known.map Prod.fst := by
  induction object generalizing m with
  | nil =>
    cases h
    exact ⟨hm, rfl, List.forall_mem_nil _⟩
  | cons e object ih =>
    obtain ⟨m1, hread, h⟩ := bind_eq_ok.mp h
    obtain ⟨hm1, hknown, hmem⟩ := readEntry_ok hm hread
    obtain ⟨hm', hknown', hnames⟩ := ih hm1 h
    refine ⟨hm', ?_, List.forall_mem_cons.mpr ⟨hmem, hnames⟩⟩
    rw [hknown', hknown, List.foldl_cons]

theorem readEntries_known (hm : m.Readable)
    (h : ∀ e ∈ object, (e.1, some e.2) ∈ m.known) (m₀ : Metadata) :
    ∃ m', object.foldlM readEntry m₀ = .ok m' := by
  induction object generalizing m₀ with
  | nil => exact ⟨m₀, rfl⟩
  | cons e object ih =>
    obtain ⟨he, hrest⟩ := List.forall_mem_cons.mp h
    obtain ⟨m1, hread⟩ := readEntry_known hm he m₀
    obtain ⟨m', hm'⟩ := ih hrest m1
    exact ⟨m', (bind_of_ok hread).trans hm'⟩

/-- Entries with distinct names are assigned one each. -/
theorem foldl_assign : ∀ {object : List (String × Value)} {known : List (String × Option Value)},
    Sorted cmpUtf16 object → object.foldl (fun known e => assign e.1 e.2 known) known =
      known.map fun e => (e.1, (lookup cmpUtf16 e.1 object).or e.2)
  | [], known, _ => by simp [lookup]
  | (name, v) :: object, known, hs => by
    have htail := (List.pairwise_cons.mp hs).2
    rw [List.foldl_cons, foldl_assign htail, assign, List.map_map]
    refine List.map_congr_left fun e _ => ?_
    have hlookup : ∀ w, lookup cmpUtf16 e.1 ((name, v) :: object) = some w ↔
        (e.1 = name ∧ w = v) ∨ lookup cmpUtf16 e.1 object = some w := by
      intro w
      rw [lookup_eq_some hs, lookup_eq_some htail, List.mem_cons, Prod.mk.injEq]
    by_cases he : e.1 = name
    · have hfresh : lookup cmpUtf16 e.1 object = none := by
        refine Option.eq_none_iff_forall_ne_some.mpr fun w hw => ?_
        refine (List.nodup_cons.mp (keys_nodup hs)).1 ?_
        have hmem := List.mem_map_of_mem (f := Prod.fst) ((lookup_eq_some htail).mp hw)
        rwa [he] at hmem
      have hfound := (hlookup v).mpr (.inl ⟨he, rfl⟩)
      rw [he] at hfresh hfound
      simp [he, hfresh, hfound]
    · have hsame : lookup cmpUtf16 e.1 ((name, v) :: object) = lookup cmpUtf16 e.1 object :=
        Option.ext fun w => by rw [hlookup, or_iff_right fun h => he h.1]
      simp [he, hsame]

theorem known_names (m : Metadata) : m.known.map Prod.fst = empty.known.map Prod.fst := rfl

theorem names_nodup (m : Metadata) : (m.known.map Prod.fst).Nodup := by
  rw [known_names]
  decide

theorem empty_readable : empty.Readable := by constructor <;> exact nofun

/-- What the loop returns is what it was given. -/
theorem holds_of_read (hs : Sorted cmpUtf16 object)
    (h : object.foldlM readEntry empty = .ok m) : m.Readable ∧ Holds cmpUtf16 m.known [] object := by
  obtain ⟨hm, hknown, hnames⟩ := readEntries_ok empty_readable h
  refine ⟨hm, ?_, ?_⟩
  · rw [hknown, foldl_assign hs]
    intro e he
    obtain ⟨e0, he0, rfl⟩ := List.mem_map.mp he
    have hnone : e0.2 = none := by
      simp only [known, empty, Option.map_none, List.mem_cons, List.not_mem_nil, or_false] at he0
      aesop
    rw [hnone, Option.or_none]
  · refine (List.filter_eq_nil_iff.mpr fun e he => ?_).symm
    simpa [known_names m] using hnames e he

theorem fromValue_object (hs : Sorted cmpUtf16 object) :
    fromValue (.object object) = .ok m ↔
      m.isEmpty = false ∧ m.Readable ∧ Holds cmpUtf16 m.known [] object := by
  simp only [fromValue, bind_eq_ok, refuse_eq_ok, Bool.not_eq_true]
  constructor
  · intro ⟨m', hread, hempty, h⟩
    cases h
    exact ⟨hempty, holds_of_read hs hread⟩
  · intro ⟨hempty, hm, hholds⟩
    have hmem : ∀ e ∈ object, (e.1, some e.2) ∈ m.known := by
      intro e he
      have := (hholds.perm m.names_nodup hs).mem_iff.mpr he
      rw [List.append_nil] at this
      exact mem_present.mp this
    obtain ⟨m', hread⟩ := readEntries_known hm hmem empty
    obtain ⟨hm', hholds'⟩ := holds_of_read hs hread
    obtain rfl := known_injective hm hm' (hholds.known_eq.trans hholds'.known_eq.symm)
    exact ⟨m, hread, hempty, rfl⟩

theorem fromValue_iff (hv : WellFormed v) :
    fromValue v = .ok m ↔ m.Valid ∧ m.toValue = some v := by
  have htoValue : ∀ w, m.toValue = some w ↔ m.isEmpty = false ∧ written m.known [] = w := by
    unfold toValue
    cases m.isEmpty <;> simp
  rw [htoValue]
  cases hv with
  | object hs _ =>
    rw [fromValue_object hs, holds_iff m.names_nodup hs, written_eq]
    constructor
    · intro ⟨hempty, hm, _, _, hwritten⟩
      exact ⟨⟨hm, hempty⟩, hempty, hwritten⟩
    · intro ⟨hm, hempty, hwritten⟩
      exact ⟨hempty, hm.toReadable, List.Pairwise.nil, List.forall_mem_nil _, hwritten⟩
  | _ => simp [fromValue, written]

theorem Readable.counters_fit (h : m.Readable) : ∀ n ∈ m.counters, Fits n := by
  intro n hn
  have hmem := List.reduceOption_mem_iff.mp hn
  simp only [List.mem_cons, List.not_mem_nil, or_false] at hmem
  rcases hmem with hn | hn | hn | hn | hn | hn | hn
  · exact (h.httpStatus n hn.symm).1
  · exact h.rateLimitLimit n hn.symm
  · exact h.rateLimitRemaining n hn.symm
  · exact h.rateLimitReset n hn.symm
  · exact h.usageInputTokens n hn.symm
  · exact h.usageOutputTokens n hn.symm
  · exact h.usageTotalTokens n hn.symm

end Metadata

/-! ## The kind and its members -/

theorem contains_eq_false {name} :
    Object.contains name object = false ↔ Object.get name object = none := by
  rw [Object.contains, Option.isSome_eq_false_iff, Option.isNone_iff_eq_none]

theorem foreignMember_none {kind} :
    foreignMember kind object = none ↔
      ∀ owner, owner ≠ kind → ∀ member ∈ kindSpecificMembers owner, Object.get member object = none := by
  have hcomplete : ∀ owner : InferenceArtifactKind, owner ∈
      [.providerRequest, .providerResponse, .streamingEvent, .retry, .usage, .transportError] := by
    intro owner
    cases owner <;> decide
  unfold foreignMember
  rw [List.findSome?_eq_none_iff]
  constructor
  · intro h owner hne member hmember
    have hfind := h owner (hcomplete owner)
    rw [if_neg hne, Option.map_eq_none_iff, List.find?_eq_none] at hfind
    exact contains_eq_false.mp (eq_false_of_ne_true (hfind member hmember))
  · intro h owner _
    split
    · rfl
    rename_i hne
    rw [Option.map_eq_none_iff, List.find?_eq_none]
    intro member hmember
    rw [contains_eq_false.mpr (h owner hne member hmember)]
    exact Bool.false_ne_true

/-- Of a kind, the members that its record requires. -/
theorem requiredMembers_ok {kind} {event} :
    requiredMembers kind object = .ok event ↔ event.kind = kind ∧ (∀ n ∈ event.counters, Fits n) ∧
      ∀ e ∈ event.known, e.1 ∈ kindSpecificMembers kind → Object.get e.1 object = e.2 := by
  cases kind <;> cases event <;>
    simp [requiredMembers, BoundaryEvent.kind, BoundaryEvent.counters, kindSpecificMembers, bind_eq_ok,
      integer_ok, typed_ok, optionalU63_ok, BoundaryEvent.known, specific]
  all_goals tauto

theorem forall_kind {P : InferenceArtifactKind → Prop} : (∀ kind, P kind) ↔
    P .providerRequest ∧ P .providerResponse ∧ P .streamingEvent ∧ P .retry ∧ P .usage ∧
      P .transportError := by
  constructor
  · intro h
    exact ⟨h _, h _, h _, h _, h _, h _⟩
  · intro ⟨h1, h2, h3, h4, h5, h6⟩ kind
    cases kind <;> assumption

/-- The members of other kinds are absent, and those of the record's kind have its values. -/
theorem BoundaryEvent.forall_known {event : BoundaryEvent} :
    (∀ e ∈ event.known, Object.get e.1 object = e.2) ↔
      (∀ owner, owner ≠ event.kind →
        ∀ member ∈ kindSpecificMembers owner, Object.get member object = none) ∧
      ∀ e ∈ event.known, e.1 ∈ kindSpecificMembers event.kind → Object.get e.1 object = e.2 := by
  rw [forall_kind]
  cases event <;> simp [BoundaryEvent.kind, kindSpecificMembers, BoundaryEvent.known, specific] <;>
    tauto

theorem parseEvent_ok {event : BoundaryEvent} : parseEvent object = .ok event ↔
    Object.get "artifact_kind" object = some (textValue event.kind) ∧
      (payloadRequired event.kind = true → (Object.get "payload" object).isSome) ∧
      (∀ n ∈ event.counters, Fits n) ∧ ∀ e ∈ event.known, Object.get e.1 object = e.2 := by
  simp only [parseEvent, bind_eq_ok, typed_ok]
  constructor
  · intro ⟨kind, hkind, h⟩
    split at h
    · cases h
    rename_i hforeign
    split at h
    · cases h
    rename_i hpayload
    obtain ⟨rfl, hcounters, hown⟩ := requiredMembers_ok.mp h
    refine ⟨hkind, ?_, hcounters,
      BoundaryEvent.forall_known.mpr ⟨foreignMember_none.mp hforeign, hown⟩⟩
    intro hrequired
    simpa [hrequired, Object.contains, Option.isSome_iff_ne_none] using hpayload
  · intro ⟨hkind, hpayload, hcounters, hknown⟩
    refine ⟨event.kind, hkind, ?_⟩
    obtain ⟨hforeign, hown⟩ := BoundaryEvent.forall_known.mp hknown
    rw [foreignMember_none.mpr hforeign]
    rw [if_neg]
    · exact requiredMembers_ok.mpr ⟨rfl, hcounters, hown⟩
    intro h
    rw [Bool.and_eq_true, Bool.not_eq_true', contains_eq_false] at h
    have := hpayload h.1
    rw [h.2] at this
    cases this

/-! ## The record -/

theorem version_ok {u} : version object = .ok u ↔
    Object.get "inference_artifact_version" object = some (.int INFERENCE_ARTIFACT_VERSION) := by
  simp only [version, bind_eq_ok, require_ok]
  constructor
  · intro ⟨v, hget, hv⟩
    cases v with
    | int found =>
      obtain ⟨rfl, -⟩ := require_eq_ok.mp hv
      exact hget
    | _ => cases hv
  · exact fun hget => ⟨_, hget, if_pos rfl⟩

/-- An optional object is read where its own reader reads it. -/
theorem optionalMember_ok {T : Type} {fromValue : Value → Result T} {toValue : T → Option Value}
    {P : T → Prop} {field : String} {t : Option T} (hP : ∀ x, P x → toValue x ≠ none)
    (h : ∀ v, Object.get field object = some v → ∀ x, fromValue v = .ok x ↔ P x ∧ toValue x = some v) :
    optionalMember fromValue object field = .ok t ↔
      (∀ x ∈ t, P x) ∧ Object.get field object = t.bind toValue := by
  unfold optionalMember
  cases hget : Object.get field object with
  | none =>
    cases t with
    | none => simp
    | some x =>
      simp only [Except.ok.injEq, reduceCtorEq, Option.mem_def, Option.some.injEq, forall_eq',
        Option.bind_some, false_iff]
      intro ⟨hx, hnone⟩
      exact hP x hx hnone.symm
  | some v =>
    simp only [map_eq_ok, h v hget]
    cases t with
    | none => simp
    | some x =>
      simp only [Option.some.injEq, Option.mem_def, forall_eq', Option.bind_some]
      constructor
      · rintro ⟨y, ⟨hy, hv⟩, rfl⟩
        exact ⟨hy, hv.symm⟩
      · intro ⟨hx, hv⟩
        exact ⟨x, ⟨hx, hv.symm⟩, rfl⟩

namespace InferenceArtifact

/-- A record that passes its own checks, with unknown members that the reader leaves alone. -/
structure Valid (r : InferenceArtifact) : Prop where
  payload : ∀ p ∈ r.payload, p.Valid
  metadata : ∀ m ∈ r.metadata, m.Valid
  required : payloadRequired r.kind = true → r.payload.isSome
  semantic : r.semanticChecks = .ok ()
  counters : ∀ n ∈ r.counters, Fits n
  sorted : Sorted cmpUtf16 r.unknownFields
  unknown : ∀ m ∈ r.unknownFields, m.1 ∉ RECORD_FIELD_NAMES ∧ m.1 ∉ RESERVED_FIELDS

def KNOWN_NAMES : List String :=
  ["artifact_kind", "attempt_ordinal", "capture_time", "inference_artifact_version",
   "inference_request_id", "origin_client_id", "payload", "metadata", "provider_attempt_id",
   "tenant_id", "trace_id", "event_ordinal", "retry_of_attempt_ordinal", "retry_reason",
   "backoff_ms", "usage_source", "error_class", "timeout_ms"]

theorem known_names (r : InferenceArtifact) : r.known.map Prod.fst = KNOWN_NAMES := by
  unfold known
  cases r.event <;> rfl

/-- The names written are the names that are not retained. -/
theorem names_perm : KNOWN_NAMES.Perm RECORD_FIELD_NAMES := by decide

theorem names_nodup (r : InferenceArtifact) : (r.known.map Prod.fst).Nodup := by
  rw [known_names]
  decide

variable {r : InferenceArtifact}

theorem counters_fit : (∀ n ∈ r.counters, Fits n) ↔
    Fits r.attemptOrdinal ∧ (∀ p ∈ r.payload, Fits p.payloadSize) ∧
      (∀ m ∈ r.metadata, ∀ n ∈ m.counters, Fits n) ∧ ∀ n ∈ r.event.counters, Fits n := by
  unfold counters
  cases r.payload <;> cases r.metadata <;> simp [or_imp, forall_and]

theorem payload_ok (hwf : WellFormed (.object object)) {t} :
    optionalMember Payload.fromValue object "payload" = .ok t ↔
      (∀ p ∈ t, p.Valid) ∧ Object.get "payload" object = t.map Payload.toValue := by
  cases hwf with
  | object hs hvalues =>
    rw [Option.map_eq_bind]
    refine optionalMember_ok (fun _ _ => nofun) fun v hget p => ?_
    rw [Payload.fromValue_iff (hvalues _ ((lookup_eq_some hs).mp hget)), Function.comp_apply,
      Option.some.injEq]

theorem metadata_ok (hwf : WellFormed (.object object)) {t} :
    optionalMember Metadata.fromValue object "metadata" = .ok t ↔
      (∀ m ∈ t, m.Valid) ∧ Object.get "metadata" object = t.bind Metadata.toValue := by
  cases hwf with
  | object hs hvalues =>
    refine optionalMember_ok ?_ fun v hget m => ?_
    · intro m hm
      rw [Metadata.toValue, hm.nonempty]
      exact nofun
    · exact Metadata.fromValue_iff (hvalues _ ((lookup_eq_some hs).mp hget))

/-- Every member that is read is one that is written. -/
theorem readMembers_ok (hwf : WellFormed (.object object)) {u} :
    version object = .ok u ∧ readMembers object = .ok r ↔
      (∀ e ∈ r.known, Object.get e.1 object = e.2) ∧
      (∀ p ∈ r.payload, p.Valid) ∧ (∀ m ∈ r.metadata, m.Valid) ∧
      (payloadRequired r.kind = true → r.payload.isSome) ∧ (∀ n ∈ r.counters, Fits n) ∧
      r.unknownFields = retained RECORD_FIELD_NAMES object := by
  simp only [version_ok, readMembers, bind_eq_ok, typed_ok, integer_ok, optional_ok, payload_ok hwf,
    metadata_ok hwf, parseEvent_ok, known, List.forall_mem_append, List.forall_mem_cons, counters_fit]
  constructor
  · intro ⟨hversion, _, htenant, _, horigin, _, htrace, _, hrequest, _, hattempt, ordinal,
      ⟨hfits, hordinal⟩, _, htime, payload, ⟨hvalid, hpayload⟩, metadata, ⟨hreadable, hmetadata⟩,
      event, ⟨hkind, hrequired, hcounters, hevent⟩, hr⟩
    cases hr
    refine ⟨⟨⟨hkind, hordinal, htime, hversion, hrequest, horigin, hpayload, hmetadata, hattempt,
      htenant, htrace, nofun⟩, hevent⟩, hvalid, hreadable, ?_, ⟨hfits, ?_, ?_, hcounters⟩, rfl⟩
    · intro h
      simpa [hpayload] using hrequired h
    · exact fun p hp => (hvalid p hp).fits
    · exact fun m hm => (hreadable m hm).toReadable.counters_fit
  · intro ⟨⟨⟨hkind, hordinal, htime, hversion, hrequest, horigin, hpayload, hmetadata, hattempt,
      htenant, htrace, _⟩, hevent⟩, hvalid, hreadable, hrequired, ⟨hfits, _, _, hcounters⟩, hunknown⟩
    refine ⟨hversion, _, htenant, _, horigin, _, htrace, _, hrequest, _, hattempt, _,
      ⟨hfits, hordinal⟩, _, htime, _, ⟨hvalid, hpayload⟩, _, ⟨hreadable, hmetadata⟩, _,
      ⟨hkind, ?_, hcounters, hevent⟩, ?_⟩
    · intro h
      simpa [hpayload] using hrequired h
    · rw [← hunknown]

theorem reserved_not_known : ∀ field ∈ RESERVED_FIELDS, field ∉ KNOWN_NAMES := by decide

/-- What an object holds that a valid record is written to. -/
theorem valid_written_iff (hs : Sorted cmpUtf16 object) :
    r.Valid ∧ written r.known r.unknownFields = .object object ↔
      (∀ field ∈ RESERVED_FIELDS, Object.get field object = none) ∧
      ((∀ e ∈ r.known, Object.get e.1 object = e.2) ∧
        (∀ p ∈ r.payload, p.Valid) ∧ (∀ m ∈ r.metadata, m.Valid) ∧
        (payloadRequired r.kind = true → r.payload.isSome) ∧ (∀ n ∈ r.counters, Fits n) ∧
        r.unknownFields = retained RECORD_FIELD_NAMES object) ∧ r.semanticChecks = .ok () := by
  have hnames : ∀ {name : String}, name ∈ RECORD_FIELD_NAMES ↔ name ∈ r.known.map Prod.fst := by
    intro name
    rw [known_names, names_perm.mem_iff]
  have hrest : rest RECORD_FIELD_NAMES object = rest (r.known.map Prod.fst) object :=
    List.filter_congr fun e _ => by simp [hnames]
  rw [written_eq, retained_eq hs, hrest]
  constructor
  · intro ⟨h, hwritten⟩
    have held : Holds cmpUtf16 r.known r.unknownFields object := (holds_iff r.names_nodup hs).mpr
      ⟨h.sorted, fun m hm => mt hnames.mpr (h.unknown m hm).1, hwritten⟩
    refine ⟨?_, ⟨held.values, h.payload, h.metadata, h.required, h.counters, held.others⟩, h.semantic⟩
    intro field hfield
    refine Option.eq_none_iff_forall_ne_some.mpr fun v hget => ?_
    have hmem := (held.perm r.names_nodup hs).mem_iff.mpr ((lookup_eq_some hs).mp hget)
    rcases List.mem_append.mp hmem with hknown | hunknown
    · have := key_of_mem_present hknown
      rw [known_names] at this
      exact reserved_not_known field hfield this
    · exact (h.unknown _ hunknown).2 hfield
  · intro ⟨hreserved, ⟨hvalues, hpayload, hmetadata, hrequired, hcounters, hothers⟩, hsemantic⟩
    have held : Holds cmpUtf16 r.known r.unknownFields object := ⟨hvalues, hothers⟩
    obtain ⟨hsorted, hdisjoint, hwritten⟩ := (holds_iff r.names_nodup hs).mp held
    refine ⟨⟨hpayload, hmetadata, hrequired, hsemantic, hcounters, hsorted, ?_⟩, hwritten⟩
    intro m hm
    refine ⟨mt hnames.mp (hdisjoint m hm), fun hfield => ?_⟩
    rw [hothers] at hm
    have hget : Object.get m.1 object = some m.2 := (lookup_eq_some hs).mpr (mem_rest.mp hm).1
    rw [hreserved m.1 hfield] at hget
    cases hget

/-- A record is read from exactly the object it is written to. -/
theorem fromValue_iff {v} (hv : WellFormed v) :
    fromValue v = .ok r ↔ r.Valid ∧ r.toValue = some v := by
  have htoValue : (r.Valid ∧ r.toValue = some v) ↔
      r.Valid ∧ written r.known r.unknownFields = v := by
    refine and_congr_right fun h => ?_
    rw [toValue, if_pos h.counters, Option.some.injEq]
  rw [htoValue]
  cases hv with
  | @object object hs hvalues =>
    rw [valid_written_iff hs]
    unfold fromValue
    cases hreserved : RESERVED_FIELDS.find? fun field => Object.contains field object with
    | some field =>
      have hfield := List.find?_some hreserved
      simp only [hreserved, reduceCtorEq, false_iff]
      intro ⟨hnone, _⟩
      rw [contains_eq_false.mpr (hnone field (List.mem_of_find?_eq_some hreserved))] at hfield
      cases hfield
    | none =>
      have hnone : ∀ field ∈ RESERVED_FIELDS, Object.get field object = none := by
        intro field hfield
        exact contains_eq_false.mp (eq_false_of_ne_true (List.find?_eq_none.mp hreserved field hfield))
      simp only [hreserved, bind_eq_ok]
      constructor
      · intro ⟨_, hversion, r', hr', _, hsemantic, heq⟩
        cases heq
        exact ⟨hnone, (readMembers_ok (.object hs hvalues)).mp ⟨hversion, hr'⟩, hsemantic⟩
      · intro ⟨_, hread, hsemantic⟩
        obtain ⟨hversion, hr⟩ := (readMembers_ok (.object hs hvalues)).mpr hread
        exact ⟨(), hversion, r, hr, (), hsemantic, rfl⟩
  | _ => simp [fromValue, written]

end InferenceArtifact

end AgentArchivist.Protocol.InferenceArtifact
