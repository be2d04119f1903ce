import AgentArchivist.Protocol.Members

/-! # Envelope parsing loses and invents nothing

`ReadsAs object e` relates an object to the envelope read from it: every member of
`e.known` stands in the object with its value, an absent one is absent, and the
rest is `e.unknownFields`. The reader accepts only such objects (`fromValue_ok`) and
the writer gives the object back (`ReadsAs.toValue`), so the three lists of names
agree. The envelopes that are ever accepted are the `Valid` ones, and each is
accepted from its own canonical bytes. -/
namespace AgentArchivist.Protocol.EnvelopeLossless
open Lib List
open Fallible OptionalEntries SortedMap Utf16 Derivation EnvelopeSize IngestEnvelope Json
open JsonCanonical Vocabulary

variable {object : List (String × Value)} {field : String}

/-! ## One member

Each reader succeeds exactly on the value that its writer gives. -/

theorem require_ok {v} : require object field = .ok v ↔ Object.get field object = some v :=
  Members.require_ok

theorem typed_ok {T : Type} [WireText T] {t : T} :
    typed object field = .ok t ↔ Object.get field object = some (textValue t) := Members.typed_ok

theorem optional_ok {T : Type} [WireText T] {t : Option T} :
    IngestEnvelope.optional object field = .ok t ↔ Object.get field object = t.map textValue :=
  Members.optional_ok

theorem u63_ok {v n} : u63 v field = .ok n ↔ v = u63Value n := by
  have hread : u63 v field = .ok n ↔ Members.u63 invalid v field = .ok n.value := by
    cases v with
    | int k =>
      cases n
      simp [u63, Members.u63, require_dep_eq_ok, require_eq_ok, U63.mk.injEq, exists_prop]
    | _ => simp [u63, Members.u63]
  rw [hread, Members.u63_ok]
  exact and_iff_right n.fits

theorem integer_ok {n} :
    integer object field = .ok n ↔ Object.get field object = some (u63Value n) := by
  unfold integer
  simp only [bind_eq_ok, require_ok, u63_ok]
  constructor
  · intro ⟨_, hget, hv⟩
    rw [hget, hv]
  · intro hget
    exact ⟨_, hget, rfl⟩

theorem version_ok {known u} :
    version object field known = .ok u ↔ Object.get field object = some (.int known) := by
  simp only [version, bind_eq_ok, require_ok]
  constructor
  · intro ⟨v, hget, hv⟩
    cases v with
    | int found =>
      obtain ⟨rfl, -⟩ := require_eq_ok.mp hv
      exact hget
    | _ => cases hv
  · exact fun hget => ⟨_, hget, if_pos rfl⟩

/-! ## The whole object -/

/-- The object holds the envelope's members and nothing else. -/
structure ReadsAs (object : List (String × Value)) (e : Envelope) : Prop where
  known : ∀ m ∈ e.known, Object.get m.1 object = m.2
  unknown : e.unknownFields = retained object

variable {e : Envelope}

theorem readFields_ok :
    readFields object = .ok e ↔
      (∀ m ∈ e.known.drop 2, Object.get m.1 object = m.2) ∧ e.unknownFields = retained object := by
  simp only [readFields, bind_eq_ok, typed_ok, integer_ok, optional_ok]
  simp only [Envelope.known, List.drop, forall_mem_cons]
  -- the same members in two orders
  constructor
  · intro h
    iterate 31 obtain ⟨_, _, h⟩ := h
    cases h
    simp_all
  · intro ⟨h, hu⟩
    casesm* _ ∧ _
    iterate 31 refine ⟨_, by assumption, ?_⟩
    rw [← hu]

/-- What an accepted value is. -/
theorem fromValue_ok {v} :
    fromValue v = .ok e ↔ ∃ object, v = .object object ∧
      (∀ field ∈ RESERVED_FIELDS, Object.contains field object = false) ∧ ReadsAs object e ∧
      e.semanticChecks = .ok () ∧ e.verifyIdentities = .ok () ∧ e.sizeCheck = .ok () := by
  cases v with
  | object object =>
    unfold fromValue
    cases hr : RESERVED_FIELDS.find? fun field => Object.contains field object with
    | some field =>
      have hfield := find?_some hr
      have hmem := mem_of_find?_eq_some hr
      simp only [hr, reduceCtorEq, false_iff]
      intro ⟨o, ho, hno, _⟩
      cases ho
      rw [hno field hmem] at hfield
      cases hfield
    | none =>
      have hfree : ∀ field ∈ RESERVED_FIELDS, Object.contains field object = false := by
        intro field hmem
        simpa using List.find?_eq_none.mp hr field hmem
      simp only [hr, bind_eq_ok, version_ok, readFields_ok]
      constructor
      · intro ⟨_, hpv, _, hev, _, ⟨hk, hu⟩, _, hs, _, hi, _, hz, he⟩
        cases he
        refine ⟨object, rfl, hfree, ⟨?_, hu⟩, hs, hi, hz⟩
        exact forall_mem_cons.mpr ⟨hpv, forall_mem_cons.mpr ⟨hev, hk⟩⟩
      · intro ⟨o, ho, _, hread, hs, hi, hz⟩
        cases ho
        obtain ⟨hpv, hrest⟩ := forall_mem_cons.mp hread.known
        obtain ⟨hev, hk⟩ := forall_mem_cons.mp hrest
        exact ⟨(), hpv, (), hev, e, ⟨hk, hread.unknown⟩, (), hs, (), hi, (), hz, rfl⟩
  | _ => simp [fromValue]

/-! ## The three lists of names -/

/-- A member is known where its name is generated. -/
def isKnown (m : String × Value) : Bool := ENVELOPE_FIELD_NAMES.contains m.1

theorem retained_eq (hs : Sorted cmpUtf16 object) :
    retained object = object.filter fun m => !isKnown m := Members.retained_eq hs

theorem rest_known (e : Envelope) :
    rest (e.known.map Prod.fst) object = object.filter fun m => !isKnown m := by
  unfold rest isKnown
  rw [known_names]
  congr 1
  funext m
  simp [names_perm.mem_iff]

theorem readsAs_iff (hs : Sorted cmpUtf16 object) :
    ReadsAs object e ↔ Holds cmpUtf16 e.known e.unknownFields object := by
  have hrest : retained object = rest (e.known.map Prod.fst) object :=
    (retained_eq hs).trans (rest_known e).symm
  exact ⟨fun h => ⟨h.known, h.unknown.trans hrest⟩,
    fun h => ⟨h.values, h.others.trans hrest.symm⟩⟩

/-- The members written are the members read. -/
theorem ReadsAs.members_perm (h : ReadsAs object e) (hs : Sorted cmpUtf16 object) :
    (e.present ++ e.unknownFields).Perm object :=
  ((readsAs_iff hs).mp h).perm names_nodup hs

/-- The writer gives the object back. -/
theorem ReadsAs.toValue (h : ReadsAs object e) (hs : Sorted cmpUtf16 object) :
    e.toValue = .object object := by
  exact congrArg Value.object (foldl_upsert_eq hs (h.members_perm hs))

/-! ## From the wire and back -/

theorem parse_ok {b} :
    IngestEnvelope.parse b = .ok e ↔ ∃ v, Json.parse b = .ok v ∧ fromValue v = .ok e := by
  unfold IngestEnvelope.parse
  cases Json.parse b <;> simp

/-- An accepted envelope writes the value it was read from. -/
theorem toValue_of_parse {b} (h : IngestEnvelope.parse b = .ok e) :
    ∃ members, Json.parse b = .ok (.object members) ∧ ReadsAs members e ∧
      Sorted cmpUtf16 members ∧ e.toValue = .object members := by
  obtain ⟨v, hv, hfrom⟩ := parse_ok.mp h
  obtain ⟨members, rfl, -, hread, -⟩ := fromValue_ok.mp hfrom
  obtain ⟨hwf, -⟩ := parse_wellFormed hv
  cases hwf with
  | object hs _ => exact ⟨members, hv, hread, hs, hread.toValue hs⟩

theorem sizeCheck_ok {u} : e.sizeCheck = .ok u ↔ e.canonicalBytes.length ≤ CANONICAL_MAX_BYTES := by
  unfold Envelope.sizeCheck
  split <;> simp_all

/-! ## What can be accepted -/

/-- An envelope that passes its own checks, with unknown members that the reader leaves
alone and the parser's depth bound admits. -/
structure Valid (e : Envelope) : Prop where
  semantic : e.semanticChecks = .ok ()
  identities : e.verifyIdentities = .ok ()
  size : e.sizeCheck = .ok ()
  sorted : Sorted cmpUtf16 e.unknownFields
  unknown : ∀ m ∈ e.unknownFields, m.1 ∉ ENVELOPE_FIELD_NAMES ∧ m.1 ∉ RESERVED_FIELDS
  values : ∀ m ∈ e.unknownFields, WellFormed m.2 ∧ valueDepth m.2 < DEFAULT_MAX_DEPTH

/-- Known members hold text and integers only. -/
def isScalar : Value → Bool
  | .text _ => true
  | .int _ => true
  | _ => false

theorem known_scalar (e : Envelope) : ∀ m ∈ e.known, m.2.all isScalar = true := by
  simp [Envelope.known, textValue, u63Value, isScalar, Option.all_map]

theorem scalar_fits {v} (h : isScalar v = true) :
    WellFormed v ∧ valueDepth v < DEFAULT_MAX_DEPTH := by
  cases v with
  | text s => exact ⟨.text s, Nat.succ_pos _⟩
  | int n => exact ⟨.int n, Nat.succ_pos _⟩
  | _ => cases h

theorem unknown_disjoint
    (hu : ∀ m ∈ e.unknownFields, m.1 ∉ ENVELOPE_FIELD_NAMES ∧ m.1 ∉ RESERVED_FIELDS) :
    ∀ m ∈ e.unknownFields, m.1 ∉ e.known.map Prod.fst :=
  fun m hm hknown => (hu m hm).1 (names_perm.mem_iff.mp hknown)

/-- Where the retained members are sorted and not known, all members have distinct names. -/
theorem names_distinct (hs : Sorted cmpUtf16 e.unknownFields)
    (hu : ∀ m ∈ e.unknownFields, m.1 ∉ ENVELOPE_FIELD_NAMES ∧ m.1 ∉ RESERVED_FIELDS) :
    ((e.present ++ e.unknownFields).map Prod.fst).Nodup :=
  keys_distinct names_nodup (keys_nodup hs) (unknown_disjoint hu)

theorem Valid.unreserved (h : Valid e) (hs : Sorted cmpUtf16 object)
    (hperm : object.Perm (e.present ++ e.unknownFields)) {name} (hname : name ∈ RESERVED_FIELDS) :
    Object.contains name object = false := by
  have hdisjoint : ∀ name ∈ RESERVED_FIELDS, name ∉ ENVELOPE_FIELD_NAMES := by decide
  rw [Object.contains, Option.isSome_eq_false_iff, Option.isNone_iff_eq_none]
  refine Option.eq_none_iff_forall_ne_some.mpr ?_
  intro v hv
  rcases mem_append.mp (hperm.mem_iff.mp ((lookup_eq_some hs).mp hv)) with hm | hm
  · have hknown := mem_map_of_mem (f := Prod.fst) (mem_present.mp hm)
    exact hdisjoint name hname (names_perm.mem_iff.mp hknown)
  · exact (h.unknown _ hm).2 hname

theorem Valid.fits (h : Valid e) (hperm : object.Perm (e.present ++ e.unknownFields)) {m}
    (hm : m ∈ object) : WellFormed m.2 ∧ valueDepth m.2 < DEFAULT_MAX_DEPTH := by
  rcases mem_append.mp (hperm.mem_iff.mp hm) with hp | hu
  · exact scalar_fits (known_scalar e _ (mem_present.mp hp))
  · exact h.values m hu

/-- A valid envelope is accepted from its canonical bytes. -/
theorem parse_canonicalBytes_of_valid (h : Valid e) :
    IngestEnvelope.parse e.canonicalBytes = .ok e := by
  obtain ⟨object, hto, hs, hperm⟩ := toValue_perm (names_distinct h.sorted h.unknown)
  have hbytes : e.canonicalBytes = Json.canonicalBytes (.object object) := congrArg _ hto
  have hwf : WellFormed (.object object) := .object hs fun m hm => (h.fits hperm hm).1
  have hdepth : valueDepth (.object object) ≤ DEFAULT_MAX_DEPTH :=
    Nat.le_of_lt_succ (membersDepth_lt.mpr fun m hm => (h.fits hperm hm).2)
  have hlen := sizeCheck_ok.mp h.size
  refine parse_ok.mpr ⟨.object object, ?_, ?_⟩
  · rw [hbytes] at hlen ⊢
    exact parse_canonicalBytes hwf hdepth (Nat.le_trans hlen (by decide))
  · exact fromValue_ok.mpr ⟨object, rfl, fun _ hname => h.unreserved hs hperm hname,
      (readsAs_iff hs).mpr (holds_of_perm names_nodup hs h.sorted (unknown_disjoint h.unknown) hperm),
      h.semantic, h.identities, h.size⟩

/-- Only valid envelopes are accepted, from any bytes. -/
theorem valid_of_parse {b} (h : IngestEnvelope.parse b = .ok e) : Valid e := by
  obtain ⟨v, hv, hfrom⟩ := parse_ok.mp h
  obtain ⟨object, rfl, hfree, hread, hsemantic, hidentities, hsize⟩ := fromValue_ok.mp hfrom
  obtain ⟨hwf, hdepth⟩ := parse_wellFormed hv
  cases hwf with
  | object hs hvalues =>
    have hmem : ∀ m ∈ e.unknownFields, m ∈ object ∧ m.1 ∉ ENVELOPE_FIELD_NAMES := by
      intro m hm
      rw [hread.unknown, retained_eq hs, mem_filter] at hm
      simpa [isKnown] using hm
    refine ⟨hsemantic, hidentities, hsize, ?_, ?_, ?_⟩
    · rw [hread.unknown, retained_eq hs]
      exact List.Pairwise.filter _ hs
    · intro m hm
      refine ⟨(hmem m hm).2, fun hname => ?_⟩
      have hget : Object.get m.1 object = some m.2 := (lookup_eq_some hs).mpr (hmem m hm).1
      have habsent := hfree m.1 hname
      rw [Object.contains, hget] at habsent
      cases habsent
    · intro m hm
      exact ⟨hvalues m (hmem m hm).1,
        membersDepth_lt.mp (Nat.lt_succ_of_le hdepth) m (hmem m hm).1⟩

/-- Every member of the transmission is written back with its value, none is added and none
is written twice; the canonical bytes are accepted as the same envelope; and every
transmission accepted as it has the one digest. -/
theorem envelope_parse_lossless (b : List UInt8) (e : Envelope) (h : IngestEnvelope.parse b = .ok e) :
    (∃ members, Json.parse b = .ok (.object members) ∧
      (e.present ++ e.unknownFields).Perm members ∧
      e.canonicalBytes = Json.canonicalBytes (.object members)) ∧
    IngestEnvelope.parse e.canonicalBytes = .ok e ∧
    ∀ b', IngestEnvelope.parse b' = .ok e → ∃ v, Json.parse b' = .ok v ∧
      Json.parse b = .ok v ∧ digestOf (Json.canonicalBytes v) = e.envelopeDigest := by
  obtain ⟨members, hv, hread, hs, hto⟩ := toValue_of_parse h
  refine ⟨⟨members, hv, hread.members_perm hs, congrArg _ hto⟩,
    parse_canonicalBytes_of_valid (valid_of_parse h), ?_⟩
  intro b' h'
  obtain ⟨members', hv', -, -, hto'⟩ := toValue_of_parse h'
  refine ⟨_, hv', ?_, ?_⟩
  · rw [hv, ← hto, hto']
  · rw [Envelope.envelopeDigest, Envelope.canonicalBytes, hto']

/-- Declare the identities that the inputs derive. -/
def identified (e : Envelope) : Envelope :=
  let e := { e with occurrenceId := e.rederiveOccurrenceId }
  { e with attestationId := e.rederiveAttestationId }

theorem identified_verify (e : Envelope) : (identified e).verifyIdentities = .ok () := by
  have hocc : (identified e).rederiveOccurrenceId = (identified e).occurrenceId := rfl
  have hatt : (identified e).rederiveAttestationId = (identified e).attestationId := rfl
  rw [Envelope.verifyIdentities, if_neg (not_not.mpr hocc), if_neg (not_not.mpr hatt)]

/-- The baseline envelope, with a member that this version does not define. -/
def baseline : Envelope := identified {
  tenantId := Specimen.home
  originClientId := ⟨"11111111-2222-4333-8444-555555555555", by decide +kernel⟩
  uploaderClientId := ⟨"11111111-2222-4333-8444-555555555555", by decide +kernel⟩
  harness := Specimen.harness
  upstreamSessionId := ⟨"4f9c2f1e-8a3d-4b67-9c2f-1e8a3d4b679c", by decide +kernel⟩
  idSource := .upstream
  artifactKind := .fileSlice
  adapterId := ⟨"claude-jsonl", by decide +kernel⟩
  adapterProjectionVersion := Specimen.version
  adapterArtifactId := ⟨"session-file-4f9c2f1e", by decide +kernel⟩
  generation := ⟨"1a07a111-7000-7000-8000-000000000001", by decide +kernel⟩
  rangeKind := .byte
  rangeStart := ⟨0, by decide⟩
  rangeEnd := ⟨0, by decide⟩
  blobDigest := digestOf []
  incomingChecksum := digestOf []
  incomingChecksumAlgorithm := .sha256
  storageProfile := .zstdV1
  transportEncoding := .identity
  compressedSize := ⟨176, by decide⟩
  uncompressedSize := ⟨176, by decide⟩
  occurrenceId := digestOf []
  attestationId := digestOf []
  requestId := Specimen.request
  captureTime := ⟨"2026-09-11T16:44:10Z", by decide +kernel⟩
  envelopeCreationTime := ⟨"2026-09-11T16:44:11Z", by decide +kernel⟩
  sourceTime := some ⟨"2026-09-11T16:44:02Z", by decide +kernel⟩
  parentSessionId := none
  orchestratorAttemptId := none
  traceId := none
  inferenceRequestId := none
  unknownFields := [("client_build", .array [.int 7])] }

theorem baseline_valid : Valid baseline := by
  have hsorted : Sorted cmpUtf16 baseline.unknownFields := pairwise_singleton ..
  have hunknown : ∀ m ∈ baseline.unknownFields,
      m.1 ∉ ENVELOPE_FIELD_NAMES ∧ m.1 ∉ RESERVED_FIELDS :=
    forall_mem_singleton.mpr (by decide)
  have hsize : baseline.sizeCheck = .ok () :=
    sizeCheck_of_unknown (names_distinct hsorted hunknown) (by decide)
  refine ⟨by decide +kernel, identified_verify _, hsize, hsorted, hunknown, ?_⟩
  exact forall_mem_singleton.mpr
    ⟨.array (forall_mem_singleton.mpr (.int 7)), by decide⟩

theorem envelope_parse_lossless_baseline :
    ∃ members, Json.parse baseline.canonicalBytes = .ok (.object members) ∧
      (baseline.present ++ baseline.unknownFields).Perm members ∧
      baseline.canonicalBytes = Json.canonicalBytes (.object members) :=
  (envelope_parse_lossless _ baseline (parse_canonicalBytes_of_valid baseline_valid)).1

end AgentArchivist.Protocol.EnvelopeLossless
