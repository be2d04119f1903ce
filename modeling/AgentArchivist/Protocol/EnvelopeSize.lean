import AgentArchivist.Protocol.IngestEnvelope
import Mathlib.Algebra.Order.BigOperators.Group.List
import Mathlib.Algebra.Order.Group.Nat
import Mathlib.Algebra.Ring.Nat

/-! # How long an envelope can be

Escaping writes at most six bytes for one, and the grammar of every known member
bounds its text, so the known members together stay below the cap on canonical
bytes: only retained members can take an envelope over it. -/
namespace AgentArchivist.Protocol.EnvelopeSize
open Lib List
open Decimal SortedMap Utf16 Utf8 Derivation IngestEnvelope Json JsonCanonical Vocabulary

/-! ## Written values -/

theorem length_writeChar (c : Char) :
    (writeChar c).length ≤ 6 * (String.utf8EncodeChar c).length := by
  have hpos : 1 ≤ c.utf8Size := c.utf8Size_pos
  have hhex : ∀ n, (utf8 (String.singleton (Nat.digitChar (n % 16)))).length = 1 := by
    intro n
    obtain ⟨b, hb, -⟩ := hexDigit_digitChar (Nat.mod_lt n (by decide : 0 < 16))
    rw [hb]
    rfl
  have hescape : (utf8 "\\u00").length = 4 := by decide
  unfold writeChar
  split_ifs <;> simp only [length_append, length_cons, length_nil,
    String.length_utf8EncodeChar, hescape, hhex] <;> omega

theorem length_writeString (s : String) : (writeString s).length ≤ 2 + 6 * (utf8 s).length := by
  have hchars : ∀ cs : List Char, (cs.flatMap writeChar).length ≤
      6 * (cs.flatMap String.utf8EncodeChar).length := by
    intro cs
    induction cs with
    | nil => simp
    | cons c cs ih =>
      have hc := length_writeChar c
      simp only [flatMap_cons, length_append]
      omega
  have hs := hchars s.toList
  rw [← utf8_eq_flatMap] at hs
  simp only [writeString, length_cons, length_append, length_nil]
  omega

theorem length_renderI64 (n : Int64) : (renderI64 n).length ≤ 20 := by
  have hlo := Int64.le_toInt n
  have hhi := Int64.toInt_lt n
  have hdigits : (decimal n.toInt.natAbs).length ≤ 19 :=
    length_decimal (by decide) (by omega)
  rw [renderI64_eq, length_append]
  split <;> simp <;> omega

/-- A member's name, colon, value and comma. -/
def memberCost (m : String × Value) : Nat :=
  (writeString m.1).length + (canonicalBytes m.2).length + 2

theorem length_writeMembers (first : Bool) (ms : List (String × Value)) :
    (writeMembers first ms).length ≤ (ms.map memberCost).sum := by
  induction ms generalizing first with
  | nil => simp [writeMembers]
  | cons m ms ih =>
    have ih := ih false
    rw [writeMembers, map_cons, sum_cons, memberCost]
    cases first <;> simp <;> omega

theorem length_object (ms : List (String × Value)) :
    (canonicalBytes (.object ms)).length ≤ 2 + (ms.map memberCost).sum := by
  have h := length_writeMembers true ms
  simp only [canonicalBytes, length_cons, length_append, length_nil]
  omega

/-- An object of so many members, each of bounded cost. -/
theorem length_object_le {ms} {k} (h : ∀ m ∈ ms, memberCost m ≤ k) :
    (canonicalBytes (.object ms)).length ≤ 2 + ms.length * k := by
  have hsum := sum_le_card_nsmul (ms.map memberCost) k (by
    intro n hn
    obtain ⟨m, hm, rfl⟩ := mem_map.mp hn
    exact h m hm)
  rw [length_map, Nat.nsmul_eq_mul] at hsum
  have := length_object ms
  omega

/-! ## Names -/

/-- The names written, in the order in which they are put. -/
def KNOWN_NAMES : List String :=
  ["protocol_version", "envelope_version", "tenant_id", "origin_client_id", "uploader_client_id",
   "harness", "upstream_session_id", "id_source", "artifact_kind", "adapter_id",
   "adapter_projection_version", "adapter_artifact_id", "generation", "range_kind", "range_start",
   "range_end", "blob_digest", "incoming_checksum", "incoming_checksum_algorithm",
   "storage_profile", "transport_encoding", "compressed_size", "uncompressed_size",
   "occurrence_id", "attestation_id", "request_id", "capture_time", "envelope_creation_time",
   "source_time", "parent_session_id", "orchestrator_attempt_id", "trace_id",
   "inference_request_id"]

theorem known_names (e : Envelope) : e.known.map Prod.fst = KNOWN_NAMES := rfl

/-- The names written are the names the schema generates, each once. -/
theorem names_perm : KNOWN_NAMES.Perm ENVELOPE_FIELD_NAMES := by decide

theorem names_nodup : KNOWN_NAMES.Nodup := by decide

/-! ## Known members -/

/-- The bytes of a member's value, none where it is absent. -/
def valueCost (v : Option Value) : Nat := (v.map fun v => (canonicalBytes v).length).getD 0

theorem sum_members (ms : List (String × Option Value)) :
    ((ms.filterMap fun m => m.2.map fun v => (m.1, v)).map memberCost).sum ≤
      (ms.map fun m => (writeString m.1).length + 2).sum + (ms.map fun m => valueCost m.2).sum := by
  induction ms with
  | nil => simp
  | cons m ms ih =>
    obtain ⟨name, v⟩ := m
    cases v with
    | none =>
      simp only [filterMap_cons, Option.map_none, map_cons, sum_cons]
      omega
    | some v =>
      have hcost : valueCost (some v) = (canonicalBytes v).length := rfl
      simp only [filterMap_cons, Option.map_some, map_cons, sum_cons, memberCost, hcost]
      omega

theorem cost_text {T : Type} [WireText T] {n} (t : T) (h : (utf8 (WireText.text t)).length ≤ n) :
    valueCost (some (textValue t)) ≤ 2 + 6 * n := by
  have hs := length_writeString (WireText.text t)
  show (writeString (WireText.text t)).length ≤ _
  omega

theorem cost_valid {validate : String → Bool} [Bounded validate] (t : Text validate) :
    valueCost (some (textValue t)) ≤ 2 + 6 * Bounded.limit validate := cost_text t (Bounded.fits t.valid)

theorem cost_optional {validate : String → Bool} [Bounded validate] (t : Option (Text validate)) :
    valueCost (t.map textValue) ≤ 2 + 6 * Bounded.limit validate := by
  cases t with
  | none => exact Nat.zero_le _
  | some t => exact cost_valid t

theorem cost_digest (d : Digest) : valueCost (some (textValue d)) ≤ 2 + 6 * 64 := by
  refine cost_text d (Nat.le_of_eq ?_)
  show (utf8 d.toHex).length = 64
  rw [Digest.toHex, Sha256.utf8_encodeHex, Sha256.flatMap_hexPair_length, d.length_raw]

theorem cost_integer (n : U63) : valueCost (some (u63Value n)) ≤ 20 := length_renderI64 _

theorem cost_token {α : Type} [ClosedEnum α] (a : α)
    (h : ∀ v ∈ (ClosedEnum.variants : List α), (utf8 (ClosedEnum.token v)).length ≤ 19) :
    valueCost (some (textValue a)) ≤ 2 + 6 * 19 := cost_text a (h a (ClosedEnum.complete a))

/-- The members whose texts the grammar leaves long: identifiers of the harness and of others. -/
def longValues (e : Envelope) : List (Option Value) :=
  [some (textValue e.upstreamSessionId), some (textValue e.adapterArtifactId),
   e.parentSessionId.map textValue, e.orchestratorAttemptId.map textValue,
   e.traceId.map textValue, e.inferenceRequestId.map textValue]

theorem longValues_le (e : Envelope) : ((longValues e).map valueCost).sum ≤ 6 * 6146 := by
  have hlimits : ∀ n ∈ (longValues e).map valueCost, n ≤ 6146 := by
    simp only [longValues, map_cons, map_nil, forall_mem_cons]
    exact ⟨cost_valid _, cost_valid _, cost_optional _, cost_optional _, cost_optional _,
      cost_optional _, forall_mem_nil _⟩
  exact (sum_le_card_nsmul _ _ hlimits).trans (Nat.le_of_eq rfl)

/-- The longest value that the grammar of each known member allows; the long texts are what they
are. -/
def knownLimits (session artifact parent attempt trace inference : Nat) : List Nat :=
  [20, 20, 218, 218, 218, 386, session, 116, 116, 386, 194, artifact, 218, 116, 20, 20, 386, 386, 116,
   116, 116, 20, 20, 386, 386, 218, 212, 212, 212, parent, attempt, trace, inference]

theorem knownLimits_sum (session artifact parent attempt trace inference : Nat) :
    (knownLimits session artifact parent attempt trace inference).sum =
      5052 + [session, artifact, parent, attempt, trace, inference].sum := by
  simp only [knownLimits, sum_cons, sum_nil]
  omega

theorem known_limits (e : Envelope) :
    List.Forall₂ (fun m limit => valueCost m.2 ≤ limit) e.known
      (knownLimits (valueCost (some (textValue e.upstreamSessionId)))
        (valueCost (some (textValue e.adapterArtifactId)))
        (valueCost (e.parentSessionId.map textValue))
        (valueCost (e.orchestratorAttemptId.map textValue))
        (valueCost (e.traceId.map textValue)) (valueCost (e.inferenceRequestId.map textValue))) :=
  .cons (length_renderI64 _) <| .cons (length_renderI64 _) <| .cons (cost_valid _) <|
  .cons (cost_valid _) <| .cons (cost_valid _) <| .cons (cost_valid _) <| .cons le_rfl <|
  .cons (cost_token _ (by decide)) <| .cons (cost_token _ (by decide)) <| .cons (cost_valid _) <|
  .cons (cost_valid _) <| .cons le_rfl <| .cons (cost_valid _) <|
  .cons (cost_token _ (by decide)) <| .cons (cost_integer _) <| .cons (cost_integer _) <|
  .cons (cost_digest _) <| .cons (cost_digest _) <| .cons (cost_token _ (by decide)) <|
  .cons (cost_token _ (by decide)) <| .cons (cost_token _ (by decide)) <|
  .cons (cost_integer _) <| .cons (cost_integer _) <| .cons (cost_digest _) <|
  .cons (cost_digest _) <| .cons (cost_valid _) <| .cons (cost_valid _) <|
  .cons (cost_valid _) <| .cons (cost_optional _) <| .cons le_rfl <|
  .cons le_rfl <| .cons le_rfl <| .cons le_rfl .nil

theorem sum_values (e : Envelope) :
    (e.known.map fun m => valueCost m.2).sum ≤ 5052 + ((longValues e).map valueCost).sum := by
  have hsum := List.Forall₂.sum_le_sum (forall₂_map_left_iff.mpr (known_limits e))
  rwa [knownLimits_sum] at hsum

theorem sum_names (e : Envelope) :
    (e.known.map fun m => (writeString m.1).length + 2).sum ≤ 1000 := by
  have hnames : (e.known.map fun m => (writeString m.1).length + 2) =
      KNOWN_NAMES.map fun name => (writeString name).length + 2 := rfl
  rw [hnames]
  decide +kernel

/-! ## The whole envelope -/

section
variable {e : Envelope} (h : ((e.present ++ e.unknownFields).map Prod.fst).Nodup)
include h

/-- What is written where no two members share a name. -/
theorem toValue_perm : ∃ object, e.toValue = .object object ∧ Sorted cmpUtf16 object ∧
      object.Perm (e.present ++ e.unknownFields) := ⟨_, rfl, foldl_upsert_nil _ h⟩

theorem length_canonicalBytes : e.canonicalBytes.length ≤
      6054 + ((longValues e).map valueCost).sum + (e.unknownFields.map memberCost).sum := by
  obtain ⟨object, hto, -, hperm⟩ := toValue_perm h
  have hlen := length_object object
  have hsum : (object.map memberCost).sum =
      (e.present.map memberCost).sum + (e.unknownFields.map memberCost).sum := by
    rw [(hperm.map memberCost).sum_eq, map_append, sum_append]
  have hpresent : (e.present.map memberCost).sum ≤ _ := sum_members e.known
  have hnames := sum_names e
  have hvalues := sum_values e
  rw [Envelope.canonicalBytes, hto]
  omega

/-- Only retained members can take an envelope over the cap: those that leave it 22534 bytes
are within it. -/
theorem sizeCheck_of_unknown (hunknown : (e.unknownFields.map memberCost).sum ≤ 22534) :
    e.sizeCheck = .ok () := by
  have hlen := length_canonicalBytes h
  have hlong := longValues_le e
  unfold Envelope.sizeCheck CANONICAL_MAX_BYTES
  rw [if_neg (by omega)]

end

end AgentArchivist.Protocol.EnvelopeSize
