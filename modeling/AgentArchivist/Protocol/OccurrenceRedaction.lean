import AgentArchivist.Protocol.Document

/-! # Redacting one occurrence

The registry's detectors run in their pinned order over the text that earlier ones have not
claimed; a claimed region is a removed piece, opaque to every later detector. What a detector
finds in a piece of text is a parameter, so everything here holds for any ten scanners.
Offsets count characters: every extent starts and ends at an ASCII one. -/
namespace AgentArchivist.Protocol.OccurrenceRedaction
open Lib
open Fallible Utf8 Document Json Vocabulary

def MAX_CONTENT_BYTES : Nat := 1048576
def MAX_PARENT_ORDINALS : Nat := 64
def MAX_REPLACEMENTS : Nat := 4096

/-! ## The pinned corpus -/

inductive MarkerClass where
  | pinnedCredential
  | authorizationHeader
  | privateKeyBlock
  | environmentSecret
  | highEntropyToken
deriving DecidableEq, Repr

instance : ClosedEnum MarkerClass where
  variants := [.pinnedCredential, .authorizationHeader, .privateKeyBlock, .environmentSecret,
    .highEntropyToken]
  token
    | .pinnedCredential => "pinned_credential"
    | .authorizationHeader => "authorization_header"
    | .privateKeyBlock => "private_key_block"
    | .environmentSecret => "environment_secret"
    | .highEntropyToken => "high_entropy_token"

def MarkerClass.markerText (c : MarkerClass) : String := "[redacted:" ++ ClosedEnum.token c ++ "]"

inductive PseudonymClass where
  | absolutePath
  | hostname
  | username
  | emailAddress
  | ipAddress
deriving DecidableEq, Repr

instance : ClosedEnum PseudonymClass where
  variants := [.absolutePath, .hostname, .username, .emailAddress, .ipAddress]
  token
    | .absolutePath => "absolute_path"
    | .hostname => "hostname"
    | .username => "username"
    | .emailAddress => "email_address"
    | .ipAddress => "ip_address"

inductive DetectorEmit where
  | marker (c : MarkerClass)
  | pseudonym (c : PseudonymClass)
deriving DecidableEq, Repr

def DetectorEmit.token : DetectorEmit → String
  | .marker c => ClosedEnum.token c
  | .pseudonym c => ClosedEnum.token c

structure DetectorEntry where
  slug : String
  emits : DetectorEmit
  order : UInt8
  testVectors : UInt16
deriving DecidableEq, Repr

def DETECTORS : List DetectorEntry :=
  [⟨"pinned-credential-formats", .marker .pinnedCredential, 1, 12⟩,
   ⟨"authorization-headers", .marker .authorizationHeader, 2, 8⟩,
   ⟨"private-key-blocks", .marker .privateKeyBlock, 3, 10⟩,
   ⟨"environment-secret-assignments", .marker .environmentSecret, 4, 14⟩,
   ⟨"high-entropy-token-candidates", .marker .highEntropyToken, 5, 16⟩,
   ⟨"absolute-path-pseudonyms", .pseudonym .absolutePath, 6, 9⟩,
   ⟨"hostname-pseudonyms", .pseudonym .hostname, 7, 11⟩,
   ⟨"username-pseudonyms", .pseudonym .username, 8, 7⟩,
   ⟨"email-address-pseudonyms", .pseudonym .emailAddress, 9, 6⟩,
   ⟨"ip-address-pseudonyms", .pseudonym .ipAddress, 10, 13⟩]

def DetectorEntry.toValue (entry : DetectorEntry) : Value :=
  .object (assembled
    [("detector", .text entry.slug), ("emits", .text entry.emits.token),
     ("order", .int (Int64.ofNat entry.order.toNat)),
     ("test_vectors", .int (Int64.ofNat entry.testVectors.toNat))])

def corpusValue : Value :=
  .object (assembled
    [("corpus_version", .text "1"),
     ("detectors", .array (DETECTORS.map DetectorEntry.toValue)),
     ("marker_format", .text "[redacted:\x7bclass_token\x7d]"),
     ("pipeline_id", .text "redaction"),
     ("pseudonym_format", .text "ps_<class>_<12 lowercase hex of HMAC-SHA256>"),
     ("pseudonym_key_id_construction",
       .text "HMAC-SHA256(pseudonym key, 'pseudonym-key-id-v1'), lowercase hex"),
     ("structured_field_allowlist",
       .array (["role", "ordinal", "source_time", "parent_ordinals"].map Value.text)),
     ("test_suite_sha256", .text (Sha256.encodeHex
       (Sha256.digest (utf8 "agent-archivist synthetic redaction-v1 test corpus"))))])

def corpusDigest : String := Sha256.encodeHex (Sha256.digest (Json.canonicalBytes corpusValue))

/-! ## Records -/

inductive EpisodeRole where
  | assistant
  | system
  | tool
  | user
deriving DecidableEq, Repr

instance : ClosedEnum EpisodeRole where
  variants := [.assistant, .system, .tool, .user]
  token
    | .assistant => "assistant"
    | .system => "system"
    | .tool => "tool"
    | .user => "user"

structure SourceRecord where
  role : String
  ordinal : UInt64
  sourceTime : Option String
  parentOrdinals : List UInt64
  content : String
deriving DecidableEq, Repr

inductive RedactionGap where
  | unsupported
  | malformed
  | oversized
  | resourceExhausted
  | detectorFailed
deriving DecidableEq, Repr

structure RedactedOccurrence where
  role : EpisodeRole
  ordinal : Int64
  sourceTime : Option Timestamp
  parentOrdinals : List Int64
  content : String
  markerCounts : MarkerClass → Nat
  pseudonymCounts : PseudonymClass → Nat

def RedactedOccurrence.recordValue (o : RedactedOccurrence) : Value :=
  .object (assembled
    ([("content", .text o.content), ("ordinal", .int o.ordinal),
      ("role", .text (ClosedEnum.token o.role))]
      ++ (o.sourceTime.toList.map fun time => ("source_time", .text time.asStr))
      ++ if o.parentOrdinals = [] then []
        else [("parent_ordinals", .array (o.parentOrdinals.map Value.int))]))

/-! ## The engine -/

/-- What a detector, named by its slug, finds in a piece of text: the extents in order, and how
many entropy probes have been spent then. -/
abbrev Scan := String → List Char → Nat → Except RedactionGap (List (Nat × Nat) × Nat)

inductive Piece where
  | text (chars : List Char)
  | removed (replacement : String)
deriving DecidableEq, Repr

structure Engine where
  pieces : List Piece
  markers : MarkerClass → Nat
  pseudonyms : PseudonymClass → Nat
  replacements : Nat
  entropyProbes : Nat

namespace Engine

def new (content : String) : Engine := ⟨[.text content.toList], fun _ => 0, fun _ => 0, 0, 0⟩

def finish (e : Engine) : String :=
  e.pieces.foldl (fun out piece =>
    match piece with
    | .text chars => out ++ String.ofList chars
    | .removed replacement => out ++ replacement) ""

end Engine

/-- The engine's operations keep the state, or refuse the record. -/
abbrev EngineM := StateT Engine (Except RedactionGap)

section
variable (scan : Scan) (render : PseudonymClass → String → String) (entry : DetectorEntry)

/-- One match: the budget, the census, and the replacement. -/
def claim (matched : List Char) : EngineM String := do
  let e ← get
  if MAX_REPLACEMENTS ≤ e.replacements then throw .resourceExhausted
  else match entry.emits with
    | .marker c =>
      set { e with replacements := e.replacements + 1,
                   markers := Function.update e.markers c (e.markers c + 1) }
      pure c.markerText
    | .pseudonym c =>
      set { e with replacements := e.replacements + 1,
                   pseudonyms := Function.update e.pseudonyms c (e.pseudonyms c + 1) }
      pure (render c (String.ofList matched))

/-- The matches of one piece, from `rest` on. -/
def claimAll (text : List Char) : (rest : Nat) → List (Nat × Nat) → EngineM (List Piece)
  | rest, [] => pure (if rest < text.length then [.text (text.drop rest)] else [])
  | rest, (start, stop) :: found => do
    let replacement ← claim render entry ((text.drop start).take (stop - start))
    let pieces ← claimAll text stop found
    pure ((if rest < start then [.text ((text.drop rest).take (start - rest))] else [])
      ++ .removed replacement :: pieces)

/-- One piece under one detector. -/
def claimed : Piece → EngineM (List Piece)
  | .removed replacement => pure [.removed replacement]
  | .text chars => do
    let e ← get
    let (found, probes) ← scan entry.slug chars e.entropyProbes
    set { e with entropyProbes := probes }
    if found = [] then pure [.text chars] else claimAll render entry chars 0 found

/-- `Engine::apply`. -/
def apply : EngineM Unit := do
  let e ← get
  let next ← e.pieces.mapM (claimed scan render entry)
  modify fun e => { e with pieces := next.flatten }

end

/-! ## The census is within its budget -/

/-- No class has fired more often than something was replaced. -/
structure Engine.Within (e : Engine) : Prop where
  markers : ∀ c, e.markers c ≤ e.replacements
  pseudonyms : ∀ c, e.pseudonyms c ≤ e.replacements
  budget : e.replacements ≤ MAX_REPLACEMENTS

/-- Where the operation does not refuse, the census stays within its budget. -/
def Keeps {α : Type} (m : EngineM α) : Prop :=
  ∀ e a e', Engine.Within e → m.run e = .ok (a, e') → Engine.Within e'

section
variable {α β : Type} {scan : Scan} {render : PseudonymClass → String → String}
  {entry : DetectorEntry}

theorem Keeps.pure (a : α) : Keeps (Pure.pure a) := by
  intro e b e' h hrun
  cases hrun
  exact h

theorem Keeps.bind {m : EngineM α} {k : α → EngineM β} (hm : Keeps m) (hk : ∀ a, Keeps (k a)) :
    Keeps (m >>= k) := by
  intro e b e' h hrun
  obtain ⟨⟨a, e1⟩, h1, hrun⟩ := bind_eq_ok.mp hrun
  exact hk a _ _ _ (hm _ _ _ h h1) hrun

/-- A step that reads the state first. -/
theorem Keeps.get {k : Engine → EngineM α}
    (h : ∀ e a e', Engine.Within e → (k e).run e = .ok (a, e') → Engine.Within e') :
    Keeps (get >>= k) := h

theorem Keeps.mapM {f : α → EngineM β} (h : ∀ a, Keeps (f a)) (xs : List α) : Keeps (xs.mapM f) := by
  induction xs with
  | nil => exact .pure []
  | cons x xs ih =>
    rw [List.mapM_cons]
    exact (h x).bind fun _ => ih.bind fun _ => .pure _

theorem update_le {κ : Type} [DecidableEq κ] {f : κ → Nat} {n} (h : ∀ c, f c ≤ n) (k c : κ) :
    Function.update f k (f k + 1) c ≤ n + 1 := by
  by_cases hc : c = k
  · subst hc
    rw [Function.update_self]
    exact Nat.succ_le_succ (h c)
  · rw [Function.update_of_ne hc]
    exact Nat.le_succ_of_le (h c)

theorem claim_keeps (matched : List Char) : Keeps (claim render entry matched) := by
  refine .get fun e a e' h hrun => ?_
  split at hrun
  · cases hrun
  rename_i hbudget
  have hroom : e.replacements + 1 ≤ MAX_REPLACEMENTS := Nat.lt_of_not_le hbudget
  split at hrun <;> cases hrun
  · exact ⟨update_le h.markers _, fun c => Nat.le_succ_of_le (h.pseudonyms c), hroom⟩
  · exact ⟨fun c => Nat.le_succ_of_le (h.markers c), update_le h.pseudonyms _, hroom⟩

theorem claimAll_keeps {text found} : ∀ {rest}, Keeps (claimAll render entry text rest found) := by
  induction found with
  | nil => exact .pure _
  | cons extent found ih => exact (claim_keeps _).bind fun _ => ih.bind fun _ => .pure _

theorem claimed_keeps (piece : Piece) : Keeps (claimed scan render entry piece) := by
  cases piece with
  | removed replacement => exact .pure _
  | text chars =>
    refine .get fun e a e' h hrun => ?_
    obtain ⟨⟨⟨found, probes⟩, e1⟩, -, hrun⟩ := bind_eq_ok.mp hrun
    have hprobed : Engine.Within { e with entropyProbes := probes } :=
      ⟨h.markers, h.pseudonyms, h.budget⟩
    have hfound : Keeps (if found = [] then Pure.pure [.text chars]
        else claimAll render entry chars 0 found) := by
      split
      · exact .pure _
      · exact claimAll_keeps
    exact hfound _ _ _ hprobed hrun

theorem apply_keeps : Keeps (apply scan render entry) := by
  refine .get fun e a e' h hrun => ?_
  obtain ⟨⟨next, e1⟩, h1, hrun⟩ := bind_eq_ok.mp hrun
  cases hrun
  have hw := Keeps.mapM claimed_keeps _ _ _ _ h h1
  exact ⟨hw.markers, hw.pseudonyms, hw.budget⟩

end

/-! ## The transformation -/

def i64TryFrom (n : UInt64) : Except RedactionGap Int64 :=
  if n < 0x8000000000000000 then .ok n.toInt64 else .error .oversized

/-- Parents refer backward, each once. -/
def checkParents (ordinal : Int64) : List Int64 → List UInt64 → Except RedactionGap (List Int64)
  | parents, [] => .ok parents
  | parents, parent :: rest => do
    let parent ← i64TryFrom parent
    if ordinal ≤ parent then .error .malformed
    else if parents.contains parent then .error .malformed
    else checkParents ordinal (parents ++ [parent]) rest

def checkTime : Option String → Except RedactionGap (Option Timestamp)
  | none => .ok none
  | some text => do
    let time : Timestamp ← (Text.parse text).mapError fun _ => .malformed
    if calendarValid time then .ok (some time) else .error .malformed

def redactOccurrence (scan : Scan) (record : SourceRecord)
    (pseudonym : PseudonymClass → String → String) : Except RedactionGap RedactedOccurrence := do
  let role ← (ClosedEnum.parse record.role).mapError fun _ => .unsupported
  if MAX_CONTENT_BYTES < (utf8 record.content).length then .error .oversized
  else if MAX_PARENT_ORDINALS < record.parentOrdinals.length then .error .oversized
  else do
    let ordinal ← i64TryFrom record.ordinal
    let parents ← checkParents ordinal [] record.parentOrdinals
    let sourceTime ← checkTime record.sourceTime
    let (_, engine) ← (DETECTORS.mapM (apply scan pseudonym)).run (Engine.new record.content)
    .ok ⟨role, ordinal, sourceTime, parents, engine.finish, engine.markers, engine.pseudonyms⟩

/-- A redacted record has its source's place, and a census within the budget. -/
theorem redactOccurrence_ok {scan record pseudonym o}
    (h : redactOccurrence scan record pseudonym = .ok o) :
    o.ordinal = record.ordinal.toInt64 ∧ (∀ c, o.markerCounts c ≤ MAX_REPLACEMENTS) ∧
      ∀ c, o.pseudonymCounts c ≤ MAX_REPLACEMENTS := by
  obtain ⟨role, -, h⟩ := bind_eq_ok.mp h
  split at h
  · cases h
  split at h
  · cases h
  obtain ⟨ordinal, hordinal, h⟩ := bind_eq_ok.mp h
  obtain ⟨parents, -, h⟩ := bind_eq_ok.mp h
  obtain ⟨time, -, h⟩ := bind_eq_ok.mp h
  obtain ⟨⟨_, engine⟩, hengine, h⟩ := bind_eq_ok.mp h
  cases h
  have hnew : (Engine.new record.content).Within :=
    ⟨fun _ => Nat.le_refl 0, fun _ => Nat.le_refl 0, Nat.zero_le _⟩
  have hw := Keeps.mapM (fun _ => apply_keeps) _ _ _ _ hnew hengine
  refine ⟨?_, fun c => (hw.markers c).trans hw.budget, fun c => (hw.pseudonyms c).trans hw.budget⟩
  unfold i64TryFrom at hordinal
  split at hordinal <;> cases hordinal
  rfl

end AgentArchivist.Protocol.OccurrenceRedaction
