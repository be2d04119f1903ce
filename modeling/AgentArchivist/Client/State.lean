import AgentArchivist.Lib.Keyed
import AgentArchivist.Protocol.Vocabulary
import Mathlib.Algebra.Group.Int.Defs

/-! # The client's durable state

The tables that the capture and upload code reads and writes, with the columns it uses.
A table carries its primary key; the other constraints of the schema stand in `Schema`,
and every operation is shown to keep them. A column whose `CHECK` is a closed list of
tokens is an inductive type. The bounds on the length of a text are left out: the values
that the code binds are texts of the vocabulary, whose grammars imply them. -/
namespace AgentArchivist.Client.State
open Lib.Keyed Lib.Utf8 Protocol.Vocabulary

/-! ## Rows -/

inductive FreshnessLane where
  | freshness
  | backfill
deriving DecidableEq, Repr

structure SourceRow where
  sourceId : String
  harness : String
  sessionHash : String
  freshnessLane : FreshnessLane
  lastCursor : Option String
  lastAcknowledgedRangeEnd : Int
  createdAt : String
  updatedAt : String
deriving DecidableEq

inductive GenerationState where
  | opened
  | closed
deriving DecidableEq, Repr

structure GenerationRow where
  generationId : String
  sourceId : String
  ordinal : Int
  state : GenerationState
deriving DecidableEq

inductive SpoolState where
  | materialized
  | uploading
  | uploaded
  | acknowledged
deriving DecidableEq, Repr

structure SpoolEntryRow where
  spoolEntryId : String
  bundleName : String
  state : SpoolState
  envelopeDigest : String
  sizeBytes : Int
  attemptCount : Int
  nextAttemptAt : Option String
  createdAt : String
  updatedAt : String
deriving DecidableEq

structure FrozenRequestRow where
  requestId : String
  spoolEntryId : Option String
  tenantId : String
  originClientId : String
  uploaderClientId : String
  occurrenceId : String
  envelopeVersion : String
  storageProfile : String
  transportEncoding : Option String
  canonicalDigest : String
  incomingChecksum : String
  canonicalSize : Int
  transportSize : Int
  sourceAt : Option String
  capturedAt : String
  envelopeCreatedAt : String
  frozenAt : String
deriving DecidableEq

structure RangeRow where
  occurrenceId : String
  generationId : String
  rangeKind : RangeKind
  rangeStart : Int
  rangeEnd : Int
  blobDigest : String
  spoolEntryId : Option String
  capturedAt : String
deriving DecidableEq

inductive UploadRelation where
  | direct
  | relay
deriving DecidableEq, Repr

structure AttestationRow where
  attestationId : String
  tenantId : String
  occurrenceId : String
  originClientId : String
  uploaderClientId : String
  requestId : String
  relation : UploadRelation
  recordedAt : String
deriving DecidableEq

structure ReceiptRow where
  requestId : String
  receiptKeyId : String
  signature : String
  receiptDigest : String
  commitOrdinal : Int
  commitTime : String
  signatureVerified : Bool
  receivedAt : String
  receiptBytes : Option (List UInt8)
deriving DecidableEq

inductive QuarantineReason where
  | requestInvalid
  | payloadLimitUnsplittable
deriving DecidableEq, Repr

structure QuarantineRow where
  spoolEntryId : String
  reason : QuarantineReason
  quarantinedAt : String
deriving DecidableEq

/-! ## Tables -/

structure Database where
  sources : Table SourceRow.sourceId
  generations : Table GenerationRow.generationId
  spoolEntries : Table SpoolEntryRow.spoolEntryId
  frozenRequests : Table FrozenRequestRow.requestId
  ranges : Table RangeRow.occurrenceId
  uploadAttestations : Table AttestationRow.attestationId
  receipts : Table ReceiptRow.requestId
  quarantinedUploads : Table QuarantineRow.spoolEntryId

/-- The largest value of an integer column, plus one. -/
def I64_LIMIT : Int := 2 ^ 63

/-- The constraints beside the primary keys. -/
structure Schema (db : Database) : Prop where
  /-- `UNIQUE (spool_entry_id)`, where two nulls do not meet. -/
  frozen_entry : ∀ a ∈ db.frozenRequests, ∀ b ∈ db.frozenRequests, ∀ e,
    a.spoolEntryId = some e → b.spoolEntryId = some e → a = b
  /-- `idx_upload_attestations_request`. -/
  attestation_request : ∀ a ∈ db.uploadAttestations, ∀ b ∈ db.uploadAttestations,
    a.requestId = b.requestId → a = b
  generation_source : ∀ g ∈ db.generations, ∃ s ∈ db.sources, s.sourceId = g.sourceId
  frozen_spool : ∀ f ∈ db.frozenRequests, ∀ e, f.spoolEntryId = some e →
    ∃ se ∈ db.spoolEntries, se.spoolEntryId = e
  range_generation : ∀ r ∈ db.ranges, ∃ g ∈ db.generations, g.generationId = r.generationId
  range_spool : ∀ r ∈ db.ranges, ∀ e, r.spoolEntryId = some e →
    ∃ se ∈ db.spoolEntries, se.spoolEntryId = e
  receipt_request : ∀ c ∈ db.receipts, ∃ f ∈ db.frozenRequests, f.requestId = c.requestId
  quarantined_spool : ∀ q ∈ db.quarantinedUploads, ∃ se ∈ db.spoolEntries,
    se.spoolEntryId = q.spoolEntryId
  watermark : ∀ s ∈ db.sources, -1 ≤ s.lastAcknowledgedRangeEnd ∧
    s.lastAcknowledgedRangeEnd < I64_LIMIT
  ordinal : ∀ g ∈ db.generations, 1 ≤ g.ordinal
  range : ∀ r ∈ db.ranges, 0 ≤ r.rangeStart ∧ r.rangeStart ≤ r.rangeEnd ∧ r.rangeEnd < I64_LIMIT
  size : ∀ se ∈ db.spoolEntries, 0 ≤ se.sizeBytes
  attempts : ∀ se ∈ db.spoolEntries, 0 ≤ se.attemptCount ∧ se.attemptCount < I64_LIMIT
  commit_ordinal : ∀ c ∈ db.receipts, 0 ≤ c.commitOrdinal ∧ c.commitOrdinal < I64_LIMIT

/-! ## The database's answers -/

/-- A driver error, as far as the code tells them apart. -/
inductive SqlError where
  | busy
  | failed
deriving DecidableEq, Repr

/-- What the database answers to the statements of one call beside the rows: a failure, or
the time, which has no text outside the years that SQLite can write. -/
structure Host (Statement : Type) where
  fails : Statement → Option SqlError
  clock : Statement → Option String

namespace Host
variable {Statement ε : Type}

def run (host : Host Statement) (classify : SqlError → ε) (s : Statement) : Except ε Unit :=
  match host.fails s with
  | some error => .error (classify error)
  | none => .ok ()

/-- `SELECT strftime(…, 'now')`, parsed through the vocabulary. -/
def now (host : Host Statement) (classify : SqlError → ε) (unreadable : ε) (s : Statement) :
    Except ε Timestamp := do
  host.run classify s
  match host.clock s with
  -- a null is not read as a text, which is a driver error like any other
  | none => .error (classify .failed)
  | some text =>
    match Text.parse text with
    | .error _ => .error unreadable
    | .ok (timestamp : Timestamp) =>
      if calendarValid timestamp then .ok timestamp else .error unreadable

/-- A host on which no statement fails and the clock can be read. -/
structure Sound (host : Host Statement) : Prop where
  fails : ∀ s, host.fails s = none
  clock : ∀ s, ∃ t : Timestamp, host.clock s = some t.asStr ∧ calendarValid t = true

variable {host : Host Statement} {classify : SqlError → ε} {unreadable : ε}

theorem Sound.run (h : host.Sound) (s : Statement) : host.run classify s = .ok () := by
  rw [Host.run, h.fails s]

theorem Sound.now (h : host.Sound) (s : Statement) :
    ∃ t, host.now classify unreadable s = .ok t := by
  obtain ⟨t, hclock, hvalid⟩ := h.clock s
  refine ⟨t, ?_⟩
  rw [Host.now, h.run s, hclock]
  simp only [bind, Except.bind, Text.parse_asStr, hvalid, if_true]

end Host

/-! ## Names in the spool directory -/

inductive SpoolErrorKind where
  | unavailable
  | unsafePermissions
  | busy
  | materializationPaused
  | malformedName
  | crashInjected
deriving DecidableEq, Repr

def BUNDLE_SUFFIX : String := ".bundle"
def STAGING_SUFFIX : String := ".staging"

/-- `name.strip_suffix(suffix)`. -/
def stripSuffix (suffix name : String) : Option String :=
  if suffix.toList <:+ name.toList then
    some (String.ofList (name.toList.take (name.toList.length - suffix.toList.length)))
  else none

def isBundleName (name : String) : Bool :=
  decide (1 ≤ (utf8 name).length ∧ (utf8 name).length ≤ 255) && !name.toList.contains '/' &&
    !name.toList.contains '\\' &&
    (stripSuffix BUNDLE_SUFFIX name).any fun stem => uuidGrammar 7 stem

end AgentArchivist.Client.State
