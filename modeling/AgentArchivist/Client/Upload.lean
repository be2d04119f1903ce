import AgentArchivist.Client.Acknowledgement
import AgentArchivist.Client.TimestampOrder

/-! # Frozen uploads

A spool entry's request is frozen once, with its attestation; due entries are claimed one
at a time, each claim counted and scheduled before any attempt; an entry may be
quarantined. Every operation is one transaction: a function of the tables that fails or
gives the tables it commits. -/
namespace AgentArchivist.Client.Upload
open Lib Protocol
open State TimestampOrder Utf8 Derivation Vocabulary

inductive UploadErrorKind where
  | unavailable
  | busy
  | invalidInput
  | identityConflict
  | entropyUnavailable
deriving DecidableEq, Repr

def UploadErrorKind.defaultDetail : UploadErrorKind → String
  | .unavailable => "upload state operation failed"
  | .busy => "upload state database is locked by another process"
  | .invalidInput => "upload inputs or spool state are invalid"
  | .identityConflict => "the spool entry already carries a different frozen identity"
  | .entropyUnavailable => "host randomness could not be read"

structure UploadError where
  kind : UploadErrorKind
  detail : String
deriving DecidableEq, Repr

def ofKind (kind : UploadErrorKind) : UploadError := ⟨kind, kind.defaultDetail⟩

def classifySql : SqlError → UploadError
  | .busy => ofKind .busy
  | .failed => ofKind .unavailable

def absentSpoolEntry : UploadError := ⟨.invalidInput, "the spool entry does not exist"⟩
def notMaterialized : UploadError :=
  ⟨.invalidInput, "only a materialized spool entry can be frozen"⟩
def unreadableClock : UploadError := ⟨.unavailable, "the state database clock is unreadable"⟩
def unrealTimestamp : UploadError :=
  ⟨.invalidInput, "a frozen envelope timestamp is not a real calendar instant"⟩
def unattested : UploadError :=
  ⟨.identityConflict, "the committed frozen request carries no upload attestation"⟩
def negativeAttempts : UploadError := ⟨.unavailable, "attempt count is negative"⟩
def negativeSize : UploadError := ⟨.unavailable, "bundle size is negative"⟩
def ungrammaticalEntry : UploadError := ⟨.unavailable, "spool identity is outside its grammar"⟩
def changedState : UploadError :=
  ⟨.unavailable, "the claimed entry changed state during the claim"⟩

/-- A committed identity that its grammar refuses. -/
def ungrammaticalCommitted (which : String) : UploadError :=
  ⟨.identityConflict, "the committed " ++ which ++ " is outside its grammar"⟩

/-- The shared mint fails where the entropy source cannot be read. -/
def mapMintError : SpoolErrorKind → UploadError
  | .unavailable => ofKind .entropyUnavailable
  | _ => ofKind .unavailable

inductive Statement where
  | begin
  | state
  | existing
  | clock
  | insertRequest
  | insertAttestation
  | candidate
  | update
  | load
  | quarantine
  | commit
deriving DecidableEq

/-- A timestamp with three digits of a second's fraction, as `strftime('%Y-%m-%dT%H:%M:%fZ')`
writes it. -/
abbrev MilliTime := { t : Timestamp // (utf8 t.asStr).length = 24 }

/-- The database's answers; `strftime` is null where the sum has no date. -/
structure UploadHost extends Host Statement where
  strftime : Timestamp → String → Option MilliTime

def UploadHost.exec (host : UploadHost) (s : Statement) : Except UploadError Unit :=
  host.run classifySql s

/-! ## Freezing -/

structure FrozenUpload where
  request : RequestId
  occurrence : OccurrenceId
  attestation : AttestationId
deriving DecidableEq

structure FreezeUpload where
  spoolEntryId : RequestId
  tenantId : TenantId
  originClientId : ClientId
  uploaderClientId : ClientId
  occurrenceId : OccurrenceId
  envelopeVersion : VersionToken
  storageProfile : StorageProfile
  transportEncoding : Option TransportEncoding
  canonicalDigest : BlobDigest
  incomingChecksum : IncomingChecksum
  canonicalSize : UInt64
  transportSize : UInt64
  sourceAt : Option Timestamp
  capturedAt : Timestamp
  envelopeCreatedAt : Timestamp
  relation : UploadRelation
deriving DecidableEq

/-- A size that the columns can hold. -/
def recordedSize (size : UInt64) (which : String) : Except UploadError Int :=
  if size.toNat < 2 ^ 63 then .ok size.toNat
  else .error ⟨.invalidInput, which ++ " size exceeds the size the state schema can record"⟩

def validateFreezeTimestamps (fields : FreezeUpload) : Except UploadError Unit :=
  if calendarValid fields.capturedAt && calendarValid fields.envelopeCreatedAt &&
      fields.sourceAt.all calendarValid then .ok ()
  else .error unrealTimestamp

/-- The committed rows of one entry's freeze. -/
structure CommittedFreeze where
  frozen : FrozenUpload
  columns : FrozenRequestRow
  relation : UploadRelation

def committed {T : Type} [WireText T] (which text : String) : Except UploadError T :=
  (WireText.fromStr text).mapError fun _ => ungrammaticalCommitted which

def frozenOf (db : Database) (spoolEntryId : String) : Option FrozenRequestRow :=
  db.frozenRequests.rows.find? fun row => row.spoolEntryId = some spoolEntryId

def attestationOf (db : Database) (requestId : String) : Option AttestationRow :=
  db.uploadAttestations.rows.find? fun row => row.requestId = requestId

def CommittedFreeze.load (host : UploadHost) (db : Database) (spoolEntryId : RequestId) :
    Except UploadError (Option CommittedFreeze) := do
  host.exec .existing
  match frozenOf db spoolEntryId.asStr with
  | none => .ok none
  | some columns =>
    match attestationOf db columns.requestId with
    | none => .error unattested
    | some attested => do
      let request ← committed "request identity" columns.requestId
      let occurrence ← committed "occurrence identity" columns.occurrenceId
      let attestation ← committed "attestation identity" attested.attestationId
      .ok (some ⟨⟨request, occurrence, attestation⟩, columns, attested.relation⟩)

def CommittedFreeze.assertMatches (self : CommittedFreeze) (fields : FreezeUpload)
    (canonicalSize transportSize : Int) : Except UploadError Unit :=
  if self.frozen.occurrence = fields.occurrenceId ∧
      self.columns.tenantId = fields.tenantId.asStr ∧
      self.columns.originClientId = fields.originClientId.asStr ∧
      self.columns.uploaderClientId = fields.uploaderClientId.asStr ∧
      self.columns.envelopeVersion = fields.envelopeVersion.asStr ∧
      self.columns.storageProfile = ClosedEnum.token fields.storageProfile ∧
      self.columns.transportEncoding = fields.transportEncoding.map ClosedEnum.token ∧
      self.columns.canonicalDigest = fields.canonicalDigest.toHex ∧
      self.columns.incomingChecksum = fields.incomingChecksum.toHex ∧
      self.columns.canonicalSize = canonicalSize ∧
      self.columns.transportSize = transportSize ∧
      self.columns.sourceAt = fields.sourceAt.map Text.asStr ∧
      self.columns.capturedAt = fields.capturedAt.asStr ∧
      self.columns.envelopeCreatedAt = fields.envelopeCreatedAt.asStr ∧
      self.relation = fields.relation ∧
      attestationId self.frozen.occurrence fields.uploaderClientId self.frozen.request =
        self.frozen.attestation then .ok ()
  else .error (ofKind .identityConflict)

/-- The row of a request that is frozen now. -/
def frozenRow (fields : FreezeUpload) (request : RequestId) (canonicalSize transportSize : Int)
    (now : Timestamp) : FrozenRequestRow where
  requestId := request.asStr
  spoolEntryId := some fields.spoolEntryId.asStr
  tenantId := fields.tenantId.asStr
  originClientId := fields.originClientId.asStr
  uploaderClientId := fields.uploaderClientId.asStr
  occurrenceId := fields.occurrenceId.toHex
  envelopeVersion := fields.envelopeVersion.asStr
  storageProfile := ClosedEnum.token fields.storageProfile
  transportEncoding := fields.transportEncoding.map ClosedEnum.token
  canonicalDigest := fields.canonicalDigest.toHex
  incomingChecksum := fields.incomingChecksum.toHex
  canonicalSize := canonicalSize
  transportSize := transportSize
  sourceAt := fields.sourceAt.map Text.asStr
  capturedAt := fields.capturedAt.asStr
  envelopeCreatedAt := fields.envelopeCreatedAt.asStr
  frozenAt := now.asStr

def attestationRow (fields : FreezeUpload) (request : RequestId) (now : Timestamp) :
    AttestationRow where
  attestationId := (attestationId fields.occurrenceId fields.uploaderClientId request).toHex
  tenantId := fields.tenantId.asStr
  occurrenceId := fields.occurrenceId.toHex
  originClientId := fields.originClientId.asStr
  uploaderClientId := fields.uploaderClientId.asStr
  requestId := request.asStr
  relation := fields.relation
  recordedAt := now.asStr

/-- `INSERT INTO frozen_requests`: a key or an entry that is there already is refused. -/
def insertRequest (db : Database) (row : FrozenRequestRow) : Except UploadError Database :=
  if row.spoolEntryId.isSome ∧ db.frozenRequests.rows.any fun r => r.spoolEntryId = row.spoolEntryId
  then .error (classifySql .failed)
  else match db.frozenRequests.insert row with
    | some frozenRequests => .ok { db with frozenRequests }
    | none => .error (classifySql .failed)

/-- `INSERT INTO upload_attestations`, whose requests are unique too. -/
def insertAttestation (db : Database) (row : AttestationRow) : Except UploadError Database :=
  if db.uploadAttestations.rows.any fun r => r.requestId = row.requestId
  then .error (classifySql .failed)
  else match db.uploadAttestations.insert row with
    | some uploadAttestations => .ok { db with uploadAttestations }
    | none => .error (classifySql .failed)

/-- The branch of `freeze_upload` for an entry that has no request yet. -/
def freezeNew (host : UploadHost) (mint : Except SpoolErrorKind RequestId) (db : Database)
    (fields : FreezeUpload) (canonicalSize transportSize : Int) :
    Except UploadError (FrozenUpload × Database) := do
  let request ← mint.mapError mapMintError
  let now ← host.now (fun _ => unreadableClock) unreadableClock .clock
  host.exec .insertRequest
  let db ← insertRequest db (frozenRow fields request canonicalSize transportSize now)
  host.exec .insertAttestation
  let db ← insertAttestation db (attestationRow fields request now)
  .ok (⟨request, fields.occurrenceId,
    attestationId fields.occurrenceId fields.uploaderClientId request⟩, db)

/-- A committed freeze is restated or refused. -/
def freezeOrRestate (host : UploadHost) (mint : Except SpoolErrorKind RequestId) (db : Database)
    (fields : FreezeUpload) (canonicalSize transportSize : Int) :
    Option CommittedFreeze → Except UploadError (FrozenUpload × Database)
  | some committed => do
    committed.assertMatches fields canonicalSize transportSize
    .ok (committed.frozen, db)
  | none => freezeNew host mint db fields canonicalSize transportSize

/-- The transaction of `freeze_upload`; `mint` is the identity that it would draw. -/
def freezeUpload (host : UploadHost) (mint : Except SpoolErrorKind RequestId) (db : Database)
    (fields : FreezeUpload) : Except UploadError (FrozenUpload × Database) := do
  let canonicalSize ← recordedSize fields.canonicalSize "canonical"
  let transportSize ← recordedSize fields.transportSize "transport"
  validateFreezeTimestamps fields
  host.exec .begin
  host.exec .state
  match db.spoolEntries.find? fields.spoolEntryId.asStr with
  | none => .error absentSpoolEntry
  | some entry =>
    if entry.state ≠ .materialized then .error notMaterialized
    else do
      let existing ← CommittedFreeze.load host db fields.spoolEntryId
      let frozen ← freezeOrRestate host mint db fields canonicalSize transportSize existing
      host.exec .commit
      .ok frozen

/-! ## The retry schedule -/

structure RetryPolicy where
  baseMs : UInt64
  capMs : UInt64

/-- A base of zero is read as one millisecond. -/
def RetryPolicy.new (baseMs capMs : UInt64) : RetryPolicy :=
  ⟨if baseMs = 0 then 1 else baseMs, capMs⟩

/-- The base doubled once for every failure, up to the cap, which also stands for a product that
leaves the word. -/
def RetryPolicy.upperBoundMs (self : RetryPolicy) (failures : Nat) : Nat :=
  let doubled := self.baseMs.toNat * 2 ^ failures
  min (if failures < 64 ∧ doubled < 2 ^ 64 then doubled else self.capMs.toNat) self.capMs.toNat

/-- The high half of the 128-bit product. -/
def uniformBelow (bits : UInt64) (upper : Nat) : Nat := bits.toNat * upper / 2 ^ 64

/-- `bits` is what the jitter source answers. -/
def RetryPolicy.fullJitterMs (self : RetryPolicy) (failures : Nat)
    (bits : Except UploadError UInt64) : Except UploadError Nat := do
  let bits ← bits
  .ok (uniformBelow bits (self.upperBoundMs failures))

/-- The modifier that `strftime` adds. -/
def delayDirective (delayMs : Nat) : String :=
  let fraction := String.ofList ((Nat.toDigits 10 (delayMs % 1000)).leftpad 3 '0')
  "+" ++ toString (delayMs / 1000) ++ "." ++ fraction ++ " seconds"

/-! ## Claiming -/

structure RetryClaim where
  frozen : FrozenUpload
  spoolEntryId : RequestId
  bundleName : String
  envelopeDigest : String
  sizeBytes : Nat
  attemptCount : Nat
  retryDelayMs : Nat

/-- The rows that the claim's `WHERE` admits. A second request of an entry would only repeat
its row. -/
def candidates (db : Database) (now : Timestamp) : List SpoolEntryRow :=
  db.spoolEntries.rows.filter fun entry =>
    (frozenOf db entry.spoolEntryId).isSome && entry.state = .materialized &&
      entry.nextAttemptAt.all (textLe · now.asStr) &&
      !db.quarantinedUploads.rows.any fun row => row.spoolEntryId = entry.spoolEntryId

/-- `ORDER BY next_attempt_at, spool_entry_id`, where a null comes first. -/
def precedes (a b : SpoolEntryRow) : Bool :=
  match a.nextAttemptAt, b.nextAttemptAt with
  | none, some _ => true
  | some _, none => false
  | none, none => textLe a.spoolEntryId b.spoolEntryId
  | some s, some t => if s = t then textLe a.spoolEntryId b.spoolEntryId else textLe s t

/-- `LIMIT 1`. -/
def firstDue : List SpoolEntryRow → Option SpoolEntryRow
  | [] => none
  | entry :: rest =>
    match firstDue rest with
    | none => some entry
    | some best => if precedes entry best then some entry else some best

/-- `UPDATE spool_entries SET attempt_count, next_attempt_at, updated_at`. -/
def schedule (host : UploadHost) (db : Database) (entryId : RequestId) (now : Timestamp)
    (delayMs : Nat) : Database × Nat :=
  let live (row : SpoolEntryRow) : Bool := row.state = .materialized
  let spoolEntries := db.spoolEntries.update entryId.asStr live (fun row =>
    { row with attemptCount := row.attemptCount + 1,
               nextAttemptAt := (host.strftime now (delayDirective delayMs)).map (·.1.asStr),
               updatedAt := now.asStr }) fun _ => rfl
  ({ db with spoolEntries }, db.spoolEntries.changed entryId.asStr live)

/-- A count past the integers was stored as a float, which is not read as one. -/
def loadClaim (host : UploadHost) (db : Database) (entryId : RequestId) (delayMs : Nat) :
    Except UploadError RetryClaim := do
  host.exec .load
  match db.spoolEntries.find? entryId.asStr, frozenOf db entryId.asStr with
  | some entry, some columns =>
    match attestationOf db columns.requestId with
    | none => .error (classifySql .failed)
    | some attested =>
      if I64_LIMIT ≤ entry.attemptCount then .error (classifySql .failed)
      else if entry.sizeBytes < 0 then .error negativeSize
      else if entry.attemptCount < 0 then .error negativeAttempts
      else do
        let request ← committed "request identity" columns.requestId
        let occurrence ← committed "occurrence identity" columns.occurrenceId
        let attestation ← committed "attestation identity" attested.attestationId
        .ok { frozen := ⟨request, occurrence, attestation⟩, spoolEntryId := entryId,
              bundleName := entry.bundleName, envelopeDigest := entry.envelopeDigest,
              sizeBytes := entry.sizeBytes.toNat, attemptCount := entry.attemptCount.toNat,
              retryDelayMs := delayMs }
  | _, _ => .error (classifySql .failed)

/-- The claimed entry with the tables that the claim commits. -/
def claimDueUpload (host : UploadHost) (db : Database) (now : Timestamp) (policy : RetryPolicy)
    (bits : Except UploadError UInt64) : Except UploadError (Option RetryClaim × Database) := do
  host.exec .begin
  host.exec .candidate
  match firstDue (candidates db now) with
  | none => .ok (none, db)
  | some entry =>
    if entry.attemptCount < 0 then .error negativeAttempts
    else do
      let entryId ← ((Text.parse entry.spoolEntryId).mapError fun _ => ungrammaticalEntry :
        Except UploadError RequestId)
      let delayMs ← policy.fullJitterMs entry.attemptCount.toNat bits
      host.exec .update
      let (db, changed) := schedule host db entryId now delayMs
      if changed ≠ 1 then .error changedState
      else do
        let claimed ← loadClaim host db entryId delayMs
        host.exec .commit
        .ok (some claimed, db)

/-! ## Quarantine -/

/-- `INSERT OR IGNORE INTO quarantined_uploads`: the first reason stays, and an entry that is not
there is refused by its foreign key. -/
def quarantineUpload (host : UploadHost) (db : Database) (spoolEntryId : RequestId)
    (reason : QuarantineReason) (now : Timestamp) : Except UploadError (Bool × Database) := do
  host.exec .quarantine
  match db.quarantinedUploads.insert ⟨spoolEntryId.asStr, reason, now.asStr⟩ with
  | none => .ok (false, db)
  | some quarantinedUploads =>
    if (db.spoolEntries.find? spoolEntryId.asStr).isNone then .error absentSpoolEntry
    else .ok (true, { db with quarantinedUploads })

end AgentArchivist.Client.Upload
