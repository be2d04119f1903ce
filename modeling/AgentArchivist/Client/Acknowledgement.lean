import AgentArchivist.Auth.ReceiptKeys
import AgentArchivist.Client.State
import AgentArchivist.Protocol.Derivation
import AgentArchivist.Protocol.ObjectKey

/-! # Durable receipt acknowledgement

A receipt is verified, bound to the frozen request that it names, and recorded in one
transaction with the source's watermark and the spool entry's state; the bundle file is
unlinked after the commit. The transaction is a function of the tables that fails or
gives the tables it commits, so that a failed one leaves them; what the call does
outside of itself is the list of its effects, in their order. -/
namespace AgentArchivist.Client.Acknowledgement
open Protocol Auth
open Authority ReceiptKeys Client.State Derivation Json ObjectKey Sha256 Vocabulary

inductive AcknowledgementErrorKind where
  | malformedReceipt
  | untrustedReceipt
  | identityMismatch
  | unavailable
  | busy
  | cleanupPending
deriving DecidableEq, Repr

def AcknowledgementErrorKind.defaultDetail : AcknowledgementErrorKind → String
  | .malformedReceipt => "receipt does not match the v1 acknowledgement shape"
  | .untrustedReceipt => "receipt authority chain or signature failed verification"
  | .identityMismatch => "receipt identity does not match the frozen upload"
  | .unavailable => "acknowledgement state operation failed"
  | .busy => "acknowledgement state database is locked"
  | .cleanupPending => "acknowledgement committed and payload cleanup is pending"

structure AcknowledgementError where
  kind : AcknowledgementErrorKind
  detail : String
deriving DecidableEq, Repr

def ofKind (kind : AcknowledgementErrorKind) : AcknowledgementError := ⟨kind, kind.defaultDetail⟩

def malformed : AcknowledgementError := ofKind .malformedReceipt
def identityMismatch : AcknowledgementError := ofKind .identityMismatch
def unavailable : AcknowledgementError := ofKind .unavailable

def classifySql : SqlError → AcknowledgementError
  | .busy => ofKind .busy
  | .failed => unavailable

structure AcknowledgementRequest where
  receiptBytes : List UInt8
  cursor : String

structure AcknowledgedReceipt where
  requestId : RequestId
  receiptDigest : String
  cursorAdvanced : Bool
deriving DecidableEq

/-- The statements of one call; `second` is the step to a second row of the join. -/
inductive Statement where
  | begin
  | pending
  | second
  | existing
  | fill
  | ordinal
  | receivedAt
  | insert
  | updatedAt
  | cursor
  | acknowledge
  | commit
deriving DecidableEq

abbrev AckHost := Host Statement

def AckHost.exec (host : AckHost) (s : Statement) : Except AcknowledgementError Unit :=
  Host.run host classifySql s

def AckHost.nowUtc (host : AckHost) (s : Statement) : Except AcknowledgementError Timestamp :=
  Host.now host classifySql unavailable s

/-! ## The receipt's fields -/

structure ReceiptFields where
  tenantId : TenantId
  requestId : RequestId
  occurrenceId : OccurrenceId
  attestationId : AttestationId
  blobDigest : BlobDigest
  blobObjectKey : String
  occurrenceObjectKey : String
  attestationObjectKey : String
  commitTime : Timestamp
  receiptKeyId : KeyId
  signature : Ed25519Signature
deriving DecidableEq

def requiredText (object : List (String × Value)) (name : String) :
    Except AcknowledgementError String :=
  match textMember object name with
  | none => .error malformed
  | some text => .ok text

def parseMember {T : Type} [WireText T] (object : List (String × Value)) (name : String) :
    Except AcknowledgementError T := do
  let text ← requiredText object name
  (WireText.fromStr text).mapError fun _ => malformed

def parseInstant (object : List (String × Value)) (name : String) :
    Except AcknowledgementError Timestamp := do
  let timestamp ← parseMember object name
  if calendarValid timestamp then .ok timestamp else .error malformed

/-- The authorization epoch counts from one. -/
def checkEpoch (object : List (String × Value)) : Except AcknowledgementError Unit :=
  match Object.get "authorization_epoch" object with
  | some (.int value) => if 1 ≤ value then .ok () else .error malformed
  | _ => .error malformed

def ReceiptFields.fromObject (object : List (String × Value)) :
    Except AcknowledgementError ReceiptFields :=
  if intMember object "receipt_version" ≠ some 1 ∨ (Object.get "certificate" object).isNone then
    .error malformed
  else do
    let _ ← (parseMember object "signature_algorithm" : Except _ SignatureAlgorithm)
    let _ ← (parseMember object "blob_outcome" : Except _ StorageOutcome)
    let _ ← (parseMember object "occurrence_outcome" : Except _ StorageOutcome)
    let _ ← (parseMember object "attestation_outcome" : Except _ StorageOutcome)
    checkEpoch object
    let _ ← (parseMember object "authorization_key_id" : Except _ KeyId)
    let tenantId ← parseMember object "tenant_id"
    let requestId ← parseMember object "request_id"
    let occurrenceId ← parseMember object "occurrence_id"
    let attestationId ← parseMember object "attestation_id"
    let blobDigest ← parseMember object "blob_digest"
    let blobObjectKey ← requiredText object "blob_object_key"
    let occurrenceObjectKey ← requiredText object "occurrence_object_key"
    let attestationObjectKey ← requiredText object "attestation_object_key"
    let commitTime ← parseInstant object "commit_time"
    let receiptKeyId ← parseMember object "receipt_key_id"
    let signature ← parseMember object "signature"
    .ok { tenantId, requestId, occurrenceId, attestationId, blobDigest, blobObjectKey,
          occurrenceObjectKey, attestationObjectKey, commitTime, receiptKeyId, signature }

def ReceiptFields.parse (bytes : List UInt8) : Except AcknowledgementError ReceiptFields :=
  match Json.parse bytes with
  | .ok (.object object) => ReceiptFields.fromObject object
  | _ => .error malformed

/-- A receipt that verified: its fields and its canonical bytes. -/
structure Evidence where
  fields : ReceiptFields
  canonicalBytes : List UInt8

def Evidence.receiptDigest (evidence : Evidence) : String :=
  encodeHex (digest evidence.canonicalBytes)

section
variable (ed25519 : Verifier) (root : PinnedAuthorityRoot)
  (records : Finmap fun _ : KeyId => List UInt8)

/-- Everything before the transaction. -/
def verifyReceipt (request : AcknowledgementRequest) : Except AcknowledgementError Evidence :=
  if 1024 < request.cursor.length then .error identityMismatch
  else do
    let receipt ← (Receipt.parse request.receiptBytes).mapError fun _ => malformed
    let verified ← (receipt.verify ed25519 root records).mapError fun _ => ofKind .untrustedReceipt
    let fields ← ReceiptFields.parse receipt.canonicalBytes
    if fields.tenantId ≠ verified.tenantId ∨ fields.receiptKeyId ≠ verified.receiptKeyId ∨
        fields.commitTime ≠ verified.commitTime then .error identityMismatch
    else .ok ⟨fields, receipt.canonicalBytes⟩

end

/-! ## The pending upload -/

structure PendingUpload where
  bundleName : String
  state : SpoolState
  sourceId : String
  tenantId : TenantId
  originClientId : ClientId
  uploaderClientId : ClientId
  occurrenceId : OccurrenceId
  storageProfile : StorageProfile
  canonicalDigest : BlobDigest
  rangeBlobDigest : BlobDigest
  rangeEnd : Int
  harness : HarnessId
  sessionHash : SessionHash
  lastCursor : Option String
  lastAcknowledgedRangeEnd : Int
  attestationId : AttestationId
  attestationTenantId : TenantId
  attestationOccurrenceId : OccurrenceId
  attestationOriginClientId : ClientId
  attestationUploaderClientId : ClientId
  attestationRequestId : RequestId

/-- One row of the join that `load_pending` selects. -/
structure Chain where
  frozen : FrozenRequestRow
  entry : SpoolEntryRow
  range : RangeRow
  attestation : AttestationRow
  generation : GenerationRow
  source : SourceRow

/-- `frozen_requests` joined with the tables that complete its identity. -/
def joinedRows (db : Database) (requestId : String) : List Chain :=
  (db.frozenRequests.rows.filter fun frozen => frozen.requestId = requestId).flatMap fun frozen =>
  (db.spoolEntries.rows.filter fun entry =>
    some entry.spoolEntryId = frozen.spoolEntryId).flatMap fun entry =>
  (db.ranges.rows.filter fun range => range.occurrenceId = frozen.occurrenceId ∧
    range.spoolEntryId = some entry.spoolEntryId).flatMap fun range =>
  (db.uploadAttestations.rows.filter fun attestation =>
    attestation.requestId = frozen.requestId).flatMap fun attestation =>
  (db.generations.rows.filter fun generation =>
    generation.generationId = range.generationId).flatMap fun generation =>
  (db.sources.rows.filter fun source => source.sourceId = generation.sourceId).map fun source =>
  ⟨frozen, entry, range, attestation, generation, source⟩

/-- A column whose text is outside its grammar is a mismatch. -/
def column {T : Type} [WireText T] (text : String) : Except AcknowledgementError T :=
  (WireText.fromStr text).mapError fun _ => identityMismatch

def PendingUpload.fromRow (row : Chain) : Except AcknowledgementError PendingUpload :=
  if row.range.rangeEnd < 0 ∨ row.source.lastAcknowledgedRangeEnd < -1 then .error identityMismatch
  else do
    let tenantId ← column row.frozen.tenantId
    let originClientId ← column row.frozen.originClientId
    let uploaderClientId ← column row.frozen.uploaderClientId
    let occurrenceId ← column row.frozen.occurrenceId
    let storageProfile ← column row.frozen.storageProfile
    let canonicalDigest ← column row.frozen.canonicalDigest
    let rangeBlobDigest ← column row.range.blobDigest
    let harness ← column row.source.harness
    let sessionHash ← column row.source.sessionHash
    let attestationId ← column row.attestation.attestationId
    let attestationTenantId ← column row.attestation.tenantId
    let attestationOccurrenceId ← column row.attestation.occurrenceId
    let attestationOriginClientId ← column row.attestation.originClientId
    let attestationUploaderClientId ← column row.attestation.uploaderClientId
    let attestationRequestId ← column row.attestation.requestId
    .ok { bundleName := row.entry.bundleName, state := row.entry.state,
          sourceId := row.source.sourceId, tenantId, originClientId, uploaderClientId,
          occurrenceId, storageProfile, canonicalDigest, rangeBlobDigest,
          rangeEnd := row.range.rangeEnd, harness, sessionHash,
          lastCursor := row.source.lastCursor,
          lastAcknowledgedRangeEnd := row.source.lastAcknowledgedRangeEnd, attestationId,
          attestationTenantId, attestationOccurrenceId, attestationOriginClientId,
          attestationUploaderClientId, attestationRequestId }

def loadPending (host : AckHost) (db : Database) (requestId : RequestId) :
    Except AcknowledgementError PendingUpload := do
  host.exec .pending
  match (joinedRows db requestId.asStr).take 2 with
  | [] => .error identityMismatch
  | row :: rest =>
    let pending ← PendingUpload.fromRow row
    host.exec .second
    if rest.isEmpty then .ok pending else .error identityMismatch

/-- The states that the schema admits are the four that the source accepts, so that the check
on the state refuses none of them. -/
def validateBinding (pending : PendingUpload) (receipt : ReceiptFields) :
    Except AcknowledgementError Unit :=
  if pending.tenantId ≠ receipt.tenantId ∨ pending.occurrenceId ≠ receipt.occurrenceId ∨
      pending.canonicalDigest ≠ receipt.blobDigest ∨ pending.rangeBlobDigest ≠ receipt.blobDigest ∨
      pending.attestationTenantId ≠ pending.tenantId ∨
      pending.attestationOccurrenceId ≠ pending.occurrenceId ∨
      pending.attestationOriginClientId ≠ pending.originClientId ∨
      pending.attestationUploaderClientId ≠ pending.uploaderClientId ∨
      pending.attestationRequestId ≠ receipt.requestId then .error identityMismatch
  else
    let expected := attestationId pending.occurrenceId pending.uploaderClientId receipt.requestId
    if expected ≠ receipt.attestationId ∨ expected ≠ pending.attestationId then
      .error identityMismatch
    else
      let blobKey := BlobObjectKey.new pending.tenantId pending.storageProfile receipt.blobDigest
      let occurrenceKey := OccurrenceObjectKey.new pending.tenantId pending.originClientId
        pending.harness pending.sessionHash receipt.occurrenceId
      let attestationKey := AttestationObjectKey.new pending.tenantId receipt.occurrenceId
        receipt.attestationId
      if receipt.blobObjectKey ≠ blobKey.text ∨ receipt.occurrenceObjectKey ≠ occurrenceKey.text ∨
          receipt.attestationObjectKey ≠ attestationKey.text then .error identityMismatch
      else .ok ()

/-! ## The transaction -/

/-- `SELECT COALESCE(MAX(commit_ordinal), -1) + 1`: a sum past the integers is a float, which
is not read as one. -/
def nextOrdinal (db : Database) : Except AcknowledgementError Int :=
  let next := (db.receipts.rows.map (·.commitOrdinal)).foldl max (-1) + 1
  if next < I64_LIMIT then .ok next else .error unavailable

/-- The evidence column of a row that has none. -/
def fillBytes (db : Database) (evidence : Evidence) : Database :=
  let receipts := db.receipts.update evidence.fields.requestId.asStr
    (fun row => row.receiptBytes.isNone)
    (fun row => { row with receiptBytes := some evidence.canonicalBytes }) fun _ => rfl
  { db with receipts }

def insertReceipt (db : Database) (evidence : Evidence) (ordinal : Int) (receivedAt : Timestamp) :
    Except AcknowledgementError Database :=
  match db.receipts.insert
      { requestId := evidence.fields.requestId.asStr
        receiptKeyId := evidence.fields.receiptKeyId.toHex
        signature := evidence.fields.signature.toHex
        receiptDigest := evidence.receiptDigest
        commitOrdinal := ordinal
        commitTime := evidence.fields.commitTime.asStr
        signatureVerified := true
        receivedAt := receivedAt.asStr
        receiptBytes := some evidence.canonicalBytes } with
  | some receipts => .ok { db with receipts }
  | none => .error (classifySql .failed)

/-- The row that is there, or a new one. -/
def retainReceipt (host : AckHost) (db : Database) (pending : PendingUpload)
    (evidence : Evidence) : Except AcknowledgementError Database := do
  host.exec .existing
  match db.receipts.find? evidence.fields.requestId.asStr with
  | some row =>
    if row.receiptDigest = evidence.receiptDigest ∧ row.signatureVerified then do
      host.exec .fill
      .ok (fillBytes db evidence)
    else .error identityMismatch
  | none =>
    -- an acknowledged entry without its receipt is not repaired
    if pending.state = .acknowledged then .error identityMismatch
    else do
      host.exec .ordinal
      let ordinal ← nextOrdinal db
      let receivedAt ← host.nowUtc .receivedAt
      host.exec .insert
      insertReceipt db evidence ordinal receivedAt

/-- `UPDATE sources SET last_cursor, last_acknowledged_range_end, updated_at`. -/
def advanceCursor (db : Database) (sourceId : String) (cursor : String) (rangeEnd : Int)
    (now : Timestamp) : Database × Nat :=
  let below (row : SourceRow) : Bool := row.lastAcknowledgedRangeEnd < rangeEnd
  let sources := db.sources.update sourceId below (fun row =>
    { row with lastCursor := some cursor, lastAcknowledgedRangeEnd := rangeEnd,
               updatedAt := now.asStr }) fun _ => rfl
  ({ db with sources }, db.sources.changed sourceId below)

/-- `UPDATE sources SET last_cursor, updated_at` at the same boundary. -/
def setCursor (db : Database) (sourceId : String) (cursor : String) (rangeEnd : Int)
    (now : Timestamp) : Database × Nat :=
  let level (row : SourceRow) : Bool := row.lastAcknowledgedRangeEnd = rangeEnd
  let sources := db.sources.update sourceId level (fun row =>
    { row with lastCursor := some cursor, updatedAt := now.asStr }) fun _ => rfl
  ({ db with sources }, db.sources.changed sourceId level)

/-- `UPDATE spool_entries SET state = 'acknowledged'` of the request's entry. -/
def markAcknowledged (db : Database) (requestId : RequestId) (now : Timestamp) : Database × Nat :=
  match (db.frozenRequests.find? requestId.asStr).bind (·.spoolEntryId) with
  | none => (db, 0)
  | some entry =>
    let live (row : SpoolEntryRow) : Bool := row.state ≠ .acknowledged
    let spoolEntries := db.spoolEntries.update entry live (fun row =>
      { row with state := .acknowledged, updatedAt := now.asStr }) fun _ => rfl
    ({ db with spoolEntries }, db.spoolEntries.changed entry live)

/-- The cursor's part of the update. -/
def moveCursor (host : AckHost) (db : Database) (pending : PendingUpload) (cursor : String)
    (now : Timestamp) : Except AcknowledgementError Database :=
  if pending.lastAcknowledgedRangeEnd < pending.rangeEnd then do
    host.exec .cursor
    let (db, changed) := advanceCursor db pending.sourceId cursor pending.rangeEnd now
    if changed ≠ 1 then .error unavailable else .ok db
  else if pending.lastCursor.isNone ∧ pending.lastAcknowledgedRangeEnd = pending.rangeEnd then do
    host.exec .cursor
    let (db, changed) := setCursor db pending.sourceId cursor pending.rangeEnd now
    if changed ≠ 1 then .error unavailable else .ok db
  else .ok db

def updateCursorAndAcknowledge (host : AckHost) (db : Database) (pending : PendingUpload)
    (cursor : String) (requestId : RequestId) : Except AcknowledgementError (Database × Bool) :=
  if pending.lastAcknowledgedRangeEnd = pending.rangeEnd ∧
      pending.lastCursor.any (fun previous => previous ≠ cursor) then .error identityMismatch
  else do
    let now ← host.nowUtc .updatedAt
    let db ← moveCursor host db pending cursor now
    host.exec .acknowledge
    let (db, changed) := markAcknowledged db requestId now
    if pending.state ≠ .acknowledged ∧ changed ≠ 1 then .error unavailable
    else .ok (db, decide (pending.lastAcknowledgedRangeEnd < pending.rangeEnd))

/-- The tables that the transaction commits, with the bundle's name and whether the cursor
advanced. -/
def transact (host : AckHost) (db : Database) (evidence : Evidence) (cursor : String) :
    Except AcknowledgementError (Database × String × Bool) := do
  host.exec .begin
  let pending ← loadPending host db evidence.fields.requestId
  validateBinding pending evidence.fields
  let db ← retainReceipt host db pending evidence
  let (db, advanced) ← updateCursorAndAcknowledge host db pending cursor evidence.fields.requestId
  host.exec .commit
  .ok (db, pending.bundleName, advanced)

/-! ## The call -/

/-- What the filesystem answers when a bundle is unlinked. -/
inductive Unlink where
  | removed
  | notFound
  | failed
deriving DecidableEq, Repr

inductive Effect where
  | commit (db : Database)
  | unlink (bundleName : String)

/-- `Spool::remove`: a name that is no bundle's is not looked for. -/
def removeBundle (answer : Unlink) (bundleName : String) :
    Except SpoolErrorKind Unit × List Effect :=
  if !isBundleName bundleName then (.error .malformedName, [])
  else (if answer = .failed then .error .unavailable else .ok (), [.unlink bundleName])

structure Call where
  host : AckHost
  root : PinnedAuthorityRoot
  records : Finmap fun _ : KeyId => List UInt8
  request : AcknowledgementRequest
  unlink : Unlink

def removalError : SpoolErrorKind → AcknowledgementError
  | .busy => ofKind .busy
  | _ => ofKind .cleanupPending

section
variable (ed25519 : Verifier)

def acknowledgeReceipt (db : Database) (call : Call) :
    Except AcknowledgementError AcknowledgedReceipt × List Effect :=
  match verifyReceipt ed25519 call.root call.records call.request with
  | .error error => (.error error, [])
  | .ok evidence =>
    match transact call.host db evidence call.request.cursor with
    | .error error => (.error error, [])
    | .ok (db', bundleName, cursorAdvanced) =>
      let (removal, effects) := removeBundle call.unlink bundleName
      (removal.mapError removalError |>.map fun () =>
          { requestId := evidence.fields.requestId, receiptDigest := evidence.receiptDigest,
            cursorAdvanced },
        .commit db' :: effects)

/-- The tables after some effects. -/
def settle (db : Database) (effects : List Effect) : Database :=
  effects.foldl (fun db effect => match effect with | .commit db' => db' | .unlink _ => db) db

/-- One call: its result and effects, and the tables it leaves. -/
def step (db : Database) (call : Call) :
    (Except AcknowledgementError AcknowledgedReceipt × List Effect) × Database :=
  (acknowledgeReceipt ed25519 db call, settle db (acknowledgeReceipt ed25519 db call).2)

end

end AgentArchivist.Client.Acknowledgement
