import AgentArchivist.Client.AcknowledgementBinding

/-! # What an acknowledgement commits

`Committed` says everything that a committed transaction has found and done: the chain of
its request, the receipt's row, the source's row and the spool entry, and that no other
table and no other row changed. A transaction commits exactly so (`transact_ok`), and on a
database that answers it commits whenever the request's chain matches, unless the cursor
conflicts at the watermark or the ordinals are used up (`transact_iff`). -/
namespace AgentArchivist.Client.AcknowledgementSteps
open Lib
open Acknowledgement AcknowledgementBinding State Fallible Keyed Protocol.Vocabulary

/-! ## Rows after the transaction -/

/-- A source after a range up to `rangeEnd` was acknowledged with a cursor. -/
def moved (cursor : String) (rangeEnd : Int) (now : Timestamp) (row : SourceRow) : SourceRow :=
  if row.lastAcknowledgedRangeEnd < rangeEnd then
    { row with lastCursor := some cursor, lastAcknowledgedRangeEnd := rangeEnd,
               updatedAt := now.asStr }
  else if row.lastCursor.isNone ∧ row.lastAcknowledgedRangeEnd = rangeEnd then
    { row with lastCursor := some cursor, updatedAt := now.asStr }
  else row

/-- A spool entry after its acknowledgement. -/
def closed (now : Timestamp) (row : SpoolEntryRow) : SpoolEntryRow :=
  if row.state ≠ .acknowledged then { row with state := .acknowledged, updatedAt := now.asStr }
  else row

/-- The evidence of a row that has none. -/
def filled (evidence : Evidence) (row : ReceiptRow) : ReceiptRow :=
  if row.receiptBytes.isNone then { row with receiptBytes := some evidence.canonicalBytes } else row

/-- The row of a receipt that was not there. -/
def recorded (evidence : Evidence) (ordinal : Int) (receivedAt : Timestamp) : ReceiptRow where
  requestId := evidence.fields.requestId.asStr
  receiptKeyId := evidence.fields.receiptKeyId.toHex
  signature := evidence.fields.signature.toHex
  receiptDigest := evidence.receiptDigest
  commitOrdinal := ordinal
  commitTime := evidence.fields.commitTime.asStr
  signatureVerified := true
  receivedAt := receivedAt.asStr
  receiptBytes := some evidence.canonicalBytes

section
variable {cursor : String} {rangeEnd : Int} {now : Timestamp} {evidence : Evidence}

theorem moved_sourceId (row : SourceRow) : (moved cursor rangeEnd now row).sourceId = row.sourceId := by
  unfold moved
  split
  · rfl
  · split <;> rfl

theorem moved_watermark (row : SourceRow) :
    (moved cursor rangeEnd now row).lastAcknowledgedRangeEnd =
      max row.lastAcknowledgedRangeEnd rangeEnd := by
  unfold moved
  split
  · next h => exact (max_eq_right h.le).symm
  · next h =>
    rw [max_eq_left (not_lt.mp h)]
    split <;> rfl

theorem closed_entryId (row : SpoolEntryRow) : (closed now row).spoolEntryId = row.spoolEntryId := by
  unfold closed; split <;> rfl

theorem closed_bundleName (row : SpoolEntryRow) : (closed now row).bundleName = row.bundleName := by
  unfold closed; split <;> rfl

theorem closed_state (row : SpoolEntryRow) : (closed now row).state = .acknowledged := by
  unfold closed
  split
  · rfl
  · next h => simpa using h

theorem filled_requestId (row : ReceiptRow) : (filled evidence row).requestId = row.requestId := by
  unfold filled; split <;> rfl

end

def movedSources (sources : Table SourceRow.sourceId) (row : Chain) (cursor : String)
    (now : Timestamp) : Table SourceRow.sourceId :=
  sources.update row.source.sourceId (fun _ => true) (moved cursor row.range.rangeEnd now)
    moved_sourceId

def closedEntries (entries : Table SpoolEntryRow.spoolEntryId) (entryId : String)
    (now : Timestamp) : Table SpoolEntryRow.spoolEntryId :=
  entries.update entryId (fun _ => true) (closed now) closed_entryId

def filledReceipts (receipts : Table ReceiptRow.requestId) (evidence : Evidence) :
    Table ReceiptRow.requestId :=
  receipts.update evidence.fields.requestId.asStr (fun _ => true) (filled evidence) filled_requestId

/-! ## The committed transaction -/

/-- Another cursor stands at the very end of the range: the one case in which a cursor is
refused. -/
def Conflicting (row : Chain) (cursor : String) : Prop :=
  row.source.lastAcknowledgedRangeEnd = row.range.rangeEnd ∧
    ∃ previous, row.source.lastCursor = some previous ∧ previous ≠ cursor

/-- The receipts after the transaction: the row was there, verified and of the same bytes, or
there was none and the entry was not acknowledged. -/
inductive Retained (db : Database) (evidence : Evidence) (state : SpoolState) :
    Table ReceiptRow.requestId → Prop
  | kept {row : ReceiptRow} (found : db.receipts.find? evidence.fields.requestId.asStr = some row)
      (same : row.receiptDigest = evidence.receiptDigest) (verified : row.signatureVerified = true) :
      Retained db evidence state (filledReceipts db.receipts evidence)
  | new {ordinal : Int} {receivedAt : Timestamp} {receipts : Table ReceiptRow.requestId}
      (pending : state ≠ .acknowledged) (fits : nextOrdinal db = .ok ordinal)
      (inserted : db.receipts.insert (recorded evidence ordinal receivedAt) = some receipts) :
      Retained db evidence state receipts

/-- The tables after the transaction, for the request's chain. -/
structure Committed (db : Database) (evidence : Evidence) (cursor : String) (row : Chain)
    (db' : Database) : Prop where
  linked : Linked db row
  request : row.frozen.requestId = evidence.fields.requestId.asStr
  matching : Matches row evidence.fields
  boundary : ¬ Conflicting row cursor
  receipts : Retained db evidence row.entry.state db'.receipts
  sources : ∃ now, db'.sources = movedSources db.sources row cursor now
  entries : ∃ now, db'.spoolEntries = closedEntries db.spoolEntries row.entry.spoolEntryId now
  generations : db'.generations = db.generations
  frozenRequests : db'.frozenRequests = db.frozenRequests
  ranges : db'.ranges = db.ranges
  attestations : db'.uploadAttestations = db.uploadAttestations
  quarantined : db'.quarantinedUploads = db.quarantinedUploads

variable {db db' : Database} {host : AckHost} {evidence : Evidence} {cursor : String}
  {row : Chain} {p : PendingUpload} {now : Timestamp}

theorem fillBytes_eq :
    fillBytes db evidence = { db with receipts := filledReceipts db.receipts evidence } := by
  have h : (fillBytes db evidence).receipts = filledReceipts db.receipts evidence := by
    refine Table.update_congr (by intro _; rfl) _ fun row _ => ?_
    simp [filled]
  rw [← h]
  rfl

theorem retainReceipt_ok (h : retainReceipt host db p evidence = .ok db') :
    ∃ receipts, Retained db evidence p.state receipts ∧ db' = { db with receipts } := by
  simp only [retainReceipt, bind_eq_ok] at h
  obtain ⟨_, _, h⟩ := h
  split at h
  · next found hfind =>
    simp only [require_eq_ok, bind_eq_ok] at h
    obtain ⟨hsame, _, _, h⟩ := h
    cases h
    exact ⟨_, .kept hfind hsame.1 hsame.2, fillBytes_eq⟩
  · next hnone =>
    simp only [refuse_eq_ok, bind_eq_ok] at h
    obtain ⟨hstate, _, _, ordinal, hord, receivedAt, _, _, _, h⟩ := h
    unfold insertReceipt at h
    split at h
    · next receipts hins =>
      cases h
      exact ⟨receipts, .new hstate hord hins, rfl⟩
    · cases h

theorem moveCursor_ok (hreads : Reads row p) (hsource : row.source ∈ db.sources)
    (h : moveCursor host db p cursor now = .ok db') :
    db' = { db with sources := movedSources db.sources row cursor now } := by
  have hfind := Table.find?_mem hsource
  unfold moveCursor at h
  rw [← hreads.sourceId, ← hreads.rangeEnd, ← hreads.lastEnd, ← hreads.lastCursor] at h
  split at h
  · next hlt =>
    obtain ⟨_, _, h⟩ := bind_eq_ok.mp h
    obtain ⟨_, h⟩ := refuse_eq_ok.mp h
    cases h
    congr 1
    refine Table.update_congr _ _ fun r hr => ?_
    cases hfind.symm.trans hr
    simp [moved, hlt]
  · next hlt =>
    split at h
    · next hnone =>
      obtain ⟨_, _, h⟩ := bind_eq_ok.mp h
      obtain ⟨_, h⟩ := refuse_eq_ok.mp h
      cases h
      congr 1
      refine Table.update_congr _ _ fun r hr => ?_
      cases hfind.symm.trans hr
      simp [moved, hnone]
    · next hstay =>
      cases h
      symm
      congr 1
      refine Table.update_eq_self fun r hr _ => ?_
      cases hfind.symm.trans hr
      rw [moved, if_neg hlt, if_neg hstay]

theorem markAcknowledged_eq (requestId : RequestId) (hfrozen : row.frozen ∈ db.frozenRequests)
    (hreq : row.frozen.requestId = requestId.asStr)
    (hentry : row.frozen.spoolEntryId = some row.entry.spoolEntryId) :
    markAcknowledged db requestId now =
      ({ db with spoolEntries := closedEntries db.spoolEntries row.entry.spoolEntryId now },
        db.spoolEntries.changed row.entry.spoolEntryId fun row => row.state ≠ .acknowledged) := by
  have hfind : db.frozenRequests.find? requestId.asStr = some row.frozen :=
    Table.find?_eq_some.mpr ⟨hfrozen, hreq⟩
  simp only [markAcknowledged, hfind, Option.bind_some, hentry]
  congr 2
  refine Table.update_congr _ _ fun r _ => ?_
  simp [closed]

theorem any_ne_iff {o} :
    o.any (fun previous => decide (previous ≠ cursor)) = true ↔
      ∃ previous, o = some previous ∧ previous ≠ cursor := by
  cases o <;> simp

theorem transact_ok {name advanced} (hschema : Schema db)
    (h : transact host db evidence cursor = .ok (db', name, advanced)) :
    ∃ row, Committed db evidence cursor row db' ∧ name = row.entry.bundleName ∧
      advanced = decide (row.source.lastAcknowledgedRangeEnd < row.range.rangeEnd) := by
  simp only [transact, bind_eq_ok] at h
  obtain ⟨_, _, p, hload, _, hbind, db1, hretain, ⟨db2, adv⟩, hupdate, _, _, h⟩ := h
  cases h
  obtain ⟨_, _, row, hlinked, hreq, hreads⟩ := (loadPending_ok hschema).mp hload
  obtain ⟨receipts, hretained, rfl⟩ := retainReceipt_ok hretain
  rw [← hreads.state] at hretained
  simp only [updateCursorAndAcknowledge, refuse_eq_ok, bind_eq_ok] at hupdate
  obtain ⟨hconflict, now, _, db3, hmove, _, _, hupdate⟩ := hupdate
  have hsource : row.source ∈ ({ db with receipts } : Database).sources := hlinked.source
  obtain rfl := moveCursor_ok hreads hsource hmove
  have hfrozen : row.frozen ∈
      ({ db with receipts, sources := movedSources db.sources row cursor now } : Database).frozenRequests :=
    hlinked.frozen
  rw [markAcknowledged_eq _ hfrozen hreq hlinked.frozen_entry] at hupdate
  obtain ⟨_, hupdate⟩ := hupdate
  cases hupdate
  refine ⟨row, ⟨hlinked, hreq, (validateBinding_ok hreads).mp hbind, ?_, hretained, ⟨now, rfl⟩,
    ⟨now, rfl⟩, rfl, rfl, rfl, rfl, rfl⟩, hreads.bundleName.symm, ?_⟩
  · intro ⟨hend, hprevious⟩
    refine hconflict ⟨?_, ?_⟩
    · rw [← hreads.lastEnd, ← hreads.rangeEnd, hend]
    · rw [← hreads.lastCursor]
      exact any_ne_iff.mpr hprevious
  · rw [hreads.lastEnd, hreads.rangeEnd]

/-! ## When it commits -/

/-- The receipt can be retained: its row is there already, or the next ordinal fits. -/
def Receivable (db : Database) (evidence : Evidence) (state : SpoolState) : Prop :=
  match db.receipts.find? evidence.fields.requestId.asStr with
  | some row => row.receiptDigest = evidence.receiptDigest ∧ row.signatureVerified = true
  | none => state ≠ .acknowledged ∧ ∃ ordinal, nextOrdinal db = .ok ordinal

variable {receipts : Table ReceiptRow.requestId}

theorem Retained.receivable {state} (h : Retained db evidence state receipts) :
    Receivable db evidence state := by
  cases h with
  | kept found same verified => simp only [Receivable, found, same, verified, and_self]
  | new pending fits inserted =>
    have hnone := (Table.insert_eq_some.mp inserted).1
    simp only [recorded] at hnone
    simp only [Receivable, hnone]
    exact ⟨pending, _, fits⟩

theorem retainReceipt_sound (hsound : host.Sound) (h : Receivable db evidence p.state) :
    ∃ db', retainReceipt host db p evidence = .ok db' := by
  have hexec (s : Statement) : host.exec s = .ok () := hsound.run s
  obtain ⟨receivedAt, hnow⟩ : ∃ t, host.nowUtc .receivedAt = .ok t := hsound.now _
  unfold Receivable at h
  simp only [retainReceipt, hexec, hnow, bind, Except.bind]
  split at h
  · next found hfind =>
    simp only [hfind, h, and_self, if_true]
    exact ⟨_, rfl⟩
  next hnone =>
  obtain ⟨hstate, ordinal, hord⟩ := h
  have hkey : db.receipts.find? (recorded evidence ordinal receivedAt).requestId = none := hnone
  obtain ⟨receipts, hins⟩ := Table.exists_insert hkey
  simp only [hnone, hstate, if_false, hord, insertReceipt]
  simp only [recorded] at hins
  rw [hins]
  exact ⟨_, rfl⟩

theorem moveCursor_sound (cursor : String) (now : Timestamp) (hsound : host.Sound) (hreads : Reads row p)
    (hsource : row.source ∈ db.sources) : ∃ db', moveCursor host db p cursor now = .ok db' := by
  have hexec (s : Statement) : host.exec s = .ok () := hsound.run s
  unfold moveCursor
  rw [← hreads.sourceId, ← hreads.rangeEnd, ← hreads.lastEnd, ← hreads.lastCursor]
  split
  · next hlt =>
    have hchanged : db.sources.changed row.source.sourceId
        (fun r => decide (r.lastAcknowledgedRangeEnd < row.range.rangeEnd)) = 1 :=
      Table.changed_eq_one.mpr ⟨_, hsource, rfl, by simpa using hlt⟩
    simp only [hexec, bind, Except.bind, advanceCursor, hchanged, ne_eq, not_true_eq_false, if_false]
    exact ⟨_, rfl⟩
  · split
    · next hlevel =>
      have hchanged : db.sources.changed row.source.sourceId
          (fun r => decide (r.lastAcknowledgedRangeEnd = row.range.rangeEnd)) = 1 :=
        Table.changed_eq_one.mpr ⟨_, hsource, rfl, by simpa using hlevel.2⟩
      simp only [hexec, bind, Except.bind, setCursor, hchanged, ne_eq, not_true_eq_false, if_false]
      exact ⟨_, rfl⟩
    · exact ⟨_, rfl⟩

theorem updateCursorAndAcknowledge_sound (hsound : host.Sound) (hreads : Reads row p)
    (hlinked : Linked db row) (hreq : row.frozen.requestId = evidence.fields.requestId.asStr)
    (hboundary : ¬ Conflicting row cursor) :
    ∃ result, updateCursorAndAcknowledge host db p cursor evidence.fields.requestId = .ok result := by
  have hexec (s : Statement) : host.exec s = .ok () := hsound.run s
  obtain ⟨now, hnow⟩ : ∃ t, host.nowUtc .updatedAt = .ok t := hsound.now _
  obtain ⟨db1, hmove⟩ := moveCursor_sound cursor now hsound hreads hlinked.source
  have hconflict : ¬ (p.lastAcknowledgedRangeEnd = p.rangeEnd ∧
      p.lastCursor.any (fun previous => decide (previous ≠ cursor)) = true) := by
    rw [← hreads.rangeEnd, ← hreads.lastEnd, ← hreads.lastCursor, any_ne_iff]
    exact hboundary
  obtain rfl := moveCursor_ok hreads hlinked.source hmove
  have hfrozen : row.frozen ∈
      ({ db with sources := movedSources db.sources row cursor now } : Database).frozenRequests :=
    hlinked.frozen
  simp only [updateCursorAndAcknowledge, hconflict, if_false, hnow, hmove, hexec, bind, Except.bind,
    markAcknowledged_eq _ hfrozen hreq hlinked.frozen_entry]
  split
  · next hstuck =>
    rw [← hreads.state] at hstuck
    exact absurd (Table.changed_eq_one.mpr ⟨_, hlinked.entry, rfl, by simpa using hstuck.1⟩) hstuck.2
  · exact ⟨_, rfl⟩

/-- A matching request is refused at a conflicting cursor, where its receipt cannot be retained,
and nowhere else. -/
theorem transact_iff (hschema : Schema db) (hsound : host.Sound) (hlinked : Linked db row)
    (hreq : row.frozen.requestId = evidence.fields.requestId.asStr)
    (m : Matches row evidence.fields) :
    (∃ result, transact host db evidence cursor = .ok result) ↔
      ¬ Conflicting row cursor ∧ Receivable db evidence row.entry.state := by
  constructor
  · intro ⟨⟨db', name, advanced⟩, h⟩
    obtain ⟨row', hc, -⟩ := transact_ok hschema h
    obtain rfl := hlinked.unique hschema hc.linked (hreq.trans hc.request.symm)
    exact ⟨hc.boundary, hc.receipts.receivable⟩
  · intro ⟨hboundary, hreceivable⟩
    have hexec (s : Statement) : host.exec s = .ok () := hsound.run s
    obtain ⟨p, hreads⟩ := m.reads hschema hlinked
    have hload := (loadPending_ok hschema).mpr ⟨hexec _, hexec _, row, hlinked, hreq, hreads⟩
    have hbind := (validateBinding_ok hreads).mpr m
    rw [hreads.state] at hreceivable
    obtain ⟨db1, hretain⟩ := retainReceipt_sound hsound hreceivable
    obtain ⟨receipts, -, rfl⟩ := retainReceipt_ok hretain
    -- the receipts are no part of the chain
    have hlinked1 : Linked { db with receipts } row :=
      ⟨hlinked.frozen, hlinked.entry, hlinked.range, hlinked.attestation, hlinked.generation,
        hlinked.source, hlinked.frozen_entry, hlinked.range_frozen, hlinked.range_entry,
        hlinked.attestation_frozen, hlinked.generation_range, hlinked.source_generation⟩
    obtain ⟨result, hupdate⟩ :=
      updateCursorAndAcknowledge_sound hsound hreads hlinked1 hreq hboundary
    simp only [transact, hexec, hload, hbind, hretain, hupdate, bind, Except.bind]
    exact ⟨_, rfl⟩

/-! ## The schema -/

theorem nextOrdinal_nonneg {n} (h : nextOrdinal db = .ok n) : 0 ≤ n ∧ n < I64_LIMIT := by
  have hle : ∀ (l : List Int) (m : Int), m ≤ l.foldl max m := by
    intro l
    induction l with
    | nil => exact fun m => le_refl m
    | cons a l ih => exact fun m => (le_max_left m a).trans (ih _)
  obtain ⟨hfits, h⟩ := require_eq_ok.mp h
  cases h
  have := hle (db.receipts.rows.map (·.commitOrdinal)) (-1)
  exact ⟨by omega, hfits⟩

/-- The receipts only grow: a row keeps everything but an evidence column that was empty. -/
theorem Retained.grows {state : SpoolState}
    (h : Retained db evidence state receipts) {c : ReceiptRow} (hc : c ∈ db.receipts) :
    ∃ c' ∈ receipts, c' = c ∨ c' = filled evidence c := by
  cases h with
  | kept found same verified =>
    refine ⟨_, Table.mem_update.mpr ⟨c, hc, rfl⟩, ?_⟩
    split
    · exact .inr rfl
    · exact .inl rfl
  | new pending fits inserted => exact ⟨c, (Table.mem_insert inserted).mpr (.inl hc), .inl rfl⟩

/-- Nothing else is added to them than the request's own row. -/
theorem Retained.origin {state} (h : Retained db evidence state receipts) {c} (hc : c ∈ receipts) :
    (∃ c₀ ∈ db.receipts, c = c₀ ∨ c = filled evidence c₀) ∨
      ∃ ordinal receivedAt, nextOrdinal db = .ok ordinal ∧ c = recorded evidence ordinal receivedAt := by
  cases h with
  | kept found same verified =>
    obtain ⟨c₀, hc0, rfl⟩ := Table.mem_update.mp hc
    refine .inl ⟨c₀, hc0, ?_⟩
    split
    · exact .inr rfl
    · exact .inl rfl
  | new pending fits inserted =>
    rcases (Table.mem_insert inserted).mp hc with hold | rfl
    · exact .inl ⟨c, hold, .inl rfl⟩
    · exact .inr ⟨_, _, fits, rfl⟩

/-- The request's own row is there, verified and with its evidence. -/
theorem Retained.found {state} (h : Retained db evidence state receipts) :
    ∃ c, receipts.find? evidence.fields.requestId.asStr = some c ∧
      c.receiptDigest = evidence.receiptDigest ∧ c.signatureVerified = true ∧
      c.receiptBytes.isSome = true := by
  cases h with
  | @kept c found same verified =>
    have hkey := (Table.find?_eq_some.mp found).2
    refine ⟨filled evidence c, ?_, ?_⟩
    · rw [filledReceipts, Table.find?_update, found]
      simp [hkey]
    unfold filled
    split
    · exact ⟨same, verified, rfl⟩
    · next hsome => exact ⟨same, verified, by simpa [Option.isSome_iff_ne_none] using hsome⟩
  | @new ordinal receivedAt _ pending fits inserted =>
    refine ⟨recorded evidence ordinal receivedAt, ?_, rfl, rfl, rfl⟩
    rw [Table.find?_insert inserted]
    exact if_pos rfl

/-- The constraints do not see a change of spool rows that keeps their keys and bounds. -/
theorem schema_entries (h : Schema db) {entries}
    (hids : ∀ e ∈ db.spoolEntries, ∃ e' ∈ entries, e'.spoolEntryId = e.spoolEntryId)
    (hrows : ∀ e ∈ entries, 0 ≤ e.sizeBytes ∧ 0 ≤ e.attemptCount ∧ e.attemptCount < I64_LIMIT) :
    Schema { db with spoolEntries := entries } := by
  have hentry : ∀ {id : String}, (∃ e ∈ db.spoolEntries, e.spoolEntryId = id) →
      ∃ e ∈ entries, e.spoolEntryId = id := by
    intro id ⟨e, he, hid⟩
    obtain ⟨e', he', hid'⟩ := hids e he
    exact ⟨e', he', hid'.trans hid⟩
  exact
    { h with
      frozen_spool := fun f hf e he => hentry (h.frozen_spool f hf e he)
      range_spool := fun r hr e he => hentry (h.range_spool r hr e he)
      quarantined_spool := fun q hq => hentry (h.quarantined_spool q hq)
      size := fun e he => (hrows e he).1
      attempts := fun e he => (hrows e he).2 }

theorem Committed.same (hc : Committed db evidence cursor row db') : db' =
    { db with receipts := db'.receipts, sources := db'.sources, spoolEntries := db'.spoolEntries } := by
  rw [← hc.generations, ← hc.frozenRequests, ← hc.ranges, ← hc.attestations, ← hc.quarantined]

theorem Committed.schema (hc : Committed db evidence cursor row db') (h : Schema db) :
    Schema db' := by
  obtain ⟨now, hsources⟩ := hc.sources
  obtain ⟨now', hentries⟩ := hc.entries
  have hspool : Schema { db with spoolEntries := db'.spoolEntries } := by
    rw [hentries]
    refine schema_entries h (fun _ he => Table.exists_update he) fun e' he' => ?_
    obtain ⟨e, he, rfl⟩ := Table.mem_update.mp he'
    have hbounds := And.intro (h.size e he) (h.attempts e he)
    split
    · unfold closed
      split <;> exact hbounds
    · exact hbounds
  rw [hc.same]
  refine { hspool with
    generation_source := ?_, receipt_request := ?_, watermark := ?_, commit_ordinal := ?_ }
  · intro g hg
    obtain ⟨s, hs, hid⟩ := h.generation_source g hg
    obtain ⟨s', hs', hid'⟩ := Table.exists_update hs
    exact ⟨s', hsources ▸ hs', hid'.trans hid⟩
  · intro c hmem
    rcases hc.receipts.origin hmem with ⟨c0, hc0, rfl | rfl⟩ | ⟨_, _, _, rfl⟩
    · exact h.receipt_request c hc0
    · rw [filled_requestId]
      exact h.receipt_request c0 hc0
    · exact ⟨row.frozen, hc.linked.frozen, hc.request⟩
  · intro s' hs'
    rw [hsources] at hs'
    obtain ⟨s, hs, rfl⟩ := Table.mem_update.mp hs'
    have hmark := h.watermark s hs
    split
    · have hrange := h.range _ hc.linked.range
      rw [moved_watermark]
      omega
    · exact hmark
  · intro c hmem
    rcases hc.receipts.origin hmem with ⟨c0, hc0, rfl | rfl⟩ | ⟨_, _, hord, rfl⟩
    · exact h.commit_ordinal c hc0
    · have := h.commit_ordinal c0 hc0
      unfold filled
      split <;> exact this
    · exact nextOrdinal_nonneg hord

end AgentArchivist.Client.AcknowledgementSteps
