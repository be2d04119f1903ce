import AgentArchivist.Client.Acknowledgement

/-! # What a receipt is bound to

The chain of rows that a frozen request hangs from, in the terms of the tables: under the
schema a request has one chain at most, and `load_pending` and `validate_binding` accept
it exactly when its columns are the texts of the receipt's own identities. -/
namespace AgentArchivist.Client.AcknowledgementBinding
open Lib Protocol
open Acknowledgement State Fallible Keyed Derivation ObjectKey Vocabulary

/-! ## Chains -/

/-- The rows of a chain are in their tables and refer to each other. -/
structure Linked (db : Database) (row : Chain) : Prop where
  frozen : row.frozen ∈ db.frozenRequests
  entry : row.entry ∈ db.spoolEntries
  range : row.range ∈ db.ranges
  attestation : row.attestation ∈ db.uploadAttestations
  generation : row.generation ∈ db.generations
  source : row.source ∈ db.sources
  frozen_entry : row.frozen.spoolEntryId = some row.entry.spoolEntryId
  range_frozen : row.range.occurrenceId = row.frozen.occurrenceId
  range_entry : row.range.spoolEntryId = some row.entry.spoolEntryId
  attestation_frozen : row.attestation.requestId = row.frozen.requestId
  generation_range : row.generation.generationId = row.range.generationId
  source_generation : row.source.sourceId = row.generation.sourceId

variable {db : Database} {row row' : Chain}

theorem mem_joinedRows {requestId} :
    row ∈ joinedRows db requestId ↔ Linked db row ∧ row.frozen.requestId = requestId := by
  simp only [joinedRows, List.mem_flatMap, List.mem_map, List.mem_filter, decide_eq_true_eq]
  constructor
  · intro ⟨f, ⟨hf, hreq⟩, e, ⟨he, hfe⟩, r, ⟨hr, hrf, hre⟩, a, ⟨ha, haf⟩, g, ⟨hg, hgr⟩, s,
      ⟨hs, hsg⟩, hrow⟩
    subst hrow
    exact ⟨⟨hf, he, hr, ha, hg, hs, hfe.symm, hrf, hre, haf, hgr, hsg⟩, hreq⟩
  · intro ⟨h, hreq⟩
    exact ⟨_, ⟨h.frozen, hreq⟩, _, ⟨h.entry, h.frozen_entry.symm⟩, _,
      ⟨h.range, h.range_frozen, h.range_entry⟩, _, ⟨h.attestation, h.attestation_frozen⟩, _,
      ⟨h.generation, h.generation_range⟩, _, ⟨h.source, h.source_generation⟩, rfl⟩

theorem flatMap_length_le_one {α β : Type} {l : List α} {f : α → List β} (hl : l.length ≤ 1)
    (hf : ∀ a, (f a).length ≤ 1) : (l.flatMap f).length ≤ 1 := by
  match l with
  | [] => exact Nat.zero_le 1
  | [a] => simpa using hf a
  | _ :: _ :: _ => simp at hl

/-- Every table of the join is entered through a unique column. -/
theorem joinedRows_length (hschema : Schema db) (requestId : String) :
    (joinedRows db requestId).length ≤ 1 := by
  have hkey {ρ : Type} {key : ρ → String} (t : Table key) (k : String) :
      (t.rows.filter fun r => key r = k).length ≤ 1 := by
    refine Table.filter_length_le_one fun a ha b hb hqa hqb => Table.eq_of_key ha hb ?_
    simp only [decide_eq_true_eq] at hqa hqb
    rw [hqa, hqb]
  refine flatMap_length_le_one (hkey _ _) fun frozen => ?_
  refine flatMap_length_le_one ?_ fun entry => ?_
  · refine Table.filter_length_le_one fun a ha b hb hqa hqb => Table.eq_of_key ha hb ?_
    simp only [decide_eq_true_eq] at hqa hqb
    exact Option.some.inj (hqa.trans hqb.symm)
  refine flatMap_length_le_one ?_ fun range => ?_
  · refine Table.filter_length_le_one fun a ha b hb hqa hqb => Table.eq_of_key ha hb ?_
    simp only [decide_eq_true_eq] at hqa hqb
    rw [hqa.1, hqb.1]
  refine flatMap_length_le_one ?_ fun attestation => ?_
  · refine Table.filter_length_le_one fun a ha b hb hqa hqb => ?_
    simp only [decide_eq_true_eq] at hqa hqb
    exact hschema.attestation_request a ha b hb (hqa.trans hqb.symm)
  refine flatMap_length_le_one (hkey _ _) fun generation => ?_
  rw [List.length_map]
  exact hkey _ _

/-- A request has one chain. -/
theorem Linked.unique (hschema : Schema db) (h : Linked db row) (h' : Linked db row')
    (hreq : row.frozen.requestId = row'.frozen.requestId) : row = row' := by
  have hmem := mem_joinedRows.mpr ⟨h, rfl⟩
  have hmem' := mem_joinedRows.mpr ⟨h', hreq.symm⟩
  have hlen := joinedRows_length hschema row.frozen.requestId
  match hj : joinedRows db row.frozen.requestId with
  | [] => rw [hj] at hmem; cases hmem
  | [only] =>
    rw [hj, List.mem_singleton] at hmem hmem'
    rw [hmem, hmem']
  | _ :: _ :: _ => rw [hj] at hlen; simp at hlen

/-! ## Columns -/

/-- The pending upload that the rows spell. -/
structure Reads (row : Chain) (p : PendingUpload) : Prop where
  rangeEnd_nonneg : 0 ≤ row.range.rangeEnd
  watermark : -1 ≤ row.source.lastAcknowledgedRangeEnd
  bundleName : row.entry.bundleName = p.bundleName
  state : row.entry.state = p.state
  sourceId : row.source.sourceId = p.sourceId
  rangeEnd : row.range.rangeEnd = p.rangeEnd
  lastCursor : row.source.lastCursor = p.lastCursor
  lastEnd : row.source.lastAcknowledgedRangeEnd = p.lastAcknowledgedRangeEnd
  tenantId : row.frozen.tenantId = WireText.text p.tenantId
  originClientId : row.frozen.originClientId = WireText.text p.originClientId
  uploaderClientId : row.frozen.uploaderClientId = WireText.text p.uploaderClientId
  occurrenceId : row.frozen.occurrenceId = WireText.text p.occurrenceId
  storageProfile : row.frozen.storageProfile = WireText.text p.storageProfile
  canonicalDigest : row.frozen.canonicalDigest = WireText.text p.canonicalDigest
  rangeBlobDigest : row.range.blobDigest = WireText.text p.rangeBlobDigest
  harness : row.source.harness = WireText.text p.harness
  sessionHash : row.source.sessionHash = WireText.text p.sessionHash
  attestationId : row.attestation.attestationId = WireText.text p.attestationId
  attestationTenantId : row.attestation.tenantId = WireText.text p.attestationTenantId
  attestationOccurrenceId : row.attestation.occurrenceId = WireText.text p.attestationOccurrenceId
  attestationOriginClientId :
    row.attestation.originClientId = WireText.text p.attestationOriginClientId
  attestationUploaderClientId :
    row.attestation.uploaderClientId = WireText.text p.attestationUploaderClientId
  attestationRequestId : row.attestation.requestId = WireText.text p.attestationRequestId

variable {p : PendingUpload}

theorem fromRow_ok : PendingUpload.fromRow row = .ok p ↔ Reads row p := by
  unfold PendingUpload.fromRow
  split
  · next hbad =>
    refine ⟨nofun, fun h => ?_⟩
    have := h.rangeEnd_nonneg
    have := h.watermark
    omega
  · next hgood =>
    simp only [bind_eq_ok, column, mapError_eq_ok, fromStr_ok]
    constructor
    · intro h
      iterate 15 obtain ⟨_, _, h⟩ := h
      cases h
      constructor <;> first | rfl | assumption | omega
    · intro h
      refine ⟨_, h.tenantId, _, h.originClientId, _, h.uploaderClientId, _, h.occurrenceId, _,
        h.storageProfile, _, h.canonicalDigest, _, h.rangeBlobDigest, _, h.harness, _,
        h.sessionHash, _, h.attestationId, _, h.attestationTenantId, _, h.attestationOccurrenceId,
        _, h.attestationOriginClientId, _, h.attestationUploaderClientId, _,
        h.attestationRequestId, ?_⟩
      rw [h.bundleName, h.state, h.sourceId, h.rangeEnd, h.lastCursor, h.lastEnd]

/-- One chain or none: a second row is never there. -/
theorem loadPending_ok {host requestId} (hschema : Schema db) :
    loadPending host db requestId = .ok p ↔
      host.exec .pending = .ok () ∧ host.exec .second = .ok () ∧
        ∃ row, Linked db row ∧ row.frozen.requestId = requestId.asStr ∧ Reads row p := by
  have hlen := joinedRows_length hschema requestId.asStr
  simp only [loadPending, bind_eq_ok]
  match hj : joinedRows db requestId.asStr with
  | [] =>
    refine Iff.intro (fun h => ?_) fun ⟨_, _, row, hlinked, hreq, _⟩ => ?_
    · obtain ⟨_, _, h⟩ := h
      cases h
    have := mem_joinedRows.mpr ⟨hlinked, hreq⟩
    rw [hj] at this
    cases this
  | [row] =>
    have hrow := mem_joinedRows.mp (hj ▸ List.mem_singleton_self row : row ∈ joinedRows db _)
    simp only [List.take, bind_eq_ok, fromRow_ok, List.isEmpty_nil, if_true]
    constructor
    · intro ⟨⟨⟩, h1, q, hq, ⟨⟩, h2, hp⟩
      cases hp
      exact ⟨h1, h2, row, hrow.1, hrow.2, hq⟩
    · intro ⟨h1, h2, row', hlinked, hreq, hp⟩
      obtain rfl := hrow.1.unique hschema hlinked (hrow.2.trans hreq.symm)
      exact ⟨(), h1, p, hp, (), h2, rfl⟩
  | _ :: _ :: _ => rw [hj] at hlen; simp at hlen

/-! ## Identities -/

/-- The rows of a request carry the identities of a receipt: its tenant, occurrence, payload
and attestation in every row that repeats them, and the object keys that follow from them. -/
structure Matches (row : Chain) (receipt : ReceiptFields) : Prop where
  tenant : row.frozen.tenantId = receipt.tenantId.asStr
  occurrence : row.frozen.occurrenceId = receipt.occurrenceId.toHex
  canonical : row.frozen.canonicalDigest = receipt.blobDigest.toHex
  captured : row.range.blobDigest = receipt.blobDigest.toHex
  attested_tenant : row.attestation.tenantId = row.frozen.tenantId
  attested_occurrence : row.attestation.occurrenceId = row.frozen.occurrenceId
  attested_origin : row.attestation.originClientId = row.frozen.originClientId
  attested_uploader : row.attestation.uploaderClientId = row.frozen.uploaderClientId
  attested_request : row.attestation.requestId = receipt.requestId.asStr
  attestation : row.attestation.attestationId = receipt.attestationId.toHex
  derived : ∃ uploader : ClientId, row.frozen.uploaderClientId = uploader.asStr ∧
    receipt.attestationId = attestationId receipt.occurrenceId uploader receipt.requestId
  blob_key : ∃ profile : StorageProfile, row.frozen.storageProfile = ClosedEnum.token profile ∧
    receipt.blobObjectKey = (BlobObjectKey.new receipt.tenantId profile receipt.blobDigest).text
  occurrence_key : ∃ (origin : ClientId) (harness : HarnessId) (session : SessionHash),
    row.frozen.originClientId = origin.asStr ∧ row.source.harness = harness.asStr ∧
      row.source.sessionHash = session.toHex ∧
      receipt.occurrenceObjectKey = (OccurrenceObjectKey.new receipt.tenantId origin harness
        session receipt.occurrenceId).text
  attestation_key : receipt.attestationObjectKey = (AttestationObjectKey.new receipt.tenantId
    receipt.occurrenceId receipt.attestationId).text

/-- What was read from a column is told by the column. -/
theorem column {α : Type} [WireText α] {s : String} {t u : α} (h : s = WireText.text t) :
    t = u ↔ s = WireText.text u :=
  ⟨fun heq => heq ▸ h, fun hu => WireText.text_injective (h.symm.trans hu)⟩

/-- The check on the loaded columns says just that. -/
theorem validateBinding_ok {receipt} (hreads : Reads row p) :
    validateBinding p receipt = .ok () ↔ Matches row receipt := by
  simp only [validateBinding, refuse_eq_ok, not_or, ne_eq, not_not]
  constructor
  · rintro ⟨⟨htenant, hocc, hcanon, hrange, haTenant, haOcc, haOrigin, haUploader, haReq⟩, hatt,
      ⟨hblob, hocckey, hattkey⟩, -⟩
    refine ⟨(column hreads.tenantId).mp htenant, (column hreads.occurrenceId).mp hocc,
      (column hreads.canonicalDigest).mp hcanon, (column hreads.rangeBlobDigest).mp hrange,
      ((column hreads.attestationTenantId).mp haTenant).trans hreads.tenantId.symm,
      ((column hreads.attestationOccurrenceId).mp haOcc).trans hreads.occurrenceId.symm,
      ((column hreads.attestationOriginClientId).mp haOrigin).trans hreads.originClientId.symm,
      ((column hreads.attestationUploaderClientId).mp haUploader).trans hreads.uploaderClientId.symm,
      (column hreads.attestationRequestId).mp haReq,
      (column hreads.attestationId).mp (hatt.2.symm.trans hatt.1), ?_, ?_, ?_, ?_⟩
    · exact ⟨p.uploaderClientId, hreads.uploaderClientId, by rw [← hatt.1, hocc]⟩
    · exact ⟨p.storageProfile, hreads.storageProfile, by rw [hblob, htenant]⟩
    · exact ⟨p.originClientId, p.harness, p.sessionHash, hreads.originClientId, hreads.harness,
        hreads.sessionHash, by rw [hocckey, htenant]⟩
    · rw [hattkey, htenant]
  · intro m
    obtain ⟨uploader, huploader, hderived⟩ := m.derived
    obtain ⟨profile, hprofile, hblobKey⟩ := m.blob_key
    obtain ⟨origin, harness, session, horigin, hharness, hsession, hoccKey⟩ := m.occurrence_key
    rw [(column hreads.tenantId).mpr m.tenant, (column hreads.occurrenceId).mpr m.occurrence,
      (column hreads.attestationId).mpr m.attestation, (column hreads.uploaderClientId).mpr huploader,
      (column hreads.storageProfile).mpr hprofile, (column hreads.originClientId).mpr horigin,
      (column hreads.harness).mpr hharness, (column hreads.sessionHash).mpr hsession]
    exact ⟨⟨rfl, rfl, (column hreads.canonicalDigest).mpr m.canonical,
      (column hreads.rangeBlobDigest).mpr m.captured,
      (column hreads.attestationTenantId).mpr (m.attested_tenant.trans m.tenant),
      (column hreads.attestationOccurrenceId).mpr (m.attested_occurrence.trans m.occurrence),
      (column hreads.attestationOriginClientId).mpr (m.attested_origin.trans horigin),
      (column hreads.attestationUploaderClientId).mpr (m.attested_uploader.trans huploader),
      (column hreads.attestationRequestId).mpr m.attested_request⟩, ⟨hderived.symm, hderived.symm⟩,
      ⟨hblobKey, hoccKey, m.attestation_key⟩, trivial⟩

/-- Rows that match a receipt can be loaded. -/
theorem Matches.reads {receipt} (hschema : Schema db) (hlinked : Linked db row)
    (m : Matches row receipt) : ∃ p, Reads row p := by
  obtain ⟨uploader, huploader, _⟩ := m.derived
  obtain ⟨profile, hprofile, _⟩ := m.blob_key
  obtain ⟨origin, harness, session, horigin, hharness, hsession, _⟩ := m.occurrence_key
  have hrange := hschema.range _ hlinked.range
  have hmark := hschema.watermark _ hlinked.source
  exact ⟨{ bundleName := row.entry.bundleName, state := row.entry.state,
           sourceId := row.source.sourceId, tenantId := receipt.tenantId, originClientId := origin,
           uploaderClientId := uploader, occurrenceId := receipt.occurrenceId,
           storageProfile := profile, canonicalDigest := receipt.blobDigest,
           rangeBlobDigest := receipt.blobDigest, rangeEnd := row.range.rangeEnd,
           harness := harness, sessionHash := session, lastCursor := row.source.lastCursor,
           lastAcknowledgedRangeEnd := row.source.lastAcknowledgedRangeEnd,
           attestationId := receipt.attestationId, attestationTenantId := receipt.tenantId,
           attestationOccurrenceId := receipt.occurrenceId, attestationOriginClientId := origin,
           attestationUploaderClientId := uploader, attestationRequestId := receipt.requestId },
    ⟨by omega, hmark.1, rfl, rfl, rfl, rfl, rfl, rfl, m.tenant, horigin, huploader, m.occurrence,
      hprofile, m.canonical, m.captured, hharness, hsession, m.attestation,
      m.attested_tenant.trans m.tenant, m.attested_occurrence.trans m.occurrence,
      m.attested_origin.trans horigin, m.attested_uploader.trans huploader, m.attested_request⟩⟩

end AgentArchivist.Client.AcknowledgementBinding
