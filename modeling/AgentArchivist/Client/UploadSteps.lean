import AgentArchivist.Client.Upload

/-! # What the upload operations commit

Per operation, everything that a committed transaction found and did. A request that was
frozen is recognised by its rows (`Frozen`): on a database that answers, freezing its
entry again gives the same identity for the same fields and a conflict for any others. -/
namespace AgentArchivist.Client.UploadSteps
open Lib Protocol
open State TimestampOrder Upload Fallible Keyed Derivation Vocabulary

variable {db db' : Database} {host : UploadHost} {fields fields' : FreezeUpload}
  {frozen : FrozenUpload} {columns : FrozenRequestRow} {attested : AttestationRow}
  {mint : Except SpoolErrorKind RequestId}

/-! ## The rows of a freeze -/

/-- The rows say just these fields. -/
structure Restates (columns : FrozenRequestRow) (attested : AttestationRow) (fields : FreezeUpload)
    (frozen : FrozenUpload) : Prop where
  entry : columns.spoolEntryId = some fields.spoolEntryId.asStr
  request : columns.requestId = frozen.request.asStr
  occurrence : columns.occurrenceId = frozen.occurrence.toHex
  attested_request : attested.requestId = columns.requestId
  attestation : attested.attestationId = frozen.attestation.toHex
  occurrenceId : frozen.occurrence = fields.occurrenceId
  tenantId : columns.tenantId = fields.tenantId.asStr
  originClientId : columns.originClientId = fields.originClientId.asStr
  uploaderClientId : columns.uploaderClientId = fields.uploaderClientId.asStr
  envelopeVersion : columns.envelopeVersion = fields.envelopeVersion.asStr
  storageProfile : columns.storageProfile = ClosedEnum.token fields.storageProfile
  transportEncoding : columns.transportEncoding = fields.transportEncoding.map ClosedEnum.token
  canonicalDigest : columns.canonicalDigest = fields.canonicalDigest.toHex
  incomingChecksum : columns.incomingChecksum = fields.incomingChecksum.toHex
  canonicalSize : columns.canonicalSize = fields.canonicalSize.toNat
  transportSize : columns.transportSize = fields.transportSize.toNat
  sourceAt : columns.sourceAt = fields.sourceAt.map Text.asStr
  capturedAt : columns.capturedAt = fields.capturedAt.asStr
  envelopeCreatedAt : columns.envelopeCreatedAt = fields.envelopeCreatedAt.asStr
  relation : attested.relation = fields.relation
  derived : attestationId frozen.occurrence fields.uploaderClientId frozen.request =
    frozen.attestation

/-- The entry of the fields is frozen as they say. -/
def Frozen (db : Database) (fields : FreezeUpload) (frozen : FrozenUpload) : Prop :=
  ∃ columns ∈ db.frozenRequests, ∃ attested ∈ db.uploadAttestations,
    Restates columns attested fields frozen

theorem frozenOf_eq_some (hschema : Schema db) {entryId} :
    frozenOf db entryId = some columns ↔
      columns ∈ db.frozenRequests ∧ columns.spoolEntryId = some entryId := by
  rw [frozenOf, find?_unique, decide_eq_true_iff, Table.mem_rows]
  simp only [decide_eq_true_iff]
  exact fun a ha b hb => hschema.frozen_entry a ha b hb _

theorem attestationOf_eq_some (hschema : Schema db) {requestId} :
    attestationOf db requestId = some attested ↔
      attested ∈ db.uploadAttestations ∧ attested.requestId = requestId := by
  rw [attestationOf, find?_unique, decide_eq_true_iff, Table.mem_rows]
  simp only [decide_eq_true_iff]
  exact fun a ha b hb hra hrb => hschema.attestation_request a ha b hb (hra.trans hrb.symm)

theorem committed_ok {T : Type} [WireText T] {which text : String} {v : T} :
    committed which text = .ok v ↔ text = WireText.text v := by
  rw [committed, mapError_eq_ok, fromStr_ok]

variable {entryId : RequestId}

/-- What is loaded are the rows of the entry, with the identities that they spell. -/
theorem load_some (hschema : Schema db) {c : CommittedFreeze} :
    CommittedFreeze.load host db entryId = .ok (some c) ↔
      host.exec .existing = .ok () ∧ c.columns ∈ db.frozenRequests ∧
      c.columns.spoolEntryId = some entryId.asStr ∧
      ∃ attested ∈ db.uploadAttestations, attested.requestId = c.columns.requestId ∧
        c.columns.requestId = c.frozen.request.asStr ∧
        c.columns.occurrenceId = c.frozen.occurrence.toHex ∧
        attested.attestationId = c.frozen.attestation.toHex ∧ attested.relation = c.relation := by
  simp only [CommittedFreeze.load, bind_eq_ok]
  constructor
  · intro ⟨_, hexec, h⟩
    split at h
    · cases h
    next columns hfrozen =>
    split at h
    · cases h
    next attested hattested =>
    simp only [bind_eq_ok, committed_ok] at h
    obtain ⟨request, hrequest, occurrence, hoccurrence, attestation, hattestation, h⟩ := h
    cases h
    obtain ⟨hmem, hentry⟩ := (frozenOf_eq_some hschema).mp hfrozen
    obtain ⟨hmem', hreq⟩ := (attestationOf_eq_some hschema).mp hattested
    exact ⟨hexec, hmem, hentry, attested, hmem', hreq, hrequest, hoccurrence, hattestation, rfl⟩
  · intro ⟨hexec, hmem, hentry, attested, hmem', hreq, hrequest, hoccurrence, hattestation, hrel⟩
    have hfrozen := (frozenOf_eq_some hschema).mpr ⟨hmem, hentry⟩
    have hattested := (attestationOf_eq_some hschema).mpr ⟨hmem', hreq⟩
    refine ⟨(), hexec, ?_⟩
    rw [hfrozen]
    dsimp only
    rw [hattested]
    simp only [bind_eq_ok, committed_ok]
    refine ⟨_, hrequest, _, hoccurrence, _, hattestation, ?_⟩
    rw [hrel]

/-- The comparison accepts the fields that the rows restate. -/
theorem assertMatches_ok {c : CommittedFreeze} (hentry : c.columns.spoolEntryId =
      some fields.spoolEntryId.asStr) (hrequest : c.columns.requestId = c.frozen.request.asStr)
    (hoccurrence : c.columns.occurrenceId = c.frozen.occurrence.toHex)
    (hreq : attested.requestId = c.columns.requestId)
    (hattestation : attested.attestationId = c.frozen.attestation.toHex)
    (hrelation : attested.relation = c.relation) :
    c.assertMatches fields fields.canonicalSize.toNat fields.transportSize.toNat = .ok () ↔
      Restates c.columns attested fields c.frozen := by
  rw [CommittedFreeze.assertMatches, require_eq_ok, and_iff_left rfl]
  constructor
  · rintro ⟨h1, h2, h3, h4, h5, h6, h7, h8, h9, h10, h11, h12, h13, h14, h15, h16⟩
    exact ⟨hentry, hrequest, hoccurrence, hreq, hattestation, h1, h2, h3, h4, h5, h6, h7, h8, h9,
      h10, h11, h12, h13, h14, hrelation.trans h15, h16⟩
  · intro r
    exact ⟨r.occurrenceId, r.tenantId, r.originClientId, r.uploaderClientId, r.envelopeVersion,
      r.storageProfile, r.transportEncoding, r.canonicalDigest, r.incomingChecksum, r.canonicalSize,
      r.transportSize, r.sourceAt, r.capturedAt, r.envelopeCreatedAt,
      hrelation.symm.trans r.relation, r.derived⟩

/-- Rows restate one set of fields only. -/
theorem Restates.unique {frozen'} (h : Restates columns attested fields frozen)
    (h' : Restates columns attested fields' frozen') : fields' = fields ∧ frozen' = frozen := by
  have htext {validate : String → Bool} {a b : Text validate} (hab : a.asStr = b.asStr) : a = b :=
    WireText.text_injective hab
  have hhex {a b : Digest} (hab : a.toHex = b.toHex) : a = b := WireText.text_injective hab
  have hmap {α : Type} {f : α → String} (hf : Function.Injective f) {a b : Option α}
      (hab : a.map f = b.map f) : a = b := Option.map_injective hf hab
  have hsize {a b : UInt64} (hab : (a.toNat : Int) = b.toNat) : a = b :=
    UInt64.toNat_inj.mp (Int.ofNat_inj.mp hab)
  have hrequest := htext (h'.request.symm.trans h.request)
  have hoccurrence := hhex (h'.occurrence.symm.trans h.occurrence)
  have hattestation := hhex (h'.attestation.symm.trans h.attestation)
  constructor
  · obtain ⟨_, _, _, _, _, _, _, _, _, _, _, _, _, _, _, _⟩ := fields
    rw [FreezeUpload.mk.injEq]
    exact ⟨htext (Option.some.inj (h'.entry.symm.trans h.entry)),
      htext (h'.tenantId.symm.trans h.tenantId),
      htext (h'.originClientId.symm.trans h.originClientId),
      htext (h'.uploaderClientId.symm.trans h.uploaderClientId),
      h'.occurrenceId.symm.trans (hoccurrence.trans h.occurrenceId),
      htext (h'.envelopeVersion.symm.trans h.envelopeVersion),
      ClosedEnum.token_injective (h'.storageProfile.symm.trans h.storageProfile),
      hmap ClosedEnum.token_injective (h'.transportEncoding.symm.trans h.transportEncoding),
      hhex (h'.canonicalDigest.symm.trans h.canonicalDigest),
      hhex (h'.incomingChecksum.symm.trans h.incomingChecksum),
      hsize (h'.canonicalSize.symm.trans h.canonicalSize),
      hsize (h'.transportSize.symm.trans h.transportSize),
      hmap (fun _ _ hab => htext hab) (h'.sourceAt.symm.trans h.sourceAt),
      htext (h'.capturedAt.symm.trans h.capturedAt),
      htext (h'.envelopeCreatedAt.symm.trans h.envelopeCreatedAt),
      h'.relation.symm.trans h.relation⟩
  · obtain ⟨_, _, _⟩ := frozen
    rw [FrozenUpload.mk.injEq]
    exact ⟨hrequest, hoccurrence, hattestation⟩

/-! ## Freezing -/

theorem recordedSize_ok {size} {which n} :
    recordedSize size which = .ok n ↔ size.toNat < 2 ^ 63 ∧ n = size.toNat := by
  rw [recordedSize, require_eq_ok, Except.ok.injEq, @eq_comm _ n]

/-- The fields that a state row can hold. -/
structure Recordable (fields : FreezeUpload) : Prop where
  canonical : fields.canonicalSize.toNat < 2 ^ 63
  transport : fields.transportSize.toNat < 2 ^ 63
  timestamps : validateFreezeTimestamps fields = .ok ()

theorem Recordable.recorded (h : Recordable fields) :
    recordedSize fields.canonicalSize "canonical" = .ok (fields.canonicalSize.toNat : Int) ∧
      recordedSize fields.transportSize "transport" = .ok (fields.transportSize.toNat : Int) :=
  ⟨recordedSize_ok.mpr ⟨h.canonical, rfl⟩, recordedSize_ok.mpr ⟨h.transport, rfl⟩⟩

/-- The entry's request was not frozen before, and its two rows are new. -/
structure FrozeNew (db : Database) (fields : FreezeUpload) (frozen : FrozenUpload) (now : Timestamp)
    (db' : Database) : Prop where
  entry : ∃ e ∈ db.spoolEntries, e.spoolEntryId = fields.spoolEntryId.asStr
  fresh : ∀ f ∈ db.frozenRequests, f.spoolEntryId ≠ some fields.spoolEntryId.asStr
  unattested : ∀ a ∈ db.uploadAttestations, a.requestId ≠ frozen.request.asStr
  occurrence : frozen.occurrence = fields.occurrenceId
  attestation : frozen.attestation =
    attestationId fields.occurrenceId fields.uploaderClientId frozen.request
  requests : db.frozenRequests.insert (frozenRow fields frozen.request fields.canonicalSize.toNat
    fields.transportSize.toNat now) = some db'.frozenRequests
  attestations : db.uploadAttestations.insert (attestationRow fields frozen.request now) =
    some db'.uploadAttestations
  same : db' = { db with frozenRequests := db'.frozenRequests,
                         uploadAttestations := db'.uploadAttestations }

/-- A freeze that succeeds leaves the tables of an entry that was frozen so, or freezes it. -/
theorem freezeUpload_ok (hschema : Schema db)
    (h : freezeUpload host mint db fields = .ok (frozen, db')) :
    (db' = db ∧ Frozen db fields frozen) ∨ ∃ now, FrozeNew db fields frozen now db' := by
  simp only [freezeUpload, bind_eq_ok, recordedSize_ok] at h
  obtain ⟨canonicalSize, ⟨_, rfl⟩, transportSize, ⟨_, rfl⟩, _, _, _, _, _, _, h⟩ := h
  split at h
  · cases h
  next entry hentry =>
  split at h
  · cases h
  simp only [bind_eq_ok] at h
  obtain ⟨existing, hload, ⟨result, db1⟩, hfreeze, _, _, h⟩ := h
  cases h
  cases existing with
  | some c =>
    left
    obtain ⟨_, hmatches, hc⟩ := bind_eq_ok.mp hfreeze
    cases hc
    obtain ⟨_, hmem, hcentry, attested, hmem', hreq, hrequest, hocc, hatt, hrel⟩ :=
      (load_some hschema).mp hload
    exact ⟨rfl, c.columns, hmem, attested, hmem',
      (assertMatches_ok hcentry hrequest hocc hreq hatt hrel).mp hmatches⟩
  | none =>
    right
    simp only [freezeOrRestate, freezeNew, bind_eq_ok] at hfreeze
    obtain ⟨request, _, now, _, _, _, db2, hinsert, _, _, db3, hinsert', h⟩ := hfreeze
    cases h
    unfold insertRequest at hinsert
    split at hinsert
    · cases hinsert
    next hfresh =>
    split at hinsert <;> cases hinsert
    next t ht =>
    unfold insertAttestation at hinsert'
    split at hinsert'
    · cases hinsert'
    next hunattested =>
    split at hinsert' <;> cases hinsert'
    next t' ht' =>
    refine ⟨now, ⟨entry, Table.find?_eq_some.mp hentry⟩, fun f hf hfe => hfresh ⟨rfl, ?_⟩,
      fun a ha heq => hunattested ?_, rfl, rfl, ht, ht', rfl⟩
    · exact List.any_eq_true.mpr ⟨f, hf, by simp [hfe, frozenRow]⟩
    · exact List.any_eq_true.mpr ⟨a, ha, by simp [heq, attestationRow]⟩

theorem FrozeNew.restated {now} (h : FrozeNew db fields frozen now db') :
    Frozen db' fields frozen := by
  refine ⟨_, (Table.mem_insert h.requests).mpr (.inr rfl), _,
    (Table.mem_insert h.attestations).mpr (.inr rfl), ?_⟩
  refine ⟨rfl, rfl, ?_, rfl, ?_, h.occurrence, rfl, rfl, rfl, rfl, rfl, rfl, rfl, rfl, rfl, rfl, rfl,
    rfl, rfl, rfl, ?_⟩
  · rw [h.occurrence]
    rfl
  · rw [h.attestation]
    rfl
  · rw [h.occurrence, h.attestation]

/-- Freezing a frozen entry again: the same fields give the same identity, others a conflict, and
no table changes. -/
theorem freezeUpload_again (hschema : Schema db) (hfrozen : Frozen db fields frozen)
    (hentry : fields'.spoolEntryId = fields.spoolEntryId)
    (hstate : ∃ e ∈ db.spoolEntries, e.spoolEntryId = fields.spoolEntryId.asStr ∧
      e.state = .materialized)
    (hfields : Recordable fields') (hsound : host.Sound) :
    freezeUpload host mint db fields' =
      if fields' = fields then .ok (frozen, db) else .error (ofKind .identityConflict) := by
  obtain ⟨columns, hmem, attested, hmem', r⟩ := hfrozen
  obtain ⟨e, he, hid, hmat⟩ := hstate
  have hexec (s : Statement) : host.exec s = .ok () := hsound.run s
  have hfind : db.spoolEntries.find? fields'.spoolEntryId.asStr = some e :=
    Table.find?_eq_some.mpr ⟨he, by rw [hid, hentry]⟩
  have hload : CommittedFreeze.load host db fields'.spoolEntryId =
      .ok (some ⟨frozen, columns, attested.relation⟩) :=
    (load_some hschema).mpr ⟨hexec _, hmem, by rw [hentry]; exact r.entry, attested, hmem',
      r.attested_request, r.request, r.occurrence, r.attestation, rfl⟩
  have hmatch : CommittedFreeze.assertMatches ⟨frozen, columns, attested.relation⟩ fields'
      fields'.canonicalSize.toNat fields'.transportSize.toNat =
        if fields' = fields then .ok () else .error (ofKind .identityConflict) := by
    split
    · next heq =>
      rw [heq]
      exact (assertMatches_ok r.entry r.request r.occurrence r.attested_request r.attestation
        rfl).mpr r
    next hne =>
    cases hresult : CommittedFreeze.assertMatches ⟨frozen, columns, attested.relation⟩ fields'
      fields'.canonicalSize.toNat fields'.transportSize.toNat with
    | ok _ =>
      have r' := (assertMatches_ok (by rw [hentry]; exact r.entry) r.request r.occurrence
        r.attested_request r.attestation rfl).mp hresult
      exact absurd (r.unique r').1 hne
    | error error =>
      unfold CommittedFreeze.assertMatches at hresult
      split at hresult
      · cases hresult
      · exact hresult.symm
  obtain ⟨hcanonical, htransport⟩ := hfields.recorded
  simp only [freezeUpload, hcanonical, htransport, hfields.timestamps, hexec, hfind, hmat, hload,
    freezeOrRestate, hmatch, bind, Except.bind, ne_eq, not_true_eq_false, if_false]
  by_cases heq : fields' = fields
  · simp [heq]
  · simp [heq]

variable {e : SpoolEntryRow}

/-- Only a materialized entry is frozen, also where its request is there already. -/
theorem freezeUpload_refused (he : e ∈ db.spoolEntries)
    (hid : e.spoolEntryId = fields.spoolEntryId.asStr) (hstate : e.state ≠ .materialized)
    (hfields : Recordable fields) (hsound : host.Sound) :
    freezeUpload host mint db fields = .error notMaterialized := by
  have hexec (s : Statement) : host.exec s = .ok () := hsound.run s
  have hfind : db.spoolEntries.find? fields.spoolEntryId.asStr = some e :=
    Table.find?_eq_some.mpr ⟨he, hid⟩
  obtain ⟨hcanonical, htransport⟩ := hfields.recorded
  simp only [freezeUpload, hcanonical, htransport, hfields.timestamps, hexec, hfind, hstate, bind,
    Except.bind, ne_eq, not_false_eq_true, if_true]

/-! ## Claiming -/

/-- An entry after a claim. -/
def attempted (next : Option MilliTime) (now : Timestamp) (row : SpoolEntryRow) : SpoolEntryRow :=
  { row with attemptCount := row.attemptCount + 1, nextAttemptAt := next.map (·.1.asStr),
             updatedAt := now.asStr }

theorem attempted_entryId {next now} (row : SpoolEntryRow) :
    (attempted next now row).spoolEntryId = row.spoolEntryId := rfl

def attemptedEntries (entries : Table SpoolEntryRow.spoolEntryId) (entryId : String)
    (next : Option MilliTime) (now : Timestamp) : Table SpoolEntryRow.spoolEntryId :=
  entries.update entryId (fun _ => true) (attempted next now) attempted_entryId

variable {entries : Table SpoolEntryRow.spoolEntryId}

theorem mem_attempted {entryId next now e'} :
    e' ∈ attemptedEntries entries entryId next now ↔
      ∃ e ∈ entries, e' = if e.spoolEntryId = entryId then attempted next now e else e := by
  rw [attemptedEntries, Table.mem_update]
  simp

/-- A claim of an entry: what it had to be, what is returned, and the one row that changed. -/
structure Claimed (db : Database) (now : Timestamp) (c : RetryClaim) (e : SpoolEntryRow)
    (db' : Database) : Prop where
  mem : e ∈ db.spoolEntries
  entry : e.spoolEntryId = c.spoolEntryId.asStr
  frozen : ∃ f ∈ db.frozenRequests, f.spoolEntryId = some e.spoolEntryId ∧
    f.requestId = c.frozen.request.asStr ∧ f.occurrenceId = c.frozen.occurrence.toHex ∧
    ∃ a ∈ db.uploadAttestations, a.requestId = f.requestId ∧
      a.attestationId = c.frozen.attestation.toHex
  state : e.state = .materialized
  due : ∀ t, e.nextAttemptAt = some t → textLe t now.asStr = true
  free : ∀ q ∈ db.quarantinedUploads, q.spoolEntryId ≠ e.spoolEntryId
  count : (c.attemptCount : Int) = e.attemptCount + 1
  fits : e.attemptCount + 1 < I64_LIMIT
  entries : ∃ next, db'.spoolEntries = attemptedEntries db.spoolEntries e.spoolEntryId next now
  same : db' = { db with spoolEntries := db'.spoolEntries }

theorem firstDue_mem {l} (h : firstDue l = some e) : e ∈ l := by
  induction l with
  | nil => cases h
  | cons x l ih =>
    unfold firstDue at h
    split at h
    · cases h
      exact List.mem_cons_self
    next best hbest =>
    split at h
    · cases h
      exact List.mem_cons_self
    · cases h
      exact List.mem_cons_of_mem _ (ih hbest)

theorem mem_candidates {now} : e ∈ candidates db now ↔
    e ∈ db.spoolEntries ∧ (∃ f, frozenOf db e.spoolEntryId = some f) ∧ e.state = .materialized ∧
      (∀ t, e.nextAttemptAt = some t → textLe t now.asStr = true) ∧
      ∀ q ∈ db.quarantinedUploads, q.spoolEntryId ≠ e.spoolEntryId := by
  simp only [candidates, List.mem_filter, Bool.and_eq_true, decide_eq_true_eq, Bool.not_eq_true',
    List.any_eq_false, Option.isSome_iff_exists, Option.all_eq_true, and_assoc]
  rfl

theorem schedule_eq (entryId : RequestId) (now : Timestamp) (delayMs : Nat)
    (hfind : db.spoolEntries.find? entryId.asStr = some e) (hstate : e.state = .materialized) :
    schedule host db entryId now delayMs =
      ({ db with
          spoolEntries := attemptedEntries db.spoolEntries entryId.asStr
            (host.strftime now (delayDirective delayMs)) now }, 1) := by
  have hentries : (schedule host db entryId now delayMs).1.spoolEntries =
      attemptedEntries db.spoolEntries entryId.asStr
        (host.strftime now (delayDirective delayMs)) now := by
    refine Table.update_congr (by intro _; rfl) _ fun row hrow => ?_
    cases hfind.symm.trans hrow
    simp [hstate, attempted]
  have hcount : (schedule host db entryId now delayMs).2 = 1 := by
    obtain ⟨hmem, hkey⟩ := Table.find?_eq_some.mp hfind
    exact Table.changed_eq_one.mpr ⟨e, hmem, hkey, by simpa using hstate⟩
  rw [← hentries, ← hcount]
  rfl

theorem find?_attempted {id next now} (h : entries.find? id = some e) :
    (attemptedEntries entries id next now).find? id = some (attempted next now e) := by
  rw [attemptedEntries, Table.find?_update, h]
  simp [(Table.find?_eq_some.mp h).2]

/-- The rows of an entry spell these identities. -/
def Spelled (db : Database) (entryId : String) (u : FrozenUpload) : Prop :=
  ∃ f ∈ db.frozenRequests, f.spoolEntryId = some entryId ∧
    f.requestId = u.request.asStr ∧ f.occurrenceId = u.occurrence.toHex ∧
    ∃ a ∈ db.uploadAttestations, a.requestId = f.requestId ∧
      a.attestationId = u.attestation.toHex

theorem loadClaim_ok (hschema : Schema db) {delayMs : Nat} {c : RetryClaim}
    (hfind : entries.find? entryId.asStr = some e) :
    loadClaim host { db with spoolEntries := entries } entryId delayMs = .ok c ↔
      host.exec .load = .ok () ∧ e.attemptCount < I64_LIMIT ∧ 0 ≤ e.sizeBytes ∧ 0 ≤ e.attemptCount ∧
      Spelled db entryId.asStr c.frozen ∧ c = ⟨c.frozen, entryId, e.bundleName, e.envelopeDigest,
        e.sizeBytes.toNat, e.attemptCount.toNat, delayMs⟩ := by
  simp only [loadClaim, bind_eq_ok, hfind]
  constructor
  · rintro ⟨_, hexec, h⟩
    split at h
    · next e' columns he' hfrozen =>
      cases he'
      split at h
      · cases h
      next attested hattested =>
      simp only [refuse_eq_ok, bind_eq_ok, committed_ok] at h
      obtain ⟨hfits, hsize, hcount, request, hrequest, occurrence, hoccurrence, attestation,
        hattestation, h⟩ := h
      cases h
      obtain ⟨hmem, hentry⟩ := (frozenOf_eq_some hschema).mp hfrozen
      obtain ⟨hmem', hreq⟩ := (attestationOf_eq_some hschema).mp hattested
      exact ⟨hexec, not_le.mp hfits, not_lt.mp hsize, not_lt.mp hcount, ⟨columns, hmem, hentry,
        hrequest, hoccurrence, attested, hmem', hreq, hattestation⟩, rfl⟩
    · cases h
  · rintro ⟨hexec, hfits, hsize, hcount, ⟨columns, hmem, hentry, hrequest, hoccurrence, attested,
      hmem', hreq, hattestation⟩, hc⟩
    have hfrozen : frozenOf { db with spoolEntries := entries } entryId.asStr = some columns :=
      (frozenOf_eq_some hschema).mpr ⟨hmem, hentry⟩
    have hattested : attestationOf { db with spoolEntries := entries } columns.requestId =
        some attested := (attestationOf_eq_some hschema).mpr ⟨hmem', hreq⟩
    refine ⟨(), hexec, ?_⟩
    rw [hfrozen]
    dsimp only
    rw [hattested]
    simp only [refuse_eq_ok, bind_eq_ok, committed_ok]
    exact ⟨not_le.mpr hfits, not_lt.mpr hsize, not_lt.mpr hcount, _, hrequest, _, hoccurrence, _,
      hattestation, congrArg _ hc.symm⟩

theorem claimDueUpload_ok (hschema : Schema db) {now policy bits result}
    (h : claimDueUpload host db now policy bits = .ok (result, db')) :
    (result = none ∧ db' = db) ∨ ∃ c e, result = some c ∧ Claimed db now c e db' := by
  simp only [claimDueUpload, bind_eq_ok] at h
  obtain ⟨_, _, _, _, h⟩ := h
  split at h
  · cases h
    exact .inl ⟨rfl, rfl⟩
  next e hfirst =>
  split at h
  · cases h
  obtain ⟨hmem, _, hstate, hdue, hfree⟩ := mem_candidates.mp (firstDue_mem hfirst)
  simp only [bind_eq_ok, mapError_eq_ok] at h
  obtain ⟨entryId, hparse, delayMs, _, _, _, h⟩ := h
  have hid : entryId.asStr = e.spoolEntryId := Text.asStr_of_parse hparse
  have hfind : db.spoolEntries.find? entryId.asStr = some e :=
    Table.find?_eq_some.mpr ⟨hmem, hid.symm⟩
  rw [schedule_eq entryId now delayMs hfind hstate] at h
  rw [if_neg (by simp)] at h
  simp only [bind_eq_ok] at h
  obtain ⟨c, hload, _, _, h⟩ := h
  cases h
  obtain ⟨-, hfits, -, hcount, hfrozen, hc⟩ := (loadClaim_ok hschema (find?_attempted hfind)).mp hload
  rw [hid] at hfrozen
  refine .inr ⟨c, e, rfl, hmem, by rw [hc, hid], hfrozen, hstate, hdue, hfree, ?_, hfits,
    ⟨_, by rw [← hid]⟩, rfl⟩
  rw [hc]
  exact Int.toNat_of_nonneg hcount

/-- The rows of an entry can be read, and its count still rises. -/
structure Sendable (db : Database) (e : SpoolEntryRow) : Prop where
  entry : ∃ id : RequestId, e.spoolEntryId = id.asStr
  fits : e.attemptCount + 1 < I64_LIMIT
  rows : ∃ (u : FrozenUpload), ∃ f ∈ db.frozenRequests, f.spoolEntryId = some e.spoolEntryId ∧
    f.requestId = u.request.asStr ∧ f.occurrenceId = u.occurrence.toHex ∧
    ∃ a ∈ db.uploadAttestations, a.requestId = f.requestId ∧
      a.attestationId = u.attestation.toHex

theorem firstDue_some {l} (h : e ∈ l) : ∃ e', firstDue l = some e' := by
  cases l with
  | nil => cases h
  | cons x l =>
    unfold firstDue
    split
    · exact ⟨x, rfl⟩
    · split
      · exact ⟨x, rfl⟩
      · exact ⟨_, rfl⟩

/-- On a database that answers, with entropy, a due entry is claimed. -/
theorem claimDueUpload_sound (hschema : Schema db) (hsound : host.Sound) {now}
    (policy : RetryPolicy) (bits : UInt64) (hdue : e ∈ candidates db now)
    (hsend : ∀ x ∈ candidates db now, Sendable db x) :
    ∃ c db', claimDueUpload host db now policy (.ok bits) = .ok (some c, db') := by
  have hexec (s : Statement) : host.exec s = .ok () := hsound.run s
  obtain ⟨e, hfirst⟩ := firstDue_some hdue
  have hcandidate := firstDue_mem hfirst
  obtain ⟨hmem, _, hstate, _, _⟩ := mem_candidates.mp hcandidate
  obtain ⟨⟨id, hid⟩, hfits, u, hrows⟩ := hsend e hcandidate
  have hcount := (hschema.attempts e hmem).1
  have hsize := hschema.size e hmem
  have hfind : db.spoolEntries.find? id.asStr = some e := Table.find?_eq_some.mpr ⟨hmem, hid⟩
  have hparse : (Text.parse e.spoolEntryId : Except GrammarError RequestId) = .ok id := by
    rw [hid]
    exact Text.parse_asStr id
  rw [hid] at hrows
  have hload (delayMs : Nat) (next : Option MilliTime) :
      loadClaim host { db with spoolEntries := attemptedEntries db.spoolEntries id.asStr next now } id
        delayMs = .ok ⟨u, id, _, _, _, _, _⟩ :=
    (loadClaim_ok hschema (find?_attempted hfind)).mpr
      ⟨hexec _, hfits, hsize, by simp only [attempted]; omega, hrows, rfl⟩
  simp only [claimDueUpload, hexec, hfirst, bind, Except.bind, not_lt.mpr hcount, if_false, hparse,
    Except.mapError, RetryPolicy.fullJitterMs, schedule_eq id now _ hfind hstate, ne_eq,
    not_true_eq_false, hload]
  exact ⟨_, _, rfl⟩

/-! ## Quarantine -/

end AgentArchivist.Client.UploadSteps
