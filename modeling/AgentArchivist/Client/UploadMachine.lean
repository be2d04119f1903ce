import AgentArchivist.Client.AcknowledgementSafety
import AgentArchivist.Client.UploadSteps

/-! # The frozen upload machine

Freezing, claiming, quarantine and acknowledgement interleaved in any order over one
database. What one operation can change is said once (`Change`); the requests, the
attestations and the quarantine only grow and an acknowledged entry stays acknowledged
(`Grows`), from which the invariants of whole runs follow. -/
namespace AgentArchivist.Client.UploadMachine
open Lib
open Auth.Authority Acknowledgement AcknowledgementSafety AcknowledgementSteps State TimestampOrder
open Upload UploadSteps Keyed Runs Utf8 Protocol.Vocabulary

inductive Op where
  | freeze (host : UploadHost) (mint : Except SpoolErrorKind RequestId) (fields : FreezeUpload)
  | claim (host : UploadHost) (now : Timestamp) (policy : RetryPolicy)
      (bits : Except UploadError UInt64)
  | quarantine (host : UploadHost) (entryId : RequestId) (reason : QuarantineReason)
      (now : Timestamp)
  | acknowledge (call : Call)

inductive Reply where
  | frozen (result : Except UploadError FrozenUpload)
  | claimed (result : Except UploadError (Option RetryClaim))
  | quarantined (result : Except UploadError Bool)
  | acknowledged (result : Except AcknowledgementError AcknowledgedReceipt)

/-- A transaction that fails leaves the tables. -/
def concluded {α : Type} (db : Database) (reply : Except UploadError α → Reply) :
    Except UploadError (α × Database) → Reply × Database
  | .error error => (reply (.error error), db)
  | .ok (a, db') => (reply (.ok a), db')

def perform (ed25519 : Verifier) (db : Database) : Op → Reply × Database
  | .freeze host mint fields => concluded db .frozen (freezeUpload host mint db fields)
  | .claim host now policy bits => concluded db .claimed (claimDueUpload host db now policy bits)
  | .quarantine host entryId reason now =>
    concluded db .quarantined (quarantineUpload host db entryId reason now)
  | .acknowledge call => (.acknowledged (step ed25519 db call).1.1, (step ed25519 db call).2)

section
variable {db db' db'' : Database} {ed25519 : Verifier}

/-! ## What one operation changes -/

inductive Change (db : Database) : Database → Prop
  | same : Change db db
  | froze {fields : FreezeUpload} {frozen : FrozenUpload} {now : Timestamp} {db' : Database} :
      FrozeNew db fields frozen now db' → Change db db'
  | claimed {now : Timestamp} {c : RetryClaim} {e : SpoolEntryRow} {db' : Database} :
      Claimed db now c e db' → Change db db'
  | quarantined {row : QuarantineRow} {db' : Database}
      (entry : ∃ e ∈ db.spoolEntries, e.spoolEntryId = row.spoolEntryId)
      (inserted : db.quarantinedUploads.insert row = some db'.quarantinedUploads)
      (same : db' = { db with quarantinedUploads := db'.quarantinedUploads }) : Change db db'
  | acknowledged {evidence : Evidence} {cursor : String} {row : Chain} {db' : Database} :
      Committed db evidence cursor row db' → Change db db'

theorem concluded_change {α : Type} {reply} {result : Except UploadError (α × Database)}
    (h : ∀ a db', result = .ok (a, db') → Change db db') : Change db (concluded db reply result).2 := by
  rcases result with error | ⟨a, db'⟩
  · exact .same
  · exact h a db' rfl

theorem perform_change (hschema : Schema db) (op : Op) : Change db (perform ed25519 db op).2 := by
  cases op with
  | freeze host mint fields =>
    refine concluded_change fun _ _ hfreeze => ?_
    rcases freezeUpload_ok hschema hfreeze with ⟨rfl, _⟩ | ⟨_, hnew⟩
    · exact .same
    · exact .froze hnew
  | claim host now policy bits =>
    refine concluded_change fun _ _ hclaim => ?_
    rcases claimDueUpload_ok hschema hclaim with ⟨_, rfl⟩ | ⟨_, _, _, hclaimed⟩
    · exact .same
    · exact .claimed hclaimed
  | quarantine host entryId reason now =>
    refine concluded_change fun _ _ hquarantine => ?_
    simp only [quarantineUpload, Lib.Fallible.bind_eq_ok] at hquarantine
    obtain ⟨_, _, hquarantine⟩ := hquarantine
    split at hquarantine
    · cases hquarantine
      exact .same
    next hinsert =>
    split at hquarantine <;> cases hquarantine
    next hentry =>
    obtain ⟨e, hfind⟩ := Option.ne_none_iff_exists'.mp (mt Option.isNone_iff_eq_none.mpr hentry)
    exact .quarantined ⟨e, Table.find?_eq_some.mp hfind⟩ hinsert rfl
  | acknowledge call =>
    rcases call_cases ed25519 hschema call with ⟨_, hsame⟩ | ⟨_, _, _, _, hc, _, _, hdb⟩
    · rw [perform, hsame]
      exact .same
    · rw [perform, hdb]
      exact .acknowledged hc

/-! ## The schema -/

theorem schema_attempted (h : Schema db) {entryId next now}
    (hfits : ∀ e ∈ db.spoolEntries, e.spoolEntryId = entryId → e.attemptCount + 1 < I64_LIMIT) :
    Schema { db with spoolEntries := attemptedEntries db.spoolEntries entryId next now } := by
  refine schema_entries h (fun _ he => Table.exists_update he) fun e' he' => ?_
  obtain ⟨e, he, rfl⟩ := mem_attempted.mp he'
  have hsize := h.size e he
  have hcount := h.attempts e he
  split
  · next hid =>
    have := hfits e he hid
    exact ⟨hsize, by simp only [attempted]; omega, this⟩
  · exact ⟨hsize, hcount⟩

theorem FrozeNew.schema {fields frozen now} (hnew : FrozeNew db fields frozen now db')
    (h : Schema db) : Schema db' := by
  have hrequest {f : FrozenRequestRow} := Table.mem_insert (r := f) hnew.requests
  have hattestation {a : AttestationRow} := Table.mem_insert (r := a) hnew.attestations
  rw [hnew.same]
  refine { h with
    frozen_entry := ?_, attestation_request := ?_, frozen_spool := ?_, receipt_request := ?_ }
  · intro f hf g hg e hfe hge
    rcases hrequest.mp hf with hf | rfl <;> rcases hrequest.mp hg with hg | rfl
    · exact h.frozen_entry f hf g hg e hfe hge
    · exact absurd (hfe.trans hge.symm) (hnew.fresh f hf)
    · exact absurd (hge.trans hfe.symm) (hnew.fresh g hg)
    · rfl
  · intro a ha b hb hreq
    rcases hattestation.mp ha with ha | rfl <;> rcases hattestation.mp hb with hb | rfl
    · exact h.attestation_request a ha b hb hreq
    · exact absurd hreq (hnew.unattested a ha)
    · exact absurd hreq.symm (hnew.unattested b hb)
    · rfl
  · intro f hf e he
    rcases hrequest.mp hf with hf | rfl
    · exact h.frozen_spool f hf e he
    · cases he
      exact hnew.entry
  · intro c hc
    obtain ⟨f, hf, hid⟩ := h.receipt_request c hc
    exact ⟨f, hrequest.mpr (.inl hf), hid⟩

theorem Change.schema (h : Change db db') (hschema : Schema db) : Schema db' := by
  cases h with
  | same => exact hschema
  | froze hnew => exact FrozeNew.schema hnew hschema
  | claimed hc =>
    obtain ⟨next, hentries⟩ := hc.entries
    rw [hc.same, hentries]
    refine schema_attempted hschema fun x hx hid => ?_
    rw [Table.eq_of_key hx hc.mem hid]
    exact hc.fits
  | quarantined entry inserted same =>
    rw [same]
    refine { hschema with quarantined_spool := fun q hq => ?_ }
    rcases (Table.mem_insert inserted).mp hq with hq | rfl
    · exact hschema.quarantined_spool q hq
    · exact entry
  | acknowledged hc => exact hc.schema hschema

/-! ## What stays -/

/-- Requests, attestations and quarantine rows stay, and so does an acknowledgement. -/
structure Grows (db db' : Database) : Prop where
  frozen : ∀ f ∈ db.frozenRequests, f ∈ db'.frozenRequests
  attestations : ∀ a ∈ db.uploadAttestations, a ∈ db'.uploadAttestations
  quarantined : ∀ q ∈ db.quarantinedUploads, q ∈ db'.quarantinedUploads
  acknowledged : ∀ e ∈ db.spoolEntries, e.state = .acknowledged →
    ∃ e' ∈ db'.spoolEntries, e'.spoolEntryId = e.spoolEntryId ∧ e'.state = .acknowledged

theorem Grows.refl (db : Database) : Grows db db :=
  ⟨fun _ h => h, fun _ h => h, fun _ h => h, fun e he hstate => ⟨e, he, rfl, hstate⟩⟩

theorem Grows.trans (h : Grows db db') (h' : Grows db' db'') : Grows db db'' := by
  refine ⟨fun f hf => h'.frozen f (h.frozen f hf), fun a ha => h'.attestations a (h.attestations a ha),
    fun q hq => h'.quarantined q (h.quarantined q hq), fun e he hstate => ?_⟩
  obtain ⟨e', he', hid, hstate'⟩ := h.acknowledged e he hstate
  obtain ⟨e'', he'', hid', hstate''⟩ := h'.acknowledged e' he' hstate'
  exact ⟨e'', he'', hid'.trans hid, hstate''⟩

theorem Change.grows (h : Change db db') : Grows db db' := by
  have hstay := Grows.refl db
  cases h with
  | same => exact hstay
  | froze hnew =>
    rw [hnew.same]
    exact { hstay with
      frozen := fun f hf => (Table.mem_insert hnew.requests).mpr (.inl hf)
      attestations := fun a ha => (Table.mem_insert hnew.attestations).mpr (.inl ha) }
  | claimed hc =>
    obtain ⟨next, hentries⟩ := hc.entries
    rw [hc.same, hentries]
    refine { hstay with acknowledged := fun e he hstate => ?_ }
    refine ⟨_, mem_attempted.mpr ⟨e, he, rfl⟩, ?_⟩
    split <;> exact ⟨rfl, hstate⟩
  | quarantined entry inserted same =>
    rw [same]
    exact { hstay with quarantined := fun q hq => (Table.mem_insert inserted).mpr (.inl hq) }
  | acknowledged hc =>
    obtain ⟨now, hentries⟩ := hc.entries
    rw [hc.same]
    refine { hstay with acknowledged := fun e he hstate => ?_ }
    rw [hentries]
    refine ⟨_, Table.mem_update.mpr ⟨e, he, rfl⟩, ?_⟩
    split
    · exact ⟨closed_entryId _, closed_state _⟩
    · exact ⟨rfl, hstate⟩

/-- Every schedule was written with milliseconds. -/
def Scheduled (db : Database) : Prop :=
  ∀ e ∈ db.spoolEntries, ∀ t, e.nextAttemptAt = some t → ∃ m : MilliTime, t = m.1.asStr

theorem Change.scheduled (h : Change db db') (hscheduled : Scheduled db) : Scheduled db' := by
  cases h with
  | same => exact hscheduled
  | froze hnew =>
    rw [hnew.same]
    exact hscheduled
  | claimed hc =>
    obtain ⟨next, hentries⟩ := hc.entries
    rw [hc.same, hentries]
    intro e' he' t ht
    obtain ⟨e, he, rfl⟩ := mem_attempted.mp he'
    split at ht
    · obtain ⟨m, _, hm⟩ := Option.map_eq_some_iff.mp ht
      exact ⟨m, hm.symm⟩
    · exact hscheduled e he t ht
  | quarantined entry inserted same =>
    rw [same]
    exact hscheduled
  | acknowledged hc =>
    obtain ⟨now, hentries⟩ := hc.entries
    intro e' he' t ht
    rw [hentries] at he'
    obtain ⟨e, he, rfl⟩ := Table.mem_update.mp he'
    refine hscheduled e he t ?_
    split at ht
    · unfold closed at ht
      split at ht <;> exact ht
    · exact ht

/-! ## Runs -/

variable (ed25519) in
/-- The invariants after a run: the schema, the schedules and what stays. -/
theorem run_invariants (hschema : Schema db) (ops : List Op) :
    Schema (run (perform ed25519) db ops).2 ∧ Grows db (run (perform ed25519) db ops).2 ∧
      (Scheduled db → Scheduled (run (perform ed25519) db ops).2) := by
  refine run_keeps (P := fun db' => Schema db' ∧ Grows db db' ∧ (Scheduled db → Scheduled db')) ops
    (fun db' op _ ⟨hs, hg, hsched⟩ => ?_) ⟨hschema, .refl db, id⟩
  have hchange : Change db' (perform ed25519 db' op).2 := perform_change hs op
  exact ⟨hchange.schema hs, hg.trans hchange.grows, fun h => hchange.scheduled (hsched h)⟩

/-- What a freeze committed stays committed. -/
theorem Grows.refrozen {fields frozen} (h : Grows db db') (hfrozen : Frozen db fields frozen) :
    Frozen db' fields frozen := by
  obtain ⟨columns, hmem, attested, hmem', r⟩ := hfrozen
  exact ⟨columns, h.frozen _ hmem, attested, h.attestations _ hmem', r⟩

/-- The entry's next attempt is not after the instant. -/
def Due (e : SpoolEntryRow) (now : Timestamp) : Prop :=
  ∀ t : Timestamp, e.nextAttemptAt = some t.asStr → notAfter t now = true

theorem Claimed.due_at {now} {c e} (hc : Claimed db now c e db') (hscheduled : Scheduled db)
    (hnow : 24 ≤ (utf8 now.asStr).length) : Due e now := by
  intro t ht
  obtain ⟨m, hm⟩ := hscheduled e hc.mem _ ht
  refine notAfter_of_textLe ?_ (hc.due _ ht)
  rw [hm, m.2]
  exact hnow

/-- An entry that is quarantined or acknowledged. -/
def Retired (db : Database) (entryId : String) : Prop :=
  (∃ q ∈ db.quarantinedUploads, q.spoolEntryId = entryId) ∨
    ∃ e ∈ db.spoolEntries, e.spoolEntryId = entryId ∧ e.state = .acknowledged

theorem Grows.retired {entryId} (h : Grows db db') (hr : Retired db entryId) :
    Retired db' entryId := by
  rcases hr with ⟨q, hq, hid⟩ | ⟨e, he, hid, hstate⟩
  · exact .inl ⟨q, h.quarantined q hq, hid⟩
  · obtain ⟨e', he', hid', hstate'⟩ := h.acknowledged e he hstate
    exact .inr ⟨e', he', hid'.trans hid, hstate'⟩

theorem Claimed.not_retired {now c} {e} (hc : Claimed db now c e db') :
    ¬ Retired db e.spoolEntryId := by
  intro h
  rcases h with ⟨q, hq, hid⟩ | ⟨e', he', hid, hstate⟩
  · exact hc.free q hq hid
  · rw [Table.eq_of_key he' hc.mem hid, hc.state] at hstate
    cases hstate

/-- The upload machine over any run of its operations. -/
theorem upload_machine (db : Database) (hschema : Schema db) (hscheduled : Scheduled db)
    (ops : List Op) (after : Database) (hafter : after = (run (perform ed25519) db ops).2) :
    -- a frozen request and its attestation never change
    (∀ f ∈ db.frozenRequests, f ∈ after.frozenRequests ∧
      ∀ f' ∈ after.frozenRequests, ∀ e, f.spoolEntryId = some e → f'.spoolEntryId = some e →
        f' = f) ∧
    (∀ a ∈ db.uploadAttestations, a ∈ after.uploadAttestations ∧
      ∀ a' ∈ after.uploadAttestations, a'.requestId = a.requestId → a' = a) ∧
    -- freezing again, then or later, an entry that is still materialized
    (∀ host mint fields frozen db₁, freezeUpload host mint after fields = .ok (frozen, db₁) →
      ∀ (later : List Op) (db₂ : Database), db₂ = (run (perform ed25519) db₁ later).2 →
      ∀ (host' : UploadHost) mint' fields', fields'.spoolEntryId = fields.spoolEntryId →
        (∃ e ∈ db₂.spoolEntries, e.spoolEntryId = fields.spoolEntryId.asStr ∧
          e.state = .materialized) → Recordable fields' → host'.Sound →
        freezeUpload host' mint' db₂ fields' =
          if fields' = fields then .ok (frozen, db₂) else .error (ofKind .identityConflict)) ∧
    -- what is claimed, and the one row that a claim changes
    (∀ host now policy bits c db', claimDueUpload host after now policy bits = .ok (some c, db') →
      ∃ e ∈ after.spoolEntries, e.spoolEntryId = c.spoolEntryId.asStr ∧
        (∃ f ∈ after.frozenRequests, f.spoolEntryId = some e.spoolEntryId ∧
          f.requestId = c.frozen.request.asStr) ∧
        e.state ≠ .acknowledged ∧ (∀ q ∈ after.quarantinedUploads, q.spoolEntryId ≠ e.spoolEntryId) ∧
        (24 ≤ (utf8 now.asStr).length → Due e now) ∧
        (∃ e' ∈ db'.spoolEntries, e'.spoolEntryId = e.spoolEntryId ∧
          e'.attemptCount = e.attemptCount + 1) ∧
        (∀ x ∈ after.spoolEntries, x.spoolEntryId ≠ e.spoolEntryId → x ∈ db'.spoolEntries) ∧
        db' = { after with spoolEntries := db'.spoolEntries }) ∧
    -- a quarantined or acknowledged entry is never claimed again
    ∀ entryId, Retired after entryId → ∀ (later : List Op) host now policy bits c db',
      claimDueUpload host (run (perform ed25519) after later).2 now policy bits =
        .ok (some c, db') → c.spoolEntryId.asStr ≠ entryId := by
  obtain ⟨hend, hgrows, hsched⟩ := run_invariants ed25519 hschema ops
  rw [← hafter] at hend hgrows hsched
  refine ⟨fun f hf => ⟨hgrows.frozen f hf, fun f' hf' e hfe hfe' => ?_⟩,
    fun a ha => ⟨hgrows.attestations a ha, fun a' ha' hreq => ?_⟩, ?_, ?_, ?_⟩
  · exact hend.frozen_entry f' hf' f (hgrows.frozen f hf) e hfe' hfe
  · exact hend.attestation_request a' ha' a (hgrows.attestations a ha) hreq
  · intro host mint fields frozen db₁ hfreeze later db₂ hdb2 host' mint' fields' hentry hstate
      hfields hsound
    obtain ⟨hschema1, hfrozen1⟩ : Schema db₁ ∧ Frozen db₁ fields frozen := by
      rcases freezeUpload_ok hend hfreeze with ⟨rfl, hfrozen⟩ | ⟨_, hnew⟩
      · exact ⟨hend, hfrozen⟩
      · exact ⟨FrozeNew.schema hnew hend, hnew.restated⟩
    obtain ⟨hschema2, hgrows2, _⟩ := run_invariants ed25519 hschema1 later
    rw [← hdb2] at hschema2 hgrows2
    exact freezeUpload_again hschema2 (hgrows2.refrozen hfrozen1) hentry hstate hfields hsound
  · intro host now policy bits c db' hclaim
    rcases claimDueUpload_ok hend hclaim with ⟨hnone, _⟩ | ⟨_, e, hsome, hc⟩
    · cases hnone
    cases hsome
    obtain ⟨f, hf, hfe, hreq, _⟩ := hc.frozen
    obtain ⟨next, hentries⟩ := hc.entries
    refine ⟨e, hc.mem, hc.entry, ⟨f, hf, hfe, hreq⟩, by rw [hc.state]; nofun, hc.free,
      Claimed.due_at hc (hsched hscheduled), ?_, fun x hx hne => ?_, hc.same⟩
    · rw [hentries]
      exact ⟨_, mem_attempted.mpr ⟨e, hc.mem, rfl⟩, by simp [attempted]⟩
    · rw [hentries]
      exact mem_attempted.mpr ⟨x, hx, by simp [hne]⟩
  · intro entryId hretired later host now policy bits c db' hclaim heq
    obtain ⟨hschema', hgrows', _⟩ := run_invariants ed25519 hend later
    rcases claimDueUpload_ok hschema' hclaim with ⟨hnone, _⟩ | ⟨_, e, hsome, hc⟩
    · cases hnone
    cases hsome
    refine Claimed.not_retired hc ?_
    rw [hc.entry, heq]
    exact hgrows'.retired hretired

end

/-! ## Refused and early

An acknowledged entry is not frozen again, with whatever fields; and a claim with an instant
given in whole seconds takes an entry that is due later in that second. -/

namespace Sample
open Client.AcknowledgementSafety.Sample Client.ReceiptDocument.Sample Protocol.Derivation

def captured : Timestamp := ⟨"2026-09-02T00:00:00Z", by decide +kernel⟩

/-- The fields of the first upload's request. -/
def restated : FreezeUpload where
  spoolEntryId := ⟨first.entryId, by decide +kernel⟩
  tenantId := tenant
  originClientId := origin
  uploaderClientId := uploader
  occurrenceId := first.occurrence
  envelopeVersion := Specimen.version
  storageProfile := .zstdV1
  transportEncoding := none
  canonicalDigest := blob
  incomingChecksum := blob
  canonicalSize := 10
  transportSize := 10
  sourceAt := none
  capturedAt := captured
  envelopeCreatedAt := captured
  relation := .relay

def identity : FrozenUpload :=
  ⟨first.request, first.occurrence, attestationId first.occurrence uploader first.request⟩

def uploadHost : UploadHost :=
  ⟨⟨fun _ => none, fun _ => some captured.asStr⟩, fun _ _ => none⟩

theorem uploadHost_sound : uploadHost.Sound :=
  ⟨fun _ => rfl, fun _ => ⟨captured, rfl, by decide +kernel⟩⟩

theorem recordable : Recordable restated := ⟨by decide, by decide, by decide +kernel⟩

/-- The same request, sent by its client itself. -/
def redirected : FreezeUpload := { restated with relation := .direct }

theorem redirected_recordable : Recordable redirected := ⟨by decide, by decide, by decide +kernel⟩

theorem frozen_first : Frozen (Upload.database apart) restated identity :=
  ⟨first.frozen, (Upload.mem_frozen apart).mpr ⟨first, .inl rfl, rfl⟩, first.attestation,
    (Upload.mem_attestations apart).mpr ⟨first, .inl rfl, rfl⟩,
    ⟨rfl, rfl, rfl, rfl, rfl, rfl, rfl, rfl, rfl, rfl, rfl, rfl, rfl, rfl, rfl, rfl, rfl, rfl, rfl,
      rfl, rfl⟩⟩

theorem materialized : ∃ e ∈ (Upload.database apart).spoolEntries,
    e.spoolEntryId = restated.spoolEntryId.asStr ∧ e.state = .materialized :=
  ⟨first.entry, (Upload.mem_entries apart).mpr ⟨first, .inl rfl, rfl⟩, rfl, rfl⟩

/-- Half a second past midnight. -/
def half : MilliTime := ⟨⟨"2026-09-04T00:00:00.500Z", by decide +kernel⟩, by decide +kernel⟩

def midnight : Timestamp := ⟨"2026-09-04T00:00:00Z", by decide +kernel⟩

/-- Both uploads, to be tried again at half a second past midnight. -/
def waiting : Database :=
  { Upload.database apart with
    spoolEntries := Upload.pair (attempted (some half) captured first.entry)
      (attempted (some half) captured second.entry) apart.entry }

theorem mem_waiting {e} : e ∈ waiting.spoolEntries ↔
    ∃ u, (u = first ∨ u = second) ∧ attempted (some half) captured u.entry = e :=
  @Upload.mem_pair first second _ _ (fun u => attempted (some half) captured u.entry) e apart.entry

theorem waiting_schema : Schema waiting := by
  refine schema_entries (Upload.schema apart) (fun e he => ?_) fun e he => ?_
  · obtain ⟨u, hu, rfl⟩ := (Upload.mem_entries apart).mp he
    exact ⟨_, mem_waiting.mpr ⟨u, hu, rfl⟩, rfl⟩
  · have hbounds : (0 : Int) ≤ 512 ∧ (0 : Int) ≤ 1 + 1 ∧ (1 + 1 : Int) < I64_LIMIT := by decide
    obtain ⟨u, -, rfl⟩ := mem_waiting.mp he
    exact hbounds

theorem waiting_scheduled : Scheduled waiting := by
  intro e he t ht
  obtain ⟨u, -, rfl⟩ := mem_waiting.mp he
  exact ⟨half, (Option.some.inj ht).symm⟩

/-- Each of them can be sent. -/
theorem waiting_sendable (u : Upload) (hu : u = first ∨ u = second) (id : RequestId)
    (hid : u.entryId = id.asStr) : Sendable waiting (attempted (some half) captured u.entry) := by
  refine ⟨⟨id, hid⟩, ?_, ⟨u.request, u.occurrence, attestationId u.occurrence uploader u.request⟩,
    u.frozen, ?_, rfl, rfl, rfl, u.attestation, ?_, rfl, rfl⟩
  · have hfits : (1 + 1 + 1 : Int) < I64_LIMIT := by decide
    exact hfits
  · exact (Upload.mem_frozen apart).mpr ⟨u, hu, rfl⟩
  · exact (Upload.mem_attestations apart).mpr ⟨u, hu, rfl⟩

theorem first_waits : attempted (some half) captured first.entry ∈ candidates waiting midnight := by
  refine mem_candidates.mpr ⟨mem_waiting.mpr ⟨first, .inl rfl, rfl⟩, ⟨first.frozen, ?_⟩, rfl, fun t ht => ?_, nofun⟩
  · exact (frozenOf_eq_some waiting_schema).mpr ⟨(Upload.mem_frozen apart).mpr ⟨first, .inl rfl, rfl⟩, rfl⟩
  · obtain rfl := Option.some.inj ht
    decide +kernel

end Sample

open Client.ReceiptDocument.Sample Sample

/-- An acknowledged request is refused when it is restated, and an entry is claimed before it is
due. -/
theorem restated_refused_and_claimed_early :
    (freezeUpload uploadHost (.error .unavailable) (Upload.database apart) restated =
        .ok (identity, Upload.database apart) ∧
      freezeUpload uploadHost (.error .unavailable)
        (perform accept (Upload.database apart) (.acknowledge first.call)).2 restated =
          .error notMaterialized) ∧
    Schema waiting ∧ Scheduled waiting ∧
    ∃ c db' e, claimDueUpload uploadHost waiting midnight (.new 1000 900000) (.ok 0) =
        .ok (some c, db') ∧ e ∈ waiting.spoolEntries ∧ e.spoolEntryId = c.spoolEntryId.asStr ∧
      ¬ Due e midnight := by
  refine ⟨⟨?_, ?_⟩, waiting_schema, waiting_scheduled, ?_⟩
  · rw [freezeUpload_again (Upload.schema apart) frozen_first rfl materialized recordable
      uploadHost_sound, if_pos rfl]
  · obtain ⟨db', hc, _, hdb⟩ := Upload.commits apart (.inl rfl)
    obtain ⟨now, hentries⟩ := hc.entries
    rw [perform, hdb]
    have hmem : closed now first.entry ∈ db'.spoolEntries := by
      rw [hentries]
      exact Table.mem_update.mpr ⟨first.entry, (Upload.mem_entries apart).mpr ⟨first, .inl rfl, rfl⟩, rfl⟩
    refine freezeUpload_refused hmem (closed_entryId _) ?_ recordable uploadHost_sound
    nofun
  · obtain ⟨c, db', hclaim⟩ := claimDueUpload_sound waiting_schema uploadHost_sound
      (.new 1000 900000) 0 first_waits fun x hx => by
        obtain ⟨u, rfl | rfl, rfl⟩ := mem_waiting.mp (mem_candidates.mp hx).1
        · exact waiting_sendable first (.inl rfl) ⟨first.entryId, by decide +kernel⟩ rfl
        · exact waiting_sendable second (.inr rfl) ⟨second.entryId, by decide +kernel⟩ rfl
    rcases claimDueUpload_ok waiting_schema hclaim with ⟨hnone, _⟩ | ⟨_, e, hsome, hclaimed⟩
    · cases hnone
    cases hsome
    refine ⟨c, db', e, hclaim, hclaimed.mem, hclaimed.entry, fun hdue => ?_⟩
    have hlater : notAfter half.1 midnight = false := by decide +kernel
    have hnext : e.nextAttemptAt = some half.1.asStr := by
      obtain ⟨u, -, rfl⟩ := mem_waiting.mp hclaimed.mem
      rfl
    rw [hdue half.1 hnext] at hlater
    cases hlater

/-- The first upload, restated and changed. -/
theorem first_restated :
    Schema (Upload.database apart) ∧ Scheduled (Upload.database apart) ∧
    freezeUpload uploadHost (.error .unavailable) (Upload.database apart) restated =
      .ok (identity, Upload.database apart) ∧
    freezeUpload uploadHost (.error .unavailable) (Upload.database apart) redirected =
      .error (ofKind .identityConflict) := by
  have hschema := Upload.schema apart
  have hscheduled : Scheduled (Upload.database apart) := by
    intro e he t ht
    obtain ⟨u, -, rfl⟩ := (Upload.mem_entries apart).mp he
    cases ht
  have hfirst : freezeUpload uploadHost (.error .unavailable) (Upload.database apart) restated =
      .ok (identity, Upload.database apart) := by
    rw [freezeUpload_again hschema frozen_first rfl materialized recordable uploadHost_sound,
      if_pos rfl]
  have hagain := (@upload_machine accept _ hschema hscheduled [] (Upload.database apart)
    rfl).2.2.1 _ _ _ _ _ hfirst [] (Upload.database apart) rfl uploadHost (.error .unavailable)
  refine ⟨hschema, hscheduled, ?_, ?_⟩
  · rw [hagain restated rfl materialized recordable uploadHost_sound, if_pos rfl]
  · rw [hagain redirected rfl materialized redirected_recordable uploadHost_sound,
      if_neg (by decide +kernel)]

end AgentArchivist.Client.UploadMachine
