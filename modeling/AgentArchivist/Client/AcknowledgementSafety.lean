import AgentArchivist.Client.AcknowledgementSteps
import AgentArchivist.Client.ReceiptDocument
import AgentArchivist.Lib.Runs
import AgentArchivist.Protocol.JsonShortest

/-! # Acknowledgement, over whole runs

A call either leaves the tables and does nothing, or it commits; every invariant below is
proved for a committed transaction and lifted to runs. What a committed call has settled
stays settled, and a settled request is a fixed point of its own call. -/
namespace AgentArchivist.Client.AcknowledgementSafety
open Lib Protocol Auth
open Authority Acknowledgement AcknowledgementBinding AcknowledgementSteps State
open Fallible Keyed Runs Derivation JsonCanonical JsonShortest Vocabulary

section
variable {db db' : Database} {evidence other : Evidence} {cursor cursor' : String}
  {row row' r : Chain}

/-! ## Chains after a committed transaction -/

/-- A chain with the rows that an acknowledgement of `row` left. -/
def chainAfter (row : Chain) (cursor : String) (now now' : Timestamp) (r : Chain) : Chain :=
  { r with
    source := if r.source.sourceId = row.source.sourceId then
      moved cursor row.range.rangeEnd now r.source else r.source
    entry := if r.entry.spoolEntryId = row.entry.spoolEntryId then closed now' r.entry else r.entry }

theorem after_linked (hc : Committed db evidence cursor row db') (hr : Linked db r) :
    ∃ now now', Linked db' (chainAfter row cursor now now' r) := by
  obtain ⟨now, hsources⟩ := hc.sources
  obtain ⟨now', hentries⟩ := hc.entries
  have hid : (chainAfter row cursor now now' r).entry.spoolEntryId = r.entry.spoolEntryId := by
    dsimp only [chainAfter]
    split
    · exact closed_entryId _
    · rfl
  have hsid : (chainAfter row cursor now now' r).source.sourceId = r.source.sourceId := by
    dsimp only [chainAfter]
    split
    · exact moved_sourceId _
    · rfl
  refine ⟨now, now',
    { frozen := by rw [hc.frozenRequests]; exact hr.frozen
      entry := by rw [hentries]; exact Table.mem_update.mpr ⟨r.entry, hr.entry, by simp [chainAfter]⟩
      range := by rw [hc.ranges]; exact hr.range
      attestation := by rw [hc.attestations]; exact hr.attestation
      generation := by rw [hc.generations]; exact hr.generation
      source := by rw [hsources]; exact Table.mem_update.mpr ⟨r.source, hr.source, by simp [chainAfter]⟩
      frozen_entry := by rw [hid]; exact hr.frozen_entry
      range_frozen := hr.range_frozen
      range_entry := by rw [hid]; exact hr.range_entry
      attestation_frozen := hr.attestation_frozen
      generation_range := hr.generation_range
      source_generation := by rw [hsid]; exact hr.source_generation }⟩

/-! ## Settled requests -/

/-- The request of a receipt is acknowledged with a cursor: what its call does is done. -/
structure Settled (db : Database) (evidence : Evidence) (cursor : String) (r : Chain) : Prop where
  linked : Linked db r
  request : r.frozen.requestId = evidence.fields.requestId.asStr
  state : r.entry.state = .acknowledged
  cursor : r.range.rangeEnd < r.source.lastAcknowledgedRangeEnd ∨
    (r.source.lastAcknowledgedRangeEnd = r.range.rangeEnd ∧ r.source.lastCursor = some cursor)
  receipt : ∃ c, db.receipts.find? evidence.fields.requestId.asStr = some c ∧
    c.receiptDigest = evidence.receiptDigest ∧ c.signatureVerified = true ∧
    c.receiptBytes.isSome = true

theorem committed_settles (hc : Committed db evidence cursor row db') :
    ∃ r, Settled db' evidence cursor r := by
  obtain ⟨now, now', hlinked⟩ := after_linked hc hc.linked
  refine ⟨_, hlinked, hc.request, ?_, ?_, hc.receipts.found⟩
  · simp only [chainAfter, if_true]
    exact closed_state _
  simp only [chainAfter, if_true, moved]
  split
  · exact .inr ⟨rfl, rfl⟩
  next hlt =>
  rcases lt_or_eq_of_le (not_lt.mp hlt) with hpast | hlevel
  · left
    split
    · exact hpast
    · exact hpast
  right
  split
  · exact ⟨hlevel.symm, rfl⟩
  next hcursor =>
  -- the cursor at the boundary was this one
  refine ⟨hlevel.symm, ?_⟩
  cases hlast : row.source.lastCursor with
  | none => simp [hlast, hlevel] at hcursor
  | some previous =>
    by_contra hne
    exact hc.boundary ⟨hlevel.symm, previous, hlast, fun heq => hne (by rw [heq])⟩

/-- A request that is settled stays so, whatever is committed. -/
theorem Settled.keeps (hs : Settled db evidence cursor r)
    (hc : Committed db other cursor' row db') : ∃ r', Settled db' evidence cursor r' := by
  obtain ⟨now, now', hlinked⟩ := after_linked hc hs.linked
  refine ⟨_, hlinked, hs.request, ?_, ?_, ?_⟩
  · dsimp only [chainAfter]
    split
    · exact closed_state _
    · exact hs.state
  · dsimp only [chainAfter]
    split
    · rcases hs.cursor with hpast | ⟨hlevel, hcursor⟩
      · rw [moved_watermark]
        omega
      unfold moved
      split
      · next hlt => exact .inl (by dsimp only; omega)
      · rw [if_neg (by simp [hcursor])]
        exact .inr ⟨hlevel, hcursor⟩
    · exact hs.cursor
  · obtain ⟨c, hfind, hdigest, hverified, hbytes⟩ := hs.receipt
    obtain ⟨hmem, hkey⟩ := Table.find?_eq_some.mp hfind
    obtain ⟨c', hmem', heq⟩ := hc.receipts.grows hmem
    have hsame : c' = c := by
      rcases heq with heq | heq
      · exact heq
      · rw [heq, filled, if_neg (by simp [Option.isSome_iff_ne_none.mp hbytes])]
    exact ⟨c, Table.find?_eq_some.mpr ⟨hsame ▸ hmem', hkey⟩, hdigest, hverified, hbytes⟩

/-- To commit a settled request again is to commit the tables as they are. -/
theorem Settled.unchanged (hschema : Schema db) (hs : Settled db evidence cursor r)
    (hc : Committed db evidence cursor row db') : db' = db := by
  obtain rfl := hs.linked.unique hschema hc.linked (hs.request.trans hc.request.symm)
  obtain ⟨now, hsources⟩ := hc.sources
  obtain ⟨now', hentries⟩ := hc.entries
  have hsame : db'.sources = db.sources := by
    rw [hsources]
    refine Table.update_eq_self fun s hfind _ => ?_
    obtain rfl : r.source = s :=
      Option.some.inj ((Table.find?_mem hs.linked.source).symm.trans hfind)
    unfold moved
    rcases hs.cursor with hpast | ⟨hlevel, hcursor⟩
    · rw [if_neg (by omega), if_neg (by omega)]
    · rw [if_neg (by omega), if_neg (by simp [hcursor])]
  have hsame' : db'.spoolEntries = db.spoolEntries := by
    rw [hentries]
    refine Table.update_eq_self fun e hfind _ => ?_
    obtain rfl : r.entry = e :=
      Option.some.inj ((Table.find?_mem hs.linked.entry).symm.trans hfind)
    rw [closed, if_neg (by simp [hs.state])]
  have hreceipts : db'.receipts = db.receipts := by
    obtain ⟨c, hfind, -, -, hbytes⟩ := hs.receipt
    generalize hr : db'.receipts = receipts
    have hretained := hc.receipts
    rw [hr] at hretained
    cases hretained with
    | kept found same verified =>
      refine Table.update_eq_self fun c' hfind' _ => ?_
      obtain rfl := Option.some.inj (hfind.symm.trans hfind')
      rw [filled, if_neg (by simp [Option.isSome_iff_ne_none.mp hbytes])]
    | new pending fits inserted => exact absurd hs.state pending
  rw [hc.same, hsame, hsame', hreceipts]

/-! ## Calls -/

section
variable {ed25519 : Verifier} {call : Call}

/-- The files that a call unlinks after its commit. -/
def cleanup (bundleName : String) : List Effect :=
  if isBundleName bundleName then [.unlink bundleName] else []

theorem removeBundle_effects (answer : Unlink) (bundleName : String) :
    (removeBundle answer bundleName).2 = cleanup bundleName := by
  unfold removeBundle cleanup
  cases isBundleName bundleName <;> rfl

variable (ed25519) in
/-- A call does nothing, or commits and then removes the bundle of the entry it closed. -/
theorem call_cases (hschema : Schema db) (call : Call) :
    ((∃ error, acknowledgeReceipt ed25519 db call = (.error error, [])) ∧
      (step ed25519 db call).2 = db) ∨
    ∃ evidence row db', verifyReceipt ed25519 call.root call.records call.request = .ok evidence ∧
      Committed db evidence call.request.cursor row db' ∧
      (acknowledgeReceipt ed25519 db call).2 = .commit db' :: cleanup row.entry.bundleName ∧
      ((∃ receipt, (acknowledgeReceipt ed25519 db call).1 = .ok receipt) ∨
        (acknowledgeReceipt ed25519 db call).1 = .error (ofKind .cleanupPending)) ∧
      (step ed25519 db call).2 = db' := by
  have hstep : (step ed25519 db call).2 = settle db (acknowledgeReceipt ed25519 db call).2 := rfl
  have hnothing : ∀ {error}, acknowledgeReceipt ed25519 db call = (.error error, []) →
      (∃ error, acknowledgeReceipt ed25519 db call = (.error error, [])) ∧
        (step ed25519 db call).2 = db := fun hcall => ⟨⟨_, hcall⟩, by rw [hstep, hcall]; rfl⟩
  cases hverify : verifyReceipt ed25519 call.root call.records call.request with
  | error error => exact .inl (hnothing (by rw [acknowledgeReceipt, hverify]))
  | ok evidence =>
    cases htx : transact call.host db evidence call.request.cursor with
    | error error =>
      refine .inl (@hnothing error ?_)
      rw [acknowledgeReceipt, hverify]
      dsimp only
      rw [htx]
    | ok result =>
      obtain ⟨db', name, advanced⟩ := result
      obtain ⟨row, hc, rfl, -⟩ := transact_ok hschema htx
      have hcall : acknowledgeReceipt ed25519 db call =
          ((removeBundle call.unlink row.entry.bundleName).1.mapError removalError |>.map fun () =>
            ⟨evidence.fields.requestId, evidence.receiptDigest, advanced⟩,
            .commit db' :: cleanup row.entry.bundleName) := by
        rw [acknowledgeReceipt, hverify]
        dsimp only
        rw [htx, ← removeBundle_effects call.unlink]
      refine .inr ⟨evidence, row, db', rfl, hc, by rw [hcall], ?_, ?_⟩
      · -- a removal that fails is left to the next reconciliation
        rw [hcall, removeBundle]
        split
        · exact .inr rfl
        dsimp only
        split
        · exact .inr rfl
        · exact .inl ⟨_, rfl⟩
      · rw [hstep, hcall, cleanup]
        split <;> rfl

variable (ed25519) in
/-- What holds at first and is kept by every commit holds after every run. -/
theorem run_commits {P : Database → Prop} (hschema : Schema db) (calls : List Call) (h₀ : P db)
    (hstep : ∀ db evidence cursor row db', Schema db →
      (∃ call ∈ calls, verifyReceipt ed25519 call.root call.records call.request = .ok evidence) →
      Committed db evidence cursor row db' → P db → P db') :
    P (run (step ed25519) db calls).2 := by
  refine (run_keeps calls (P := fun db => Schema db ∧ P db) (fun db call hcall h => ?_)
    ⟨hschema, h₀⟩).2
  rcases call_cases ed25519 h.1 call with ⟨_, hsame⟩ | ⟨_, _, _, hverify, hc, _, _, hdb⟩
  · rw [hsame]
    exact h
  · rw [hdb]
    exact ⟨hc.schema h.1, hstep _ _ _ _ _ h.1 ⟨call, hcall, hverify⟩ hc h.2⟩

variable (ed25519) in
/-- The schema holds after every run. -/
theorem run_schema (hschema : Schema db) (calls : List Call) :
    Schema (run (step ed25519) db calls).2 :=
  run_commits ed25519 hschema calls hschema fun _ _ _ _ _ h _ hc _ => hc.schema h

/-! ## Invariants -/

/-- A watermark never falls. -/
theorem run_watermark (hschema : Schema db) (calls : List Call) {s} (hs : s ∈ db.sources) :
    ∃ s' ∈ (run (step ed25519) db calls).2.sources,
      s'.sourceId = s.sourceId ∧ s.lastAcknowledgedRangeEnd ≤ s'.lastAcknowledgedRangeEnd := by
  refine run_commits ed25519 (P := fun db => ∃ s' ∈ db.sources, s'.sourceId = s.sourceId ∧
    s.lastAcknowledgedRangeEnd ≤ s'.lastAcknowledgedRangeEnd) hschema calls ⟨s, hs, rfl, le_refl _⟩ ?_
  intro db evidence cursor row db' _ _ hc ⟨s', hs', hid, hle⟩
  obtain ⟨now, hsources⟩ := hc.sources
  rw [hsources]
  refine ⟨_, Table.mem_update.mpr ⟨s', hs', rfl⟩, ?_⟩
  split
  · rw [moved_sourceId, moved_watermark]
    exact ⟨hid, hle.trans (le_max_left _ _)⟩
  · exact ⟨hid, hle⟩

/-- The entry's frozen request has a receipt row that is marked verified and holds the digest of
a receipt that one of the calls verified. -/
def Receipted (ed25519 : Verifier) (calls : List Call) (db : Database) (entryId : String) : Prop :=
  ∃ f ∈ db.frozenRequests, f.spoolEntryId = some entryId ∧
    ∃ c ∈ db.receipts, c.requestId = f.requestId ∧ c.signatureVerified = true ∧
      ∃ call ∈ calls, ∃ evidence,
        verifyReceipt ed25519 call.root call.records call.request = .ok evidence ∧
          evidence.fields.requestId.asStr = f.requestId ∧ c.receiptDigest = evidence.receiptDigest

theorem Receipted.keeps {calls entryId} (h : Receipted ed25519 calls db entryId)
    (hc : Committed db evidence cursor row db') : Receipted ed25519 calls db' entryId := by
  obtain ⟨f, hf, hentry, c, hmem, hreq, hverified, call, hcall, ev, hv, hid, hdigest⟩ := h
  obtain ⟨c', hmem', heq⟩ := hc.receipts.grows hmem
  have hfields : c'.requestId = c.requestId ∧ c'.signatureVerified = c.signatureVerified ∧
      c'.receiptDigest = c.receiptDigest := by
    rcases heq with rfl | rfl
    · exact ⟨rfl, rfl, rfl⟩
    · unfold filled
      split <;> exact ⟨rfl, rfl, rfl⟩
  refine ⟨f, by rw [hc.frozenRequests]; exact hf, hentry, c', hmem', ?_, ?_, call, hcall, ev, hv,
    hid, ?_⟩
  · rw [hfields.1, hreq]
  · rw [hfields.2.1, hverified]
  · rw [hfields.2.2, hdigest]

/-- An entry is acknowledged with its receipt. -/
theorem run_receipted (hschema : Schema db) (calls : List Call) {e}
    (he : e ∈ (run (step ed25519) db calls).2.spoolEntries) (hstate : e.state = .acknowledged) :
    (∃ e₀ ∈ db.spoolEntries, e₀.spoolEntryId = e.spoolEntryId ∧ e₀.state = .acknowledged) ∨
      Receipted ed25519 calls (run (step ed25519) db calls).2 e.spoolEntryId := by
  refine run_commits ed25519 (P := fun db' => ∀ e ∈ db'.spoolEntries, e.state = .acknowledged →
    (∃ e₀ ∈ db.spoolEntries, e₀.spoolEntryId = e.spoolEntryId ∧ e₀.state = .acknowledged) ∨
      Receipted ed25519 calls db' e.spoolEntryId) hschema calls
    (fun e he hstate => .inl ⟨e, he, rfl, hstate⟩) ?_ e he hstate
  intro db1 evidence cursor row db2 _ ⟨call, hcall, hverify⟩ hc ih e he hstate
  obtain ⟨now, hentries⟩ := hc.entries
  rw [hentries] at he
  obtain ⟨e1, he1, rfl⟩ := Table.mem_update.mp he
  by_cases hid : e1.spoolEntryId = row.entry.spoolEntryId
  · -- the entry of this transaction
    right
    obtain ⟨c, hfind, hdigest, hverified, -⟩ := hc.receipts.found
    obtain ⟨hmem, hreq⟩ := Table.find?_eq_some.mp hfind
    refine ⟨row.frozen, by rw [hc.frozenRequests]; exact hc.linked.frozen, ?_, c, hmem,
      hreq.trans hc.request.symm, hverified, call, hcall, evidence, hverify, hc.request.symm, hdigest⟩
    rw [hc.linked.frozen_entry, if_pos ⟨hid, rfl⟩, closed_entryId, hid]
  · rw [if_neg (fun h => hid h.1)] at hstate ⊢
    exact (ih e1 he1 hstate).imp_right fun h => h.keeps hc

/-- A call that committed is a fixed point of itself, then and after every later run. -/
theorem run_repeats (hschema : Schema db) {call again : Call} (hsame : again.request = call.request)
    (hverify : verifyReceipt ed25519 call.root call.records call.request = .ok evidence)
    (hc : Committed db evidence call.request.cursor row db') (later : List Call) :
    (step ed25519 (run (step ed25519) db' later).2 again).2 = (run (step ed25519) db' later).2 := by
  have hschema' := hc.schema hschema
  obtain ⟨r, hs⟩ := run_commits ed25519
    (P := fun db => ∃ r, Settled db evidence call.request.cursor r) hschema' later
    (committed_settles hc) fun _ _ _ _ _ _ _ hc' ⟨_, hs⟩ => hs.keeps hc'
  have hend := run_schema ed25519 hschema' later
  rcases call_cases ed25519 hend again with ⟨_, hstay⟩ | ⟨ev, row', db'', hv, hc', _, _, hdb⟩
  · exact hstay
  -- what a call verifies is said by its bytes alone
  simp only [verifyReceipt, refuse_eq_ok, bind_eq_ok, mapError_eq_ok] at hverify hv
  obtain ⟨-, receipt, hparse, _, -, fields, hfields, -, hverify⟩ := hverify
  obtain ⟨-, receipt', hparse', _, -, fields', hfields', -, hv⟩ := hv
  rw [hsame, hparse] at hparse'
  cases hparse'
  rw [hfields] at hfields'
  cases hfields'
  cases hverify
  cases hv
  rw [hsame] at hc'
  rw [hdb]
  exact hs.unchanged hend hc'

/-- What is kept of a receipt verifies again, to the same evidence. -/
theorem kept_receipt_verifies {root records bytes}
    (h : verifyReceipt ed25519 root records ⟨bytes, cursor⟩ = .ok evidence) :
    verifyReceipt ed25519 root records ⟨evidence.canonicalBytes, cursor⟩ = .ok evidence := by
  simp only [verifyReceipt, ReceiptKeys.Receipt.parse, refuse_eq_ok, bind_eq_ok, mapError_eq_ok] at h ⊢
  obtain ⟨hcursor, receipt, hparse, verified, hverify, fields, hfields, hsame, h⟩ := h
  cases h
  split at hparse <;> cases hparse
  rename_i hjson
  -- the canonical bytes are within the limits that the bytes of the call were within
  obtain ⟨hwf, hdepth⟩ := parse_wellFormed hjson
  have hagain := parse_canonicalBytes hwf hdepth
    ((length_canonicalBytes_le hjson).trans (JsonAccept.parseWithLimits_ok.mp hjson).1)
  refine ⟨hcursor, _, ?_, verified, hverify, fields, hfields, hsame, rfl⟩
  rw [ReceiptKeys.Receipt.canonicalBytes, Json.parse, hagain]

/-- The transaction of a call committed. -/
def Accepted (outcome : Except AcknowledgementError AcknowledgedReceipt × List Effect) : Prop :=
  ∃ db' rest, outcome.2 = .commit db' :: rest

theorem accepted_iff {call}
    (hverify : verifyReceipt ed25519 call.root call.records call.request = .ok evidence) :
    Accepted (acknowledgeReceipt ed25519 db call) ↔
      ∃ result, transact call.host db evidence call.request.cursor = .ok result := by
  rw [Accepted, acknowledgeReceipt, hverify]
  dsimp only
  cases transact call.host db evidence call.request.cursor with
  | error error => exact ⟨nofun, nofun⟩
  | ok result => exact ⟨fun _ => ⟨result, rfl⟩, fun _ => ⟨_, _, rfl⟩⟩

/-- A bundle is unlinked after the commit that acknowledged its entry. -/
theorem unlink_after_commit (hschema : Schema db) (call : Call) {before rest bundleName}
    (h : (acknowledgeReceipt ed25519 db call).2 = before ++ .unlink bundleName :: rest) :
    before = [.commit (step ed25519 db call).2] ∧
      ∃ e ∈ (step ed25519 db call).2.spoolEntries, e.bundleName = bundleName ∧
        e.state = .acknowledged := by
  rcases call_cases ed25519 hschema call with
    ⟨⟨error, hcall⟩, _⟩ | ⟨ev, row, db', _, hc, heffects, _, hdb⟩
  · rw [hcall] at h
    cases before <;> cases h
  rw [heffects] at h
  unfold cleanup at h
  obtain ⟨now, hentries⟩ := hc.entries
  have hentry : closed now row.entry ∈ db'.spoolEntries := by
    rw [hentries]
    exact Table.mem_update.mpr ⟨row.entry, hc.linked.entry, by simp⟩
  cases before with
  | nil => cases h
  | cons first before =>
    injection h with hfirst htail
    split at htail
    · cases before with
      | nil =>
        cases htail
        rw [hdb, ← hfirst]
        exact ⟨rfl, _, hentry, closed_bundleName _, closed_state _⟩
      | cons _ before => cases before <;> cases htail
    · cases before <;> cases htail

/-- Acknowledgement over any run of calls. -/
theorem acknowledgement_invariant (db : Database) (hschema : Schema db) (calls : List Call) :
    -- a source's watermark never decreases
    (∀ s ∈ db.sources, ∃ s' ∈ (run (step ed25519) db calls).2.sources, s'.sourceId = s.sourceId ∧
      s.lastAcknowledgedRangeEnd ≤ s'.lastAcknowledgedRangeEnd) ∧
    -- an entry that the run acknowledged has its verified receipt
    (∀ e ∈ (run (step ed25519) db calls).2.spoolEntries, e.state = .acknowledged →
      (∃ e₀ ∈ db.spoolEntries, e₀.spoolEntryId = e.spoolEntryId ∧ e₀.state = .acknowledged) ∨
        Receipted ed25519 calls (run (step ed25519) db calls).2 e.spoolEntryId) ∧
    ∀ (after : Database) (call : Call), after = (run (step ed25519) db calls).2 →
      -- a call that fails, other than in its cleanup, changes no table
      (∀ error, (acknowledgeReceipt ed25519 after call).1 = .error error →
        error.kind ≠ .cleanupPending → (step ed25519 after call).2 = after) ∧
      -- repeating an accepted call, then or later, changes no table
      (Accepted (acknowledgeReceipt ed25519 after call) → ∀ (later : List Call) (again : Call),
        again.request = call.request →
        (step ed25519 (run (step ed25519) (step ed25519 after call).2 later).2 again).2 =
          (run (step ed25519) (step ed25519 after call).2 later).2) ∧
      -- the bundle is unlinked after the commit
      (∀ before bundleName rest,
        (acknowledgeReceipt ed25519 after call).2 = before ++ .unlink bundleName :: rest →
          before = [.commit (step ed25519 after call).2] ∧
            ∃ e ∈ (step ed25519 after call).2.spoolEntries, e.bundleName = bundleName ∧
              e.state = .acknowledged) ∧
      -- a verified receipt that matches a request is accepted unless its cursor conflicts at the
      -- watermark, or its receipt cannot be retained
      ∀ evidence row, verifyReceipt ed25519 call.root call.records call.request = .ok evidence →
        Linked after row → row.frozen.requestId = evidence.fields.requestId.asStr →
        Matches row evidence.fields → call.host.Sound →
          (Accepted (acknowledgeReceipt ed25519 after call) ↔
            ¬ Conflicting row call.request.cursor ∧
              Receivable after evidence row.entry.state) := by
  refine ⟨fun s hs => run_watermark hschema calls hs,
    fun e he hstate => run_receipted hschema calls he hstate, ?_⟩
  intro after call hafter
  have hend : Schema after := hafter ▸ run_schema ed25519 hschema calls
  refine ⟨?_, ?_, fun _ _ _ h => unlink_after_commit hend call h, ?_⟩
  · intro error herror hkind
    rcases call_cases ed25519 hend call with
      ⟨_, hsame⟩ | ⟨_, _, _, _, _, _, ⟨receipt, hok⟩ | hpending, _⟩
    · exact hsame
    · rw [herror] at hok
      cases hok
    · rw [herror] at hpending
      cases hpending
      exact absurd rfl hkind
  · intro ⟨db', rest, haccepted⟩ later again hsame
    rcases call_cases ed25519 hend call with
      ⟨⟨error, hcall⟩, _⟩ | ⟨ev, row, db'', hverify, hc, _, _, hdb⟩
    · rw [hcall] at haccepted
      cases haccepted
    · rw [hdb]
      exact run_repeats hend hsame hverify hc later
  · intro evidence row hverify hlinked hreq hmatch hsound
    rw [accepted_iff hverify]
    exact transact_iff hend hsound hlinked hreq hmatch

end

end

/-! ## Two uploads of one source

A source with a closed generation and an open one, nothing acknowledged, and two captured
ranges whose requests are frozen. Where both ranges end at the same offset, the receipt of
the second one is refused after the first, which no history of the source should do. -/

namespace Sample
open Client.ReceiptDocument Client.ReceiptDocument.Sample

def source : SourceRow where
  sourceId := "source"
  harness := harness.asStr
  sessionHash := session.toHex
  freshnessLane := .freshness
  lastCursor := none
  lastAcknowledgedRangeEnd := -1
  createdAt := "2026-09-02T00:00:00Z"
  updatedAt := "2026-09-02T00:00:00Z"

def rotated : GenerationRow := ⟨"generation-1", "source", 1, .closed⟩
def current : GenerationRow := ⟨"generation-2", "source", 2, .opened⟩

def generations : Table GenerationRow.generationId := ⟨[rotated, current], by decide⟩

/-- A captured range, with its entry and its frozen request. -/
structure Upload where
  request : RequestId
  occurrence : OccurrenceId
  entryId : String
  generation : GenerationRow
  start : Int
  stop : Int
  cursor : String
  known : generation ∈ generations
  captured : 0 ≤ start ∧ start ≤ stop ∧ stop < I64_LIMIT
  shortCursor : cursor.length ≤ 1024

/-- The database answers, on the day after. -/
def host : AckHost := ⟨fun _ => none, fun _ => some "2026-09-04T00:00:00Z"⟩

theorem host_sound : host.Sound :=
  ⟨fun _ => rfl, fun _ => ⟨⟨"2026-09-04T00:00:00Z", by decide +kernel⟩, rfl, by decide +kernel⟩⟩

namespace Upload
variable (u a b : Upload)

def entry : SpoolEntryRow where
  spoolEntryId := u.entryId
  bundleName := u.entryId ++ BUNDLE_SUFFIX
  state := .materialized
  envelopeDigest := blob.toHex
  sizeBytes := 512
  attemptCount := 1
  nextAttemptAt := none
  createdAt := "2026-09-02T00:00:00Z"
  updatedAt := "2026-09-02T00:00:00Z"

def frozen : FrozenRequestRow where
  requestId := u.request.asStr
  spoolEntryId := some u.entryId
  tenantId := tenant.asStr
  originClientId := origin.asStr
  uploaderClientId := uploader.asStr
  occurrenceId := u.occurrence.toHex
  envelopeVersion := "1"
  storageProfile := ClosedEnum.token StorageProfile.zstdV1
  transportEncoding := none
  canonicalDigest := blob.toHex
  incomingChecksum := blob.toHex
  canonicalSize := u.stop - u.start
  transportSize := u.stop - u.start
  sourceAt := none
  capturedAt := "2026-09-02T00:00:00Z"
  envelopeCreatedAt := "2026-09-02T00:00:00Z"
  frozenAt := "2026-09-02T00:00:00Z"

def range : RangeRow where
  occurrenceId := u.occurrence.toHex
  generationId := u.generation.generationId
  rangeKind := .byte
  rangeStart := u.start
  rangeEnd := u.stop
  blobDigest := blob.toHex
  spoolEntryId := some u.entryId
  capturedAt := "2026-09-02T00:00:00Z"

def attestation : AttestationRow where
  attestationId := (attestationId u.occurrence uploader u.request).toHex
  tenantId := tenant.asStr
  occurrenceId := u.occurrence.toHex
  originClientId := origin.asStr
  uploaderClientId := uploader.asStr
  requestId := u.request.asStr
  relation := .relay
  recordedAt := "2026-09-02T00:00:00Z"

def chain : Chain := ⟨u.frozen, u.entry, u.range, u.attestation, u.generation, source⟩

def evidence : Evidence :=
  ⟨fields u.request u.occurrence, document (fields u.request u.occurrence) facts certificate⟩

def call : Call :=
  ⟨host, root, ∅, ⟨document (fields u.request u.occurrence) facts certificate, u.cursor⟩, .removed⟩

theorem verify :
    verifyReceipt accept u.call.root u.call.records u.call.request = .ok u.evidence :=
  verifyReceipt_document (authentic u.request u.occurrence)
    ⟨blobKey_length _ _ _, occurrenceKey_length _ _ _ _ _, attestationKey_length _ _ _⟩ u.shortCursor

theorem matches_chain : Matches u.chain u.evidence.fields :=
  ⟨rfl, rfl, rfl, rfl, rfl, rfl, rfl, rfl, rfl, rfl, ⟨uploader, rfl, rfl⟩, ⟨.zstdV1, rfl, rfl⟩,
    ⟨origin, harness, session, rfl, rfl, rfl, rfl⟩, rfl⟩

/-- Two uploads share no key. -/
structure Apart : Prop where
  entry : a.entry.spoolEntryId ≠ b.entry.spoolEntryId
  frozen : a.frozen.requestId ≠ b.frozen.requestId
  range : a.range.occurrenceId ≠ b.range.occurrenceId
  attestation : a.attestation.attestationId ≠ b.attestation.attestationId

variable {u a b} (h : Apart a b)

def pair {ρ : Type} {key : ρ → String} (x y : ρ) (h : key x ≠ key y) : Table key :=
  ⟨[x, y], by simp [h]⟩

def database : Database where
  sources := ⟨[source], by decide⟩
  generations
  spoolEntries := pair a.entry b.entry h.entry
  frozenRequests := pair a.frozen b.frozen h.frozen
  ranges := pair a.range b.range h.range
  uploadAttestations := pair a.attestation b.attestation h.attestation
  receipts := ⟨[], List.nodup_nil⟩
  quarantinedUploads := ⟨[], List.nodup_nil⟩

theorem mem_pair {ρ : Type} {key : ρ → String} {row : Upload → ρ} {z}
    (h : key (row a) ≠ key (row b)) : z ∈ pair _ _ h ↔ ∃ u, (u = a ∨ u = b) ∧ row u = z := by
  rw [Table.mem_rows]
  simp [pair, eq_comm]

theorem mem_entries {e} : e ∈ (database h).spoolEntries ↔ ∃ u, (u = a ∨ u = b) ∧ u.entry = e :=
  mem_pair h.entry

theorem mem_frozen {f} : f ∈ (database h).frozenRequests ↔ ∃ u, (u = a ∨ u = b) ∧ u.frozen = f :=
  mem_pair h.frozen

theorem mem_ranges {r} : r ∈ (database h).ranges ↔ ∃ u, (u = a ∨ u = b) ∧ u.range = r :=
  mem_pair h.range

theorem mem_attestations {t} :
    t ∈ (database h).uploadAttestations ↔ ∃ u, (u = a ∨ u = b) ∧ u.attestation = t :=
  mem_pair h.attestation

theorem linked (hu : u = a ∨ u = b) : Linked (database h) u.chain := by
  refine ⟨(mem_frozen h).mpr ⟨u, hu, rfl⟩, (mem_entries h).mpr ⟨u, hu, rfl⟩,
    (mem_ranges h).mpr ⟨u, hu, rfl⟩, (mem_attestations h).mpr ⟨u, hu, rfl⟩, u.known,
    List.mem_singleton_self _, rfl, rfl, rfl, rfl, rfl, ?_⟩
  have hknown : ∀ g ∈ [rotated, current], source.sourceId = g.sourceId := by decide
  exact hknown _ u.known

theorem schema : Schema (database h) where
  frozen_entry := by
    intro x hx y hy e hxe hye
    obtain ⟨u, rfl | rfl, rfl⟩ := (mem_frozen h).mp hx <;>
      obtain ⟨v, rfl | rfl, rfl⟩ := (mem_frozen h).mp hy
    · rfl
    · exact absurd (Option.some.inj (hxe.trans hye.symm)) h.entry
    · exact absurd (Option.some.inj (hye.trans hxe.symm)) h.entry
    · rfl
  attestation_request := by
    intro x hx y hy hreq
    obtain ⟨u, rfl | rfl, rfl⟩ := (mem_attestations h).mp hx <;>
      obtain ⟨v, rfl | rfl, rfl⟩ := (mem_attestations h).mp hy
    · rfl
    · exact absurd hreq h.frozen
    · exact absurd hreq.symm h.frozen
    · rfl
  generation_source :=
    show ∀ g ∈ [rotated, current], ∃ s ∈ [source], s.sourceId = g.sourceId by decide
  frozen_spool := by
    intro f hf e he
    obtain ⟨u, hu, rfl⟩ := (mem_frozen h).mp hf
    exact ⟨u.entry, (mem_entries h).mpr ⟨u, hu, rfl⟩, Option.some.inj he⟩
  range_generation := by
    intro r hr
    obtain ⟨u, -, rfl⟩ := (mem_ranges h).mp hr
    exact ⟨_, u.known, rfl⟩
  range_spool := by
    intro r hr e he
    obtain ⟨u, hu, rfl⟩ := (mem_ranges h).mp hr
    exact ⟨u.entry, (mem_entries h).mpr ⟨u, hu, rfl⟩, Option.some.inj he⟩
  receipt_request := nofun
  quarantined_spool := nofun
  watermark := show ∀ s ∈ [source], -1 ≤ s.lastAcknowledgedRangeEnd ∧
    s.lastAcknowledgedRangeEnd < I64_LIMIT by decide
  ordinal := show ∀ g ∈ [rotated, current], 1 ≤ g.ordinal by decide
  range := by
    intro r hr
    obtain ⟨u, -, rfl⟩ := (mem_ranges h).mp hr
    exact u.captured
  size := by
    intro e he
    obtain ⟨u, -, rfl⟩ := (mem_entries h).mp he
    exact Int.natCast_nonneg 512
  attempts := by
    intro e he
    obtain ⟨u, -, rfl⟩ := (mem_entries h).mp he
    exact (by decide : (0 : Int) ≤ 1 ∧ (1 : Int) < I64_LIMIT)
  commit_ordinal := nofun

theorem receivable (hu : u.entry.state ≠ .acknowledged) :
    Receivable (database h) u.evidence u.entry.state := ⟨hu, 0, rfl⟩

/-- The first receipt of the source is accepted. -/
theorem commits (hu : u = a ∨ u = b) : ∃ db', Committed (database h) u.evidence u.cursor u.chain db' ∧
    Accepted (acknowledgeReceipt accept (database h) u.call) ∧
    (step accept (database h) u.call).2 = db' := by
  have hlinked := linked h hu
  have hconflict : ¬ Conflicting u.chain u.cursor := fun ⟨_, previous, hprevious, _⟩ => by
    cases hprevious
  have haccepted : Accepted (acknowledgeReceipt accept (database h) u.call) :=
    (accepted_iff u.verify).mpr ((transact_iff (schema h) host_sound hlinked rfl u.matches_chain).mpr
      ⟨hconflict, receivable h (by simp [entry])⟩)
  obtain ⟨db', rest, heffects⟩ := haccepted
  rcases call_cases accept (schema h) u.call with
    ⟨⟨error, hcall⟩, _⟩ | ⟨ev, row, db'', hverify, hc, _, _, hdb⟩
  · rw [hcall] at heffects
    cases heffects
  · cases u.verify.symm.trans hverify
    obtain rfl := hc.linked.unique (schema h) hlinked hc.request
    exact ⟨db'', hc, ⟨db', rest, heffects⟩, hdb⟩

end Upload

def first : Upload where
  request := ⟨"01999e00-0000-7000-8000-000000000001", by decide +kernel⟩
  occurrence := .fill 0xdd
  entryId := "01999e00-0000-7000-8000-000000000011"
  generation := rotated
  start := 0
  stop := 10
  cursor := "generation-1:10"
  known := List.mem_cons_self
  captured := by decide
  shortCursor := by decide

/-- The same extent again, after a rotation. -/
def second : Upload where
  request := ⟨"01999e00-0000-7000-8000-000000000002", by decide +kernel⟩
  occurrence := .fill 0xee
  entryId := "01999e00-0000-7000-8000-000000000012"
  generation := current
  start := 0
  stop := 10
  cursor := "generation-2:10"
  known := List.mem_cons_of_mem _ List.mem_cons_self
  captured := by decide
  shortCursor := by decide

theorem apart : Upload.Apart first second :=
  ⟨by decide, by decide, by decide +kernel, by decide +kernel⟩

end Sample

open Sample ReceiptDocument.Sample in
/-- A verified receipt that matches its pending request is refused. -/
theorem rotated_receipt_refused : ∃ row : Chain,
    Schema (Upload.database apart) ∧
    Accepted (acknowledgeReceipt accept (Upload.database apart) first.call) ∧
    verifyReceipt accept second.call.root second.call.records second.call.request =
      .ok second.evidence ∧
    Linked (step accept (Upload.database apart) first.call).2 row ∧
    row.frozen.requestId = second.evidence.fields.requestId.asStr ∧
    row.entry.state = .materialized ∧ Matches row second.evidence.fields ∧
    second.call.host.Sound ∧
    ¬ Accepted (acknowledgeReceipt accept (step accept (Upload.database apart) first.call).2
      second.call) := by
  obtain ⟨db', hc, haccepted, hdb⟩ := Upload.commits apart (.inl rfl)
  have hsecond := Upload.linked apart (.inr rfl)
  obtain ⟨now, now', hlinked⟩ := after_linked hc hsecond
  have hm : Matches (chainAfter first.chain first.cursor now now' second.chain)
      second.evidence.fields :=
    ⟨rfl, rfl, rfl, rfl, rfl, rfl, rfl, rfl, rfl, rfl, ⟨uploader, rfl, rfl⟩, ⟨.zstdV1, rfl, rfl⟩,
      ⟨origin, harness, session, rfl, rfl, rfl, rfl⟩, rfl⟩
  have hconflict : Conflicting (chainAfter first.chain first.cursor now now' second.chain)
      second.cursor := ⟨rfl, first.cursor, rfl, by decide⟩
  rw [hdb]
  refine ⟨_, Upload.schema apart, haccepted, second.verify, hlinked, rfl, rfl, hm, host_sound, ?_⟩
  intro h
  have hboundary := (transact_iff (hc.schema (Upload.schema apart)) host_sound hlinked rfl hm).mp
    ((accepted_iff second.verify).mp h)
  exact hboundary.1 hconflict

open Sample ReceiptDocument.Sample in
theorem first_receipt_accepted :
    Schema (Upload.database apart) ∧
    Accepted (acknowledgeReceipt accept (Upload.database apart) first.call) ∧
    ∀ later : List Call,
      (step accept (run (step accept) (step accept (Upload.database apart) first.call).2 later).2
        first.call).2 =
      (run (step accept) (step accept (Upload.database apart) first.call).2 later).2 := by
  have hschema := Upload.schema apart
  obtain ⟨_, hrepeat, _, haccept⟩ :=
    (acknowledgement_invariant _ hschema []).2.2 (Upload.database apart) first.call rfl
  have haccepted : Accepted (acknowledgeReceipt accept (Upload.database apart) first.call) :=
    (haccept first.evidence first.chain first.verify (Upload.linked apart (.inl rfl)) rfl
      first.matches_chain host_sound).mpr
      ⟨fun ⟨_, _, hprevious, _⟩ => (by cases hprevious), Upload.receivable apart nofun⟩
  exact ⟨hschema, haccepted, fun later => hrepeat haccepted later first.call rfl⟩

open Sample ReceiptDocument.Sample in
theorem second_receipt_kept :
    verifyReceipt accept root ∅ ⟨second.evidence.canonicalBytes, second.cursor⟩ =
      .ok second.evidence :=
  kept_receipt_verifies second.verify

end AgentArchivist.Client.AcknowledgementSafety
