import AgentArchivist.Client.AcknowledgementSafety

/-! # What a source's watermark says

From a source with nothing acknowledged on, the watermark is the greatest end of an
acknowledged range, whichever order the receipts came in. It passes a range that is not
acknowledged exactly when a range that is acknowledged ends behind the start of that one;
over a tiling, when the acknowledged ranges are no initial part of it. -/
namespace AgentArchivist.Client.Watermark
open Lib List
open Auth.Authority Acknowledgement AcknowledgementBinding AcknowledgementSafety
open AcknowledgementSteps State Keyed Runs

/-- The upload of a range was acknowledged. -/
def Acknowledged (db : Database) (range : RangeRow) : Prop :=
  ∃ row, Linked db row ∧ row.range = range ∧ row.entry.state = .acknowledged

/-- Where the acknowledged ranges of a source end. -/
def acknowledgedEnds (db : Database) (sourceId : String) : Set Int :=
  { e | ∃ row, Linked db row ∧ row.source.sourceId = sourceId ∧
    row.entry.state = .acknowledged ∧ row.range.rangeEnd = e }

/-- The watermark of a source is the greatest of them. -/
def Level (db : Database) (sourceId : String) : Prop :=
  ∀ s ∈ db.sources, s.sourceId = sourceId →
    IsGreatest (insert (-1) (acknowledgedEnds db sourceId)) s.lastAcknowledgedRangeEnd

/-- Every range of a generation that starts below the watermark is acknowledged. -/
def PassesNothing (db : Database) (g : GenerationRow) (s : SourceRow) : Prop :=
  ∀ r ∈ db.ranges, r.generationId = g.generationId →
    r.rangeStart < s.lastAcknowledgedRangeEnd → Acknowledged db r

/-- Ranges that cover the offsets from `a` to `n`, end to end. -/
inductive Tiles : Int → List RangeRow → Int → Prop
  | nil (n : Int) : Tiles n [] n
  | cons {a n : Int} {r : RangeRow} {rest : List RangeRow} (start : r.rangeStart = a)
      (positive : a < r.rangeEnd) (next : Tiles r.rangeEnd rest n) : Tiles a (r :: rest) n

section
variable {db db' : Database} {evidence : Evidence} {cursor sourceId : String} {row r r' : Chain}

/-! ## One transaction -/

section
variable (hc : Committed db evidence cursor row db')
include hc

/-- A chain after a transaction was one before, and is acknowledged if it was or if it is the
one of this transaction. -/
theorem linked_before (hschema : Schema db) (hr' : Linked db' r') : ∃ r, Linked db r ∧ r.range = r'.range ∧
      r.source.sourceId = r'.source.sourceId ∧
      (r'.entry.state = .acknowledged ↔ r.entry.state = .acknowledged ∨ r = row) := by
  obtain ⟨now, hsources⟩ := hc.sources
  obtain ⟨now', hentries⟩ := hc.entries
  have hsource := hr'.source
  rw [hsources] at hsource
  obtain ⟨s, hs, hseq⟩ := Table.mem_update.mp hsource
  have hsid : s.sourceId = r'.source.sourceId := by
    rw [hseq]
    split
    · exact (moved_sourceId _).symm
    · rfl
  have hentry := hr'.entry
  rw [hentries] at hentry
  obtain ⟨e, he, heeq⟩ := Table.mem_update.mp hentry
  have heid : e.spoolEntryId = r'.entry.spoolEntryId := by
    rw [heeq]
    split
    · exact (closed_entryId _).symm
    · rfl
  have hlinked : Linked db { r' with source := s, entry := e } :=
    { frozen := by rw [← hc.frozenRequests]; exact hr'.frozen
      entry := he
      range := by rw [← hc.ranges]; exact hr'.range
      attestation := by rw [← hc.attestations]; exact hr'.attestation
      generation := by rw [← hc.generations]; exact hr'.generation
      source := hs
      frozen_entry := by rw [heid]; exact hr'.frozen_entry
      range_frozen := hr'.range_frozen
      range_entry := by rw [heid]; exact hr'.range_entry
      attestation_frozen := hr'.attestation_frozen
      generation_range := hr'.generation_range
      source_generation := by rw [hsid]; exact hr'.source_generation }
  refine ⟨_, hlinked, rfl, hsid, ?_⟩
  rw [heeq]
  split
  · next hid =>
    -- the entry has one frozen request, and that has one chain
    have hfrozen : r'.frozen = row.frozen :=
      hschema.frozen_entry _ hlinked.frozen _ hc.linked.frozen _ hlinked.frozen_entry
        (by rw [hc.linked.frozen_entry, hid.1])
    have hrow := hlinked.unique hschema hc.linked (congrArg FrozenRequestRow.requestId hfrozen)
    exact ⟨fun _ => .inr hrow, fun _ => closed_state _⟩
  · next hid =>
    refine ⟨.inl, fun h => h.resolve_right fun hrow => ?_⟩
    have hsame : e = row.entry := congrArg Chain.entry hrow
    exact hid ⟨by rw [hsame], rfl⟩

theorem linked_after (hr : Linked db r)
    (hstate : r.entry.state = .acknowledged ∨ r = row) : ∃ r', Linked db' r' ∧ r'.range = r.range ∧
      r'.source.sourceId = r.source.sourceId ∧ r'.entry.state = .acknowledged := by
  obtain ⟨now, now', hlinked⟩ := after_linked hc hr
  refine ⟨_, hlinked, rfl, ?_, ?_⟩
  · dsimp only [chainAfter]
    split
    · exact moved_sourceId _
    · rfl
  · dsimp only [chainAfter]
    split
    · exact closed_state _
    · next hne => exact hstate.resolve_right fun h => hne (by rw [h])

/-- A transaction acknowledges one range more. -/
theorem acknowledged_commit (hschema : Schema db) {range} :
    Acknowledged db' range ↔ Acknowledged db range ∨ range = row.range := by
  constructor
  · intro ⟨r', hr', hrange, hstate⟩
    obtain ⟨r, hr, hsame, _, hiff⟩ := linked_before hc hschema hr'
    rcases hiff.mp hstate with hold | rfl
    · exact .inl ⟨r, hr, hsame.trans hrange, hold⟩
    · exact .inr (hsame.trans hrange).symm
  · intro h
    obtain ⟨r, hr, rfl, hstate⟩ : ∃ r, Linked db r ∧ r.range = range ∧
        (r.entry.state = .acknowledged ∨ r = row) := by
      rcases h with ⟨r, hr, hrange, hstate⟩ | rfl
      · exact ⟨r, hr, hrange, .inl hstate⟩
      · exact ⟨row, hc.linked, rfl, .inr rfl⟩
    obtain ⟨r', hr', hrange, _, hack⟩ := linked_after hc hr hstate
    exact ⟨r', hr', hrange, hack⟩

theorem acknowledgedEnds_commit (hschema : Schema db) :
    acknowledgedEnds db' sourceId = if row.source.sourceId = sourceId
      then insert row.range.rangeEnd (acknowledgedEnds db sourceId)
      else acknowledgedEnds db sourceId := by
  have hafter {r : Chain} (hr : Linked db r) (hstate : r.entry.state = .acknowledged ∨ r = row) :
      r.range.rangeEnd ∈ acknowledgedEnds db' r.source.sourceId := by
    obtain ⟨r', hr', hrange, hsource, hack⟩ := linked_after hc hr hstate
    exact ⟨r', hr', hsource, hack, by rw [hrange]⟩
  ext e
  have hiff : e ∈ acknowledgedEnds db' sourceId ↔
      (row.source.sourceId = sourceId ∧ e = row.range.rangeEnd) ∨
        e ∈ acknowledgedEnds db sourceId := by
    constructor
    · intro ⟨r', hr', hsource, hstate, hend⟩
      obtain ⟨r, hr, hrange, hsid, hiff⟩ := linked_before hc hschema hr'
      rw [← hrange] at hend
      rw [← hsid] at hsource
      rcases hiff.mp hstate with hold | rfl
      · exact .inr ⟨r, hr, hsource, hold, hend⟩
      · exact .inl ⟨hsource, hend.symm⟩
    · intro h
      rcases h with ⟨rfl, rfl⟩ | ⟨r, hr, rfl, hstate, rfl⟩
      · exact hafter hc.linked (.inr rfl)
      · exact hafter hr (.inl hstate)
  rw [hiff]
  split
  · next h => rw [Set.mem_insert_iff, and_iff_right h]
  · next h => exact ⟨fun hor => hor.resolve_left fun hand => h hand.1, .inr⟩

end

theorem Level.keeps (hschema : Schema db) (h : Level db sourceId)
    (hc : Committed db evidence cursor row db') : Level db' sourceId := by
  intro s' hs' hid
  obtain ⟨now, hsources⟩ := hc.sources
  rw [hsources] at hs'
  obtain ⟨s, hs, hs'⟩ := Table.mem_update.mp hs'
  rw [acknowledgedEnds_commit hc hschema]
  by_cases hsource : s.sourceId = row.source.sourceId
  · rw [if_pos ⟨hsource, rfl⟩] at hs'
    rw [hs', moved_sourceId] at hid
    rw [hs', moved_watermark, if_pos (hsource.symm.trans hid), max_comm, Set.insert_comm]
    exact (h s hs hid).insert _
  · rw [if_neg fun h => hsource h.1] at hs'
    rw [hs'] at hid ⊢
    rw [if_neg fun h => hsource (hid.trans h.symm)]
    exact h s hs hid

/-! ## Runs -/

variable {ed25519 : Verifier}

/-- Nothing of the source is acknowledged. -/
structure Fresh (db : Database) (s : SourceRow) : Prop where
  mem : s ∈ db.sources
  watermark : s.lastAcknowledgedRangeEnd = -1
  pending : ∀ row, Linked db row → row.source = s → row.entry.state ≠ .acknowledged

theorem Fresh.level {s} (h : Fresh db s) : Level db s.sourceId := by
  intro s' hs' hid
  obtain rfl := Table.eq_of_key hs' h.mem hid
  have hempty : acknowledgedEnds db s'.sourceId = ∅ := by
    refine Set.eq_empty_of_forall_notMem fun e ⟨row, hrow, hsource, hstate, _⟩ => ?_
    exact h.pending row hrow (Table.eq_of_key hrow.source h.mem hsource) hstate
  rw [hempty, h.watermark]
  exact ⟨Set.mem_insert _ _, fun x hx => (hx.resolve_right (Set.notMem_empty x)).le⟩

/-- A watermark stands behind a start exactly when an acknowledged range ends behind it. -/
theorem lt_watermark {ends w start} (h : IsGreatest (insert (-1) ends) w) (hstart : 0 ≤ start) :
    start < w ↔ ∃ e ∈ ends, start < e := by
  constructor
  · intro hlt
    rcases h.1 with hw | hw
    · omega
    · exact ⟨w, hw, hlt⟩
  · intro ⟨e, he, hlt⟩
    exact lt_of_lt_of_le hlt (h.2 (Set.mem_insert_of_mem _ he))

/-! ## Tilings -/

theorem Tiles.from {a n l} (h : Tiles a l n) :
    ∀ r ∈ l, a ≤ r.rangeStart ∧ r.rangeStart < r.rangeEnd := by
  induction h with
  | nil n => nofun
  | cons start positive next ih =>
    intro r hr
    rcases mem_cons.mp hr with rfl | hr
    · omega
    · have := ih r hr
      omega

/-- The selected ranges of a tiling end before all others exactly when they are an initial part
of it. -/
theorem Tiles.initial_iff {a n} {l} (h : Tiles a l n) (A : RangeRow → Prop) :
    (∀ r ∈ l, ¬ A r → ∀ x ∈ l, A x → x.rangeEnd ≤ r.rangeStart) ↔
      l.Pairwise fun x y => A y → A x := by
  induction h with
  | nil n => simp
  | @cons a n first rest start positive next ih =>
    have hbehind := next.from
    rw [pairwise_cons, ← ih]
    constructor
    · intro hends
      refine ⟨fun y hy hA => ?_, fun r hr hn x hx => hends r (mem_cons_of_mem _ hr) hn x
        (mem_cons_of_mem _ hx)⟩
      by_contra hfirst
      have := hends first mem_cons_self hfirst y (mem_cons_of_mem _ hy) hA
      have := hbehind y hy
      omega
    · intro ⟨hfirst, hrest⟩ r hr hn x hx hA
      rcases mem_cons.mp hr with rfl | hr
      · rcases mem_cons.mp hx with rfl | hx
        · exact absurd hA hn
        · exact absurd (hfirst x hx hA) hn
      · rcases mem_cons.mp hx with hx | hx
        · rw [hx]
          exact (hbehind r hr).1
        · exact hrest r hr hn x hx hA

/-- An acknowledged range of a generation counts for the generation's source. -/
theorem Acknowledged.mem_ends {g} (hg : g ∈ db.generations) {range}
    (hgen : range.generationId = g.generationId) (h : Acknowledged db range) :
    range.rangeEnd ∈ acknowledgedEnds db g.sourceId := by
  obtain ⟨row, hrow, rfl, hstate⟩ := h
  have hsame := Table.eq_of_key hrow.generation hg (hrow.generation_range.trans hgen)
  exact ⟨row, hrow, hrow.source_generation.trans (congrArg _ hsame), hstate, rfl⟩

/-- After any run over a source with nothing acknowledged, the watermark is the greatest end of
an acknowledged range of the source. It has passed no range of a generation that is not
acknowledged exactly when the acknowledged ranges all end before such a range; where the
ranges of the generation are a tiling and no other is acknowledged, exactly when the
acknowledged ones are an initial part of it. -/
theorem watermark_passes_iff (db : Database) (hschema : Schema db) (s : SourceRow)
    (hfresh : Fresh db s) (g : GenerationRow) (hg : g ∈ db.generations)
    (hgs : g.sourceId = s.sourceId) (calls : List Call) (after : Database)
    (hafter : after = (run (step ed25519) db calls).2) :
    ∃ s' ∈ after.sources, s'.sourceId = s.sourceId ∧
      IsGreatest (insert (-1) (acknowledgedEnds after s.sourceId)) s'.lastAcknowledgedRangeEnd ∧
      (PassesNothing after g s' ↔ ∀ r ∈ after.ranges, r.generationId = g.generationId →
        ¬ Acknowledged after r → ∀ e ∈ acknowledgedEnds after s.sourceId, e ≤ r.rangeStart) ∧
      ∀ n l, Tiles 0 l n →
        (∀ r, r ∈ l ↔ r ∈ after.ranges ∧ r.generationId = g.generationId) →
        (∀ row, Linked after row → row.source.sourceId = s.sourceId →
          row.entry.state = .acknowledged → row.range ∈ l) →
        (PassesNothing after g s' ↔
          l.Pairwise fun x y => Acknowledged after y → Acknowledged after x) := by
  have hlevel : Level after s.sourceId :=
    hafter ▸ run_commits ed25519 (P := fun db => Level db s.sourceId) hschema calls hfresh.level
      fun _ _ _ _ _ hschema _ hc hlevel => hlevel.keeps hschema hc
  have hend : Schema after := hafter ▸ run_schema ed25519 hschema calls
  -- a run changes no generation
  have hgens : after.generations = db.generations :=
    hafter ▸ run_commits ed25519 (P := fun db' => db'.generations = db.generations) hschema calls rfl
      fun _ _ _ _ _ _ _ hc h => hc.generations.trans h
  obtain ⟨s', hs', hid, _⟩ : ∃ s' ∈ after.sources, s'.sourceId = s.sourceId ∧
      s.lastAcknowledgedRangeEnd ≤ s'.lastAcknowledgedRangeEnd :=
    hafter ▸ run_watermark hschema calls hfresh.mem
  have hgreatest := hlevel s' hs' hid
  have hpasses : PassesNothing after g s' ↔ ∀ r ∈ after.ranges, r.generationId = g.generationId →
      ¬ Acknowledged after r → ∀ e ∈ acknowledgedEnds after s.sourceId, e ≤ r.rangeStart := by
    refine forall_congr' fun r => forall_congr' fun hr => forall_congr' fun _ => ?_
    rw [lt_watermark hgreatest (hend.range r hr).1, ← not_imp_not]
    push Not
    rfl
  refine ⟨s', hs', hid, hgreatest, hpasses, fun n l htiles hl hothers => ?_⟩
  rw [hpasses, ← htiles.initial_iff]
  constructor
  · intro h r hr hn x hx hA
    obtain ⟨hmem, hgen⟩ := (hl r).mp hr
    exact h r hmem hgen hn _ (hgs ▸ hA.mem_ends (hgens ▸ hg) ((hl x).mp hx).2)
  · intro h r hmem hgen hn e ⟨row, hrow, hsource, hstate, hrange⟩
    rw [← hrange]
    exact h r ((hl r).mpr ⟨hmem, hgen⟩) hn _ (hothers row hrow hsource hstate)
      ⟨row, hrow, rfl, hstate⟩

end

/-! ## Two ranges of one generation

The second half of a file is acknowledged and the first half is not. -/

namespace Sample
open Client.AcknowledgementSafety.Sample

def low : Upload :=
  { first with
    generation := current, stop := 5, cursor := "generation-2:5"
    known := second.known, captured := by decide, shortCursor := by decide }

def high : Upload :=
  { second with start := 5, captured := by decide }

theorem halves : Upload.Apart low high :=
  ⟨apart.entry, apart.frozen, apart.range, apart.attestation⟩

theorem tiles : Tiles 0 [low.range, high.range] 10 :=
  .cons rfl (by decide) (.cons rfl (by decide) (.nil 10))

theorem fresh : Fresh (Upload.database halves) source where
  mem := mem_singleton_self _
  watermark := rfl
  pending row hrow _ hstate := by
    obtain ⟨u, -, h⟩ := (Upload.mem_entries halves).mp hrow.entry
    rw [← h] at hstate
    cases hstate

theorem mem_ranges {r} : r ∈ [low.range, high.range] ↔
    r ∈ (Upload.database halves).ranges ∧ r.generationId = current.generationId := by
  rw [Upload.mem_ranges halves]
  simp only [mem_cons, not_mem_nil, or_false]
  constructor
  · rintro (rfl | rfl)
    · exact ⟨⟨low, .inl rfl, rfl⟩, rfl⟩
    · exact ⟨⟨high, .inr rfl, rfl⟩, rfl⟩
  · rintro ⟨⟨u, rfl | rfl, rfl⟩, -⟩
    · exact .inl rfl
    · exact .inr rfl

/-- After one receipt, that range is acknowledged and the other is not. -/
theorem acknowledged_iff {u : Upload} {db' r}
    (hc : Committed (Upload.database halves) u.evidence u.cursor u.chain db') :
    Acknowledged db' r ↔ r = u.range := by
  have hnothing : ¬ Acknowledged (Upload.database halves) r := by
    intro ⟨row, hrow, _, hstate⟩
    exact fresh.pending row hrow (mem_singleton.mp hrow.source) hstate
  rw [acknowledged_commit hc (Upload.schema halves), or_iff_right hnothing]
  rfl

end Sample

open Client.ReceiptDocument.Sample Sample

/-- The receipt of the second half moves the watermark past the first half. -/
theorem high_receipt_passes_low :
    Schema (Upload.database halves) ∧ Fresh (Upload.database halves) source ∧
    Tiles 0 [low.range, high.range] 10 ∧
    (∀ r, r ∈ [low.range, high.range] ↔
      r ∈ (Upload.database halves).ranges ∧ r.generationId = current.generationId) ∧
    ∃ s ∈ (run (step accept) (Upload.database halves) [high.call]).2.sources,
      s.sourceId = source.sourceId ∧
      ¬ PassesNothing (run (step accept) (Upload.database halves) [high.call]).2 current s := by
  obtain ⟨db', hc, _, hdb⟩ := Upload.commits halves (.inr rfl)
  refine ⟨Upload.schema halves, fresh, tiles, fun r => mem_ranges, ?_⟩
  have hrun : (run (step accept) (Upload.database halves) [high.call]).2 = db' := by
    rw [run, run, hdb]
  obtain ⟨now, hsources⟩ := hc.sources
  rw [hrun]
  have hsource : moved high.cursor high.range.rangeEnd now source ∈ db'.sources := by
    rw [hsources]
    exact Table.mem_update.mpr ⟨source, fresh.mem, rfl⟩
  refine ⟨_, hsource, moved_sourceId _, fun h => ?_⟩
  have hlow := h low.range (by rw [hc.ranges]; exact (mem_ranges.mp mem_cons_self).1) rfl
    (by rw [moved_watermark]; decide)
  have hsame := (acknowledged_iff hc).mp hlow
  exact halves.range (congrArg RangeRow.occurrenceId hsame)

/-- In order, the watermark passes nothing. -/
theorem low_receipt_passes_nothing :
    ∃ s ∈ (run (step accept) (Upload.database halves) [low.call]).2.sources,
      s.sourceId = source.sourceId ∧
      PassesNothing (run (step accept) (Upload.database halves) [low.call]).2 current s := by
  obtain ⟨db', hc, _, hdb⟩ := Upload.commits halves (.inl rfl)
  have hrun : db' = (run (step accept) (Upload.database halves) [low.call]).2 := by
    rw [run, run, hdb]
  obtain ⟨s, hs, hid, _, _, htiled⟩ := watermark_passes_iff (Upload.database halves)
    (Upload.schema halves) source fresh current second.known rfl [low.call] db' hrun
  rw [← hrun]
  refine ⟨s, hs, hid, (htiled 10 [low.range, high.range] tiles (fun r => ?_) ?_).mpr ?_⟩
  · rw [hc.ranges]
    exact mem_ranges
  · intro row hrow _ hstate
    rw [(acknowledged_iff hc).mp ⟨row, hrow, rfl, hstate⟩]
    exact mem_cons_self
  · rw [pairwise_pair]
    exact fun _ => (acknowledged_iff hc).mpr rfl

end AgentArchivist.Client.Watermark
