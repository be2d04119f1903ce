import AgentArchivist.Auth.AuthorityPublication
import AgentArchivist.Auth.ReceiptKeys

/-! # When the halves of a chain may sign

A half may sign from the link that established it until a day after the link that retired
it. The walk holds no link to that rule: it admits whatever the retired key signed,
however it is dated. Where the links of a chain are dated in order, each is acceptable
under the rule, and the windows of the halves nest; where they are not, neither holds. -/
namespace AgentArchivist.Auth.AuthorityWindows
open Lib List
open Authority AuthorityChain AuthorityPublication ReceiptKeys Fallible Succession
open Protocol.Vocabulary

/-! ## The rule -/

section
variable {resolved : ResolvedAuthority} {at' : Timestamp}

/-- The last instant of the overlap after a retirement. -/
def overlapEnd (retired : Timestamp) : Instant :=
  toLex ((ofLex (utcInstant retired)).1 + OVERLAP_SECONDS, (ofLex (utcInstant retired)).2)

theorem le_overlapEnd (retired : Timestamp) : utcInstant retired ≤ overlapEnd retired := by
  have hpos : (0 : Int) < OVERLAP_SECONDS := by decide
  refine le_of_lt (Prod.Lex.lt_iff.mpr (.inl ?_))
  exact Int.lt_add_of_pos_right _ hpos

theorem accepted_iff : resolved.acceptance at' = .accepted ↔ calendarValid at' = true ∧
    (∀ established ∈ resolved.establishedAt, utcInstant established ≤ utcInstant at') ∧
    ∀ retired ∈ resolved.retiredAt, utcInstant at' ≤ overlapEnd retired := by
  simp only [ResolvedAuthority.acceptance, ite_eq_iff, reduceCtorEq, and_false, false_or, and_true,
    Option.any_eq_true, decide_eq_true_iff, not_exists, not_and, not_lt, Bool.not_eq_true',
    Bool.not_eq_false]
  rfl

theorem verifySigningAt_ok : resolved.verifySigningAt at' = .ok () ↔
    resolved.acceptance at' = .accepted := by
  unfold ResolvedAuthority.verifySigningAt
  cases resolved.acceptance at' <;> simp

theorem verifySigningAuthority_ok {verify root store signer} :
    verifySigningAuthority verify root store signer at' = .ok resolved ↔
      resolve verify root store signer = .ok resolved ∧ resolved.acceptance at' = .accepted := by
  obtain ⟨n, result, -, hwalk, -⟩ := resolveAuthority_ends verify root store signer
  unfold verifySigningAuthority resolve
  rw [hwalk _ (Nat.lt_succ_self _)]
  constructor
  · intro h
    split at h
    · cases h
    cases result with
    | error e => cases h
    | ok a =>
      obtain ⟨_, haccept, rfl⟩ := map_eq_ok.mp h
      exact ⟨rfl, verifySigningAt_ok.mp haccept⟩
  · intro ⟨hresult, haccept⟩
    subst hresult
    rw [if_neg (by simp [(accepted_iff.mp haccept).1])]
    exact map_eq_ok.mpr ⟨(), verifySigningAt_ok.mpr haccept, rfl⟩

end

/-! ## The links of a resolution -/

/-- The second link is dated no earlier than the first. -/
def NotBefore (link link' : AuthorityRotationLink) : Prop :=
  utcInstant link.signedAt ≤ utcInstant link'.signedAt

instance : Trans NotBefore NotBefore NotBefore := ⟨fun h h' => le_trans h h'⟩

section
variable (verify : Verifier) (root : PinnedAuthorityRoot)
  (store : Finmap fun _ : KeyId => List UInt8)

/-- The links that resolving a signer adopts, and the one that retires it. -/
structure History (signer : KeyId) (a : ResolvedAuthority) (adopted : List AuthorityRotationLink)
    (retiring : Option AuthorityRotationLink) : Prop where
  resolves : Resolves verify root store.lookup signer a adopted
  retires : ∀ link, link ∈ retiring ↔ Admitted verify root store.lookup signer link

/-- The half that signed the link was acceptable at the link's own instant. -/
def Acceptable (link : AuthorityRotationLink) : Prop :=
  ∃ half, verifySigningAuthority verify root store link.authorityKeyId link.signedAt = .ok half

/-- The windows of a resolution nest. -/
structure Nested (a : ResolvedAuthority) (adopted : List AuthorityRotationLink)
    (retiring : Option AuthorityRotationLink) : Prop where
  acceptable : ∀ link ∈ adopted ++ retiring.toList, Acceptable verify root store link
  advancing : (adopted ++ retiring.toList).Pairwise NotBefore
  window : ∀ established ∈ a.establishedAt, ∀ retired ∈ a.retiredAt,
    utcInstant established ≤ utcInstant retired
  ancestors : ∀ at', a.acceptance at' = .accepted → ∀ link ∈ adopted,
    utcInstant link.signedAt ≤ utcInstant at'

end

/-- Each link is dated no earlier than the one before it. -/
def InOrder (links : List AuthorityRotationLink) : Prop := links.IsChain NotBefore

section
variable {verify : Verifier} {root : PinnedAuthorityRoot}
  {store : Finmap fun _ : KeyId => List UInt8} {signer : KeyId} {a : ResolvedAuthority}
  {adopted : List AuthorityRotationLink} {retiring : Option AuthorityRotationLink}

variable {links : List AuthorityRotationLink}

theorem inOrder_iff_pairwise :
    InOrder links ↔ links.Pairwise NotBefore := isChain_iff_pairwise

variable {link : AuthorityRotationLink}

theorem acceptable_iff {before after : List AuthorityRotationLink}
    (h : Chain verify root store.lookup (before ++ link :: after)) :
    Acceptable verify root store link ↔
      ∀ earlier ∈ before.getLast?, utcInstant earlier.signedAt ≤ utcInstant link.signedAt := by
  obtain ⟨hbefore, hlink, hfresh⟩ := sequence_snoc.mp (Chain.beginning h rfl)
  have hsigner : link.authorityKeyId = tip root before := link.witnessed.trans hlink.retires
  have hresolve : resolve verify root store link.authorityKeyId =
      .ok ((walkOf root before).resolved (some link.signedAt)) := by
    rw [hsigner]
    exact resolve_ok.mpr ⟨before, hbefore, rfl, rfl, rfl, rfl, .inr ⟨link, hlink, hfresh, rfl⟩⟩
  unfold Acceptable
  simp only [verifySigningAuthority_ok, hresolve, Except.ok.injEq, exists_eq_left', accepted_iff]
  constructor
  · intro ⟨_, hestablished, _⟩ earlier hmem
    exact hestablished _ (Option.mem_map_of_mem _ hmem)
  · intro hearlier
    refine ⟨link.calendar, fun established hmem => ?_, fun retired hmem => ?_⟩
    · obtain ⟨earlier, hlast, rfl⟩ := Option.mem_map.mp hmem
      exact hearlier earlier hlast
    · obtain rfl := Option.mem_some_iff.mp hmem
      exact le_overlapEnd link.signedAt

theorem History.chain (h : History verify root store signer a adopted retiring) :
    Chain verify root store.lookup (adopted ++ retiring.toList) ∧
      a.retiredAt = retiring.map (·.signedAt) := by
  cases retiring with
  | none =>
    rcases h.resolves.retired with ⟨-, hnone⟩ | ⟨link, hlink, -⟩
    · rw [Option.toList_none, append_nil]
      exact ⟨h.resolves.chain, hnone⟩
    · cases (h.retires link).mpr hlink
  | some link =>
    have hlink := (h.retires link).mp rfl
    rcases h.resolves.retired with ⟨hnone, -⟩ | ⟨link', hlink', hfresh, hat⟩
    · obtain ⟨bytes, hfetch, -⟩ := hlink.stored
      rw [hnone] at hfetch
      cases hfetch
    obtain rfl := hlink.unique hlink'
    refine ⟨sequence_snoc.mpr ⟨h.resolves.chain, ?_, hfresh⟩, hat⟩
    have htip : last root.keyId AuthorityRotationLink.keyId adopted = signer := h.resolves.reaches
    rw [htip]
    exact hlink

theorem exists_history (h : resolve verify root store signer = .ok a) :
    ∃ adopted retiring, History verify root store signer a adopted retiring := by
  obtain ⟨adopted, hr⟩ := resolve_ok.mp h
  rcases hr.retired with ⟨hnone, -⟩ | ⟨link, hlink, -⟩
  · refine ⟨adopted, none, hr, fun link => ⟨nofun, fun hlink => ?_⟩⟩
    obtain ⟨bytes, hfetch, -⟩ := hlink.stored
    rw [hnone] at hfetch
    cases hfetch
  · refine ⟨adopted, some link, hr, fun link' => ⟨fun hmem => ?_, fun hlink' => ?_⟩⟩
    · obtain rfl := Option.mem_some_iff.mp hmem
      exact hlink
    · rw [hlink.unique hlink']
      rfl

theorem acceptable_of_inOrder (h : Chain verify root store.lookup links) (horder : InOrder links)
    (hlink : link ∈ links) : Acceptable verify root store link := by
  obtain ⟨before, after, rfl⟩ := append_of_mem hlink
  refine (acceptable_iff h).mpr fun earlier hlast => ?_
  have hpairs := (pairwise_append.mp (inOrder_iff_pairwise.mp horder)).2.2
  exact hpairs earlier (mem_of_getLast? hlast) link mem_cons_self

/-- A chain whose links are acceptable is dated in order, link by link. -/
theorem inOrder_of_acceptable (h : Chain verify root store.lookup links)
    (hall : ∀ link ∈ links, Acceptable verify root store link) : InOrder links := by
  induction links using List.reverseRecOn with
  | nil => exact List.IsChain.nil
  | append_singleton links link ih =>
    obtain ⟨hlinks, -⟩ := sequence_snoc.mp h
    have horder := ih hlinks fun link' hmem => hall link' (mem_append_left _ hmem)
    have hlast := (acceptable_iff h).mp (hall link (mem_append_right _ mem_cons_self))
    refine isChain_append.mpr ⟨horder, List.IsChain.singleton _, ?_⟩
    intro earlier hearlier next hnext
    obtain rfl := Option.mem_some_iff.mp hnext
    exact hlast earlier hearlier

theorem History.nested (h : History verify root store signer a adopted retiring)
    (horder : InOrder (adopted ++ retiring.toList)) :
    Nested verify root store a adopted retiring := by
  obtain ⟨hchain, hretired⟩ := h.chain
  have hpairs := inOrder_iff_pairwise.mp horder
  obtain ⟨hadopted, -, hacross⟩ := pairwise_append.mp hpairs
  refine ⟨fun link => acceptable_of_inOrder hchain horder, hpairs, ?_, ?_⟩
  · intro established hest retired hret
    rw [h.resolves.established] at hest
    rw [hretired] at hret
    obtain ⟨last, hlast, rfl⟩ := Option.mem_map.mp hest
    obtain ⟨link, hlink, rfl⟩ := Option.mem_map.mp hret
    exact hacross last (mem_of_getLast? hlast) link (Option.mem_toList.mpr hlink)
  · intro at' haccept link hlink
    rcases eq_nil_or_concat' adopted with rfl | ⟨before, last, rfl⟩
    · cases hlink
    have hlast : a.establishedAt = some last.signedAt := by
      rw [h.resolves.established]
      simp
    have hest := (accepted_iff.mp haccept).2.1 last.signedAt hlast
    rcases mem_append.mp hlink with hmem | hmem
    · exact ((pairwise_append.mp hadopted).2.2 link hmem last mem_cons_self).trans hest
    · obtain rfl := mem_singleton.mp hmem
      exact hest

end

/-- For every signer that is resolved: the links that were adopted, with the one that retires it,
are acceptable, and the windows nest, exactly where each link is dated no earlier than the one
before it. -/
theorem windows_nest_iff (verify : Verifier) (root : PinnedAuthorityRoot)
    (store : Finmap fun _ : KeyId => List UInt8) (signer : KeyId) (a : ResolvedAuthority)
    (h : resolve verify root store signer = .ok a) :
    (∃ adopted retiring, History verify root store signer a adopted retiring) ∧
    ∀ adopted retiring, History verify root store signer a adopted retiring →
      ((∀ link ∈ adopted ++ retiring.toList, Acceptable verify root store link) ↔
        InOrder (adopted ++ retiring.toList)) ∧
      (Nested verify root store a adopted retiring ↔ InOrder (adopted ++ retiring.toList)) := by
  refine ⟨exists_history h, fun adopted retiring hhistory => ⟨?_, ?_⟩⟩
  · obtain ⟨hchain, -⟩ := hhistory.chain
    exact ⟨inOrder_of_acceptable hchain, fun horder link => acceptable_of_inOrder hchain horder⟩
  · exact ⟨fun hnested => inOrder_iff_pairwise.mpr hnested.advancing, hhistory.nested⟩

/-! ## A backdated succession

The root is retired on the second of January, and the key that it was retired for is retired
by a link that is dated the day before. -/

namespace Sample
open Auth.AuthorityPublication.Sample

def nextDay : Timestamp := ⟨"2026-01-02T00:00:00Z", by decide +kernel⟩
def third : Ed25519PublicKey := .fill 0x33

theorem nextDay_calendar : calendarValid nextDay = true := by decide +kernel

theorem third_ne : KeyId.fromPublicKey third ≠ KeyId.fromPublicKey first ∧
    KeyId.fromPublicKey third ≠ KeyId.fromPublicKey second := by
  decide +kernel

def retirement : AuthorityRotationLink :=
  rotation first second nextDay nextDay_calendar second_ne_first
def backdated : AuthorityRotationLink :=
  rotation second third newYear newYear_calendar third_ne.2

/-- Each half signed its own retirement and nothing else. -/
def signers : Verifier := fun key message _ =>
  (key = first && message = retirement.unsignedCanonicalBytes) ||
    (key = second && message = backdated.unsignedCanonicalBytes)

/-- What the offline store holds after both publications. -/
def store : Finmap fun _ : KeyId => List UInt8 := published (published ∅ retirement) backdated

theorem retirement_extends : Extends signers root ∅ retirement [] where
  tenant := rfl
  signature := by
    simp [AuthorityRotationLink.verifyPredecessorSignature, signers, retirement, Sample.rotation]
  chain := sequence_nil
  reaches := rfl
  free := Finmap.lookup_empty _

theorem lookup_other {key} (hfirst : key ≠ KeyId.fromPublicKey first) :
    (published ∅ retirement).lookup key = none := by
  rw [lookup_published_of_ne]
  · exact Finmap.lookup_empty _
  · exact hfirst

theorem backdated_extends : Extends signers root (published ∅ retirement) backdated [retirement] where
  tenant := rfl
  signature := by
    simp [AuthorityRotationLink.verifyPredecessorSignature, signers, backdated, Sample.rotation]
  chain := retirement_extends.chain_snoc (Finmap.lookup_empty _)
  reaches := rfl
  free := lookup_other second_ne_first

theorem chain : Chain signers root store.lookup [retirement, backdated] :=
  backdated_extends.chain_snoc (lookup_other third_ne.1)

/-- The half that the backdated link establishes. -/
def successor : ResolvedAuthority :=
  ⟨KeyId.fromPublicKey third, third, some newYear, none⟩

/-- The half that the backdated link retires. -/
def predecessor : ResolvedAuthority :=
  ⟨KeyId.fromPublicKey second, second, some nextDay, some newYear⟩

theorem resolve_third : resolve signers root store (KeyId.fromPublicKey third) = .ok successor := by
  refine resolve_ok.mpr ⟨_, chain, rfl, rfl, rfl, rfl, .inl ⟨?_, rfl⟩⟩
  have hlookup : store.lookup (KeyId.fromPublicKey third) =
      (published ∅ retirement).lookup (KeyId.fromPublicKey third) :=
    lookup_published_of_ne third_ne.2
  exact hlookup.trans (lookup_other third_ne.1)

/-- The same half before the backdated link is published. -/
def established : ResolvedAuthority := { predecessor with retiredAt := none }

theorem established_history : History signers root (published ∅ retirement) backdated.previousKeyId
    established [retirement] none where
  resolves := ⟨backdated_extends.chain, rfl, rfl, rfl, rfl, .inl ⟨backdated_extends.free, rfl⟩⟩
  retires link := by
    refine ⟨nofun, fun hlink => ?_⟩
    obtain ⟨bytes, hfetch, -⟩ := hlink.stored
    rw [backdated_extends.free] at hfetch
    cases hfetch

theorem newYear_before : utcInstant newYear < utcInstant nextDay := by decide +kernel

end Sample

/-- The backdated link is adopted although its signer was not established when it is dated: the
signer is retired before it was established, and the half that the link establishes may sign
a record dated before that signer was. -/
theorem backdated_link_adopted :
    resolve Sample.signers AuthorityPublication.Sample.root Sample.store
      (KeyId.fromPublicKey Sample.third) = .ok Sample.successor ∧
    resolve Sample.signers AuthorityPublication.Sample.root Sample.store
      Sample.backdated.authorityKeyId = .ok Sample.predecessor ∧
    Sample.predecessor.acceptance Sample.backdated.signedAt = .beforeEstablishment ∧
    (∃ established ∈ Sample.predecessor.establishedAt, ∃ retired ∈ Sample.predecessor.retiredAt,
      utcInstant retired < utcInstant established) ∧
    Sample.successor.acceptance Sample.backdated.signedAt = .accepted ∧
    utcInstant Sample.backdated.signedAt < utcInstant Sample.retirement.signedAt := by
  refine ⟨Sample.resolve_third,
    Sample.backdated_extends.resolve_previous (Sample.lookup_other Sample.third_ne.1), by decide +kernel,
    ⟨_, rfl, _, rfl, Sample.newYear_before⟩, by decide +kernel, Sample.newYear_before⟩

theorem first_rotation_nests :
    resolve Sample.signers AuthorityPublication.Sample.root (published ∅ Sample.retirement)
      Sample.backdated.previousKeyId = .ok Sample.established ∧
    Nested Sample.signers AuthorityPublication.Sample.root (published ∅ Sample.retirement)
      Sample.established [Sample.retirement] none := by
  have hresolve := resolve_ok.mpr ⟨_, Sample.established_history.resolves⟩
  exact ⟨hresolve, ((windows_nest_iff _ _ _ _ _ hresolve).2 _ _ Sample.established_history).2.mpr
    (List.IsChain.singleton _)⟩

end AgentArchivist.Auth.AuthorityWindows
