import Mathlib.Data.Finmap
import AgentArchivist.Auth.Authority
import AgentArchivist.Lib.Succession
import AgentArchivist.Protocol.JsonCanonical

/-! # What the authority walk resolves

A chain is a sequence of links from the pinned root through distinct keys, each the
document that is stored at the key it retires. The walk holds what the links of one
chain left (`walkOf`), and every turn extends the chain by its next link; so the
signers that are resolved are the ends of chains, and the active authority is the end
of the longest. -/
namespace AgentArchivist.Auth.AuthorityChain
open Lib Protocol List
open Authority Authority.AuthorityRotationLink Fallible Loop SortedMap Succession Utf16 Json
open JsonCanonical Vocabulary

/-! ## The document of a link -/

section
variable {object : List (String × Value)} {name : String} {link : AuthorityRotationLink}

theorem textMember_eq_some {text} :
    textMember object name = some text ↔ Object.get name object = some (.text text) := by
  unfold textMember
  split
  · rename_i s h
    simp [h]
  · rename_i h
    simp only [reduceCtorEq, false_iff]
    exact h text

theorem parsed_ok {T : Type} [WireText T] {t : T} :
    parsed object name = .ok t ↔ Object.get name object = some (.text (WireText.text t)) := by
  unfold parsed
  rw [← textMember_eq_some]
  cases textMember object name with
  | none => simp
  | some text => simp [mapError_eq_ok, fromStr_ok]

/-- The names of a link's members. -/
def SIGNED_NAMES : List String :=
  ["schema", "record_type", "record_kind", "tenant_id", "previous_public_key", "previous_key_id",
   "key_algorithm", "public_key", "key_id", "signed_at", "authority_key_id", "authority_signature"]

theorem signed_names (link : AuthorityRotationLink) : link.signed.map Prod.fst = SIGNED_NAMES := rfl

theorem signed_names_nodup (link : AuthorityRotationLink) : (link.signed.map Prod.fst).Nodup := by
  rw [signed_names]
  decide

theorem members_perm : MEMBERS.Perm SIGNED_NAMES := by decide

theorem signed_text (link : AuthorityRotationLink) :
    ∀ m ∈ link.signed, ∃ text, m.2 = .text text := by
  simp [signed, unsigned]

theorem fromObject_ok : fromObject object = .ok link ↔ object.length = MEMBERS.length ∧
    ∀ m ∈ link.signed, Object.get m.1 object = some m.2 := by
  simp only [fromObject, refuse_eq_ok, bind_eq_ok, require_dep_eq_ok, parsed_ok, not_not,
    textMember_eq_some]
  constructor
  · rintro ⟨hlen, -, hschema, htype, hkind, _, htenant, _, hprevious, _, hpublic, _, halgorithm, _,
      hat, _, _, hpreviousId, _, _, hkey, _, _, hby, _, _, hsignature, h⟩
    cases h
    refine ⟨hlen, ?_⟩
    simp only [signed, unsigned, cons_append, nil_append, forall_mem_cons]
    exact ⟨hschema, htype, hkind, htenant, hprevious, hpreviousId, halgorithm, hpublic, hkey, hat, hby,
      hsignature, nofun⟩
  · intro ⟨hlen, h⟩
    have hnames : ¬ (MEMBERS.any fun name => (textMember object name).isNone) = true := by
      rw [any_eq_true]
      rintro ⟨name, hname, hnone⟩
      rw [members_perm.mem_iff, ← signed_names link] at hname
      obtain ⟨m, hm, rfl⟩ := mem_map.mp hname
      obtain ⟨text, htext⟩ := signed_text link m hm
      rw [textMember_eq_some.mpr (htext ▸ h m hm)] at hnone
      cases hnone
    simp only [signed, unsigned, cons_append, nil_append, forall_mem_cons] at h
    obtain ⟨hschema, htype, hkind, htenant, hprevious, hpreviousId, halgorithm, hpublic, hkey, hat,
      hby, hsignature, -⟩ := h
    exact ⟨hlen, hnames, hschema, htype, hkind, _, htenant, _, hprevious, _, hpublic, _, halgorithm, _,
      hat, link.calendar, _, hpreviousId, link.previous_derived, _, hkey, link.derived, _, hby,
      ⟨link.witnessed, link.advances⟩, _, hsignature, rfl⟩

/-- The parser accepts the documents of links and nothing else. -/
theorem parse_link {bytes} :
    AuthorityRotationLink.parse bytes = .ok link ↔ Json.parse bytes = .ok (objectOf link.signed) := by
  have hnames := signed_names_nodup link
  constructor
  · intro h
    unfold AuthorityRotationLink.parse at h
    split at h
    · rename_i object hparse
      obtain ⟨hlen, hget⟩ := fromObject_ok.mp h
      obtain ⟨hwf, -⟩ := parse_wellFormed hparse
      cases hwf with
      | object hs _ =>
        rw [hparse]
        have hsub : link.signed ⊆ object := fun m hm => (lookup_eq_some hs).mp (hget m hm)
        have hperm := (subperm_of_subset (hnames.of_map _) hsub).perm_of_length_le hlen.le
        exact congrArg (fun members => Except.ok (Value.object members))
          (foldl_upsert_eq hs hperm).symm
    · cases h
  · intro h
    unfold AuthorityRotationLink.parse
    rw [h]
    exact fromObject_ok.mpr ⟨(foldl_upsert_nil cmpUtf16 hnames).2.length_eq,
      fun m hm => (lookup_foldl_upsert hnames).mpr hm⟩

end

/-! ## Chains -/

section
variable (verify : Verifier) (root : PinnedAuthorityRoot) (fetch : KeyId → Option (List UInt8))

/-- The link is the document stored at the key that it retires, of the root's tenant and
signed by that key. -/
structure Admitted (key : KeyId) (link : AuthorityRotationLink) : Prop where
  stored : ∃ bytes, fetch key = some bytes ∧ Json.parse bytes = .ok (objectOf link.signed)
  tenant : link.tenantId = root.tenantId
  retires : link.previousKeyId = key
  signature : link.verifyPredecessorSignature verify = true

/-- The keys that the links lead through, from the root. -/
def ids (path : List AuthorityRotationLink) : List KeyId :=
  keys root.keyId AuthorityRotationLink.keyId path

/-- The key that the links lead to. -/
def tip (path : List AuthorityRotationLink) : KeyId :=
  last root.keyId AuthorityRotationLink.keyId path

def Chain (path : List AuthorityRotationLink) : Prop :=
  Sequence root.keyId AuthorityRotationLink.keyId (Admitted verify root fetch) path

/-- The signer is the tip of a chain, and this is what the chain says of it. -/
structure Resolves (signer : KeyId) (a : ResolvedAuthority) (path : List AuthorityRotationLink) :
    Prop where
  chain : Chain verify root fetch path
  reaches : tip root path = signer
  key : a.keyId = signer
  half : a.publicKey = (path.getLast?.map (·.publicKey)).getD root.publicKey
  established : a.establishedAt = path.getLast?.map (·.signedAt)
  retired : (fetch signer = none ∧ a.retiredAt = none) ∨
    ∃ link, Admitted verify root fetch signer link ∧ link.keyId ∉ ids root path ∧
      a.retiredAt = some link.signedAt

/-- What the walk holds after the links of a chain. -/
def walkOf (path : List AuthorityRotationLink) : Walk where
  currentId := tip root path
  currentPublic := (path.getLast?.map (·.publicKey)).getD root.publicKey
  establishedAt := path.getLast?.map (·.signedAt)
  visited := ids root path

end

section
variable {verify : Verifier} {root : PinnedAuthorityRoot} {fetch : KeyId → Option (List UInt8)}
  {path : List AuthorityRotationLink} {link : AuthorityRotationLink} {signer : KeyId}

theorem adopt_walkOf : (walkOf root path).adopt link = walkOf root (path ++ [link]) := by
  simp [walkOf, Walk.adopt, tip, ids, keys_snoc]

theorem verifiedLinkAt_ok {key bytes} (hfetch : fetch key = some bytes) :
    verifiedLinkAt verify root key bytes = .ok link ↔ Admitted verify root fetch key link := by
  simp only [verifiedLinkAt, bind_eq_ok, refuse_eq_ok, not_not, Bool.not_eq_true', Bool.not_eq_false]
  constructor
  · rintro ⟨_, hparse, htenant, hretires, hsignature, h⟩
    cases h
    exact ⟨⟨bytes, hfetch, parse_link.mp hparse⟩, htenant, hretires, hsignature⟩
  · intro ⟨⟨bytes', hfetch', hparse⟩, htenant, hretires, hsignature⟩
    rw [hfetch] at hfetch'
    cases hfetch'
    exact ⟨link, parse_link.mpr hparse, htenant, hretires, hsignature, rfl⟩

/-- What is admitted at the tip of a chain extends it. -/
theorem advance_ok {bytes} (hfetch : fetch (tip root path) = some bytes) :
    (walkOf root path).advance verify root bytes = .ok link ↔
      Admitted verify root fetch (tip root path) link ∧ link.keyId ∉ ids root path := by
  simp only [Walk.advance, bind_eq_ok, refuse_eq_ok]
  constructor
  · rintro ⟨_, hlink, hfresh, h⟩
    cases h
    exact ⟨(verifiedLinkAt_ok hfetch).mp hlink, hfresh⟩
  · intro ⟨hlink, hfresh⟩
    exact ⟨link, (verifiedLinkAt_ok hfetch).mpr hlink, hfresh, rfl⟩

theorem Admitted.unique {key link'} (h : Admitted verify root fetch key link)
    (h' : Admitted verify root fetch key link') : link = link' := by
  obtain ⟨bytes, hfetch, hparse⟩ := h.stored
  obtain ⟨bytes', hfetch', hparse'⟩ := h'.stored
  rw [hfetch] at hfetch'
  cases hfetch'
  have hlink := parse_link.mpr hparse
  rw [parse_link.mpr hparse'] at hlink
  cases hlink
  rfl

/-! ## Turns -/

theorem retirement_ok {retiredAt} :
    retirement verify root fetch (walkOf root path) = .ok retiredAt ↔
      (fetch (tip root path) = none ∧ retiredAt = none) ∨
        ∃ link, Admitted verify root fetch (tip root path) link ∧ link.keyId ∉ ids root path ∧
          retiredAt = some link.signedAt := by
  unfold retirement
  cases hfetch : fetch (walkOf root path).currentId with
  | none =>
    have hnone : fetch (tip root path) = none := hfetch
    have hno : ∀ link, ¬ Admitted verify root fetch (tip root path) link := by
      intro link hlink
      obtain ⟨bytes, hsome, -⟩ := hlink.stored
      rw [hnone] at hsome
      cases hsome
    simp [hnone, hno, eq_comm]
  | some bytes =>
    have hsome : fetch (tip root path) = some bytes := hfetch
    simp only [bind_eq_ok, advance_ok hsome, hsome, reduceCtorEq, false_and, false_or, Except.ok.injEq]
    constructor
    · intro ⟨link, ⟨hlink, hfresh⟩, heq⟩
      exact ⟨link, hlink, hfresh, heq.symm⟩
    · intro ⟨link, hlink, hfresh, heq⟩
      exact ⟨link, ⟨hlink, hfresh⟩, heq.symm⟩

section
variable (h : Chain verify root fetch path)
include h

/-- What is admitted extends the chain. -/
theorem chain_adopt {w bytes} (hfetch : fetch (tip root path) = some bytes)
    (hadvance : (walkOf root path).advance verify root bytes = .ok link)
    (hw : (walkOf root path).adopt link = w) :
    ∃ link, w = walkOf root (path ++ [link]) ∧ Chain verify root fetch (path ++ [link]) := by
  rw [adopt_walkOf] at hw
  exact ⟨link, hw.symm, sequence_snoc.mpr ⟨h, (advance_ok hfetch).mp hadvance⟩⟩

theorem chain_of_resolveTurn {w}
    (hturn : resolveTurn verify root fetch signer (walkOf root path) = .again w) :
    ∃ link, w = walkOf root (path ++ [link]) ∧ Chain verify root fetch (path ++ [link]) := by
  unfold resolveTurn at hturn
  split at hturn
  · cases hturn
  split at hturn
  · cases hturn
  rename_i bytes hfetch
  split at hturn
  · cases hturn
  rename_i link hadvance
  exact chain_adopt h hfetch hadvance (Turn.again.inj hturn)

theorem chain_of_activeTurn {w}
    (hturn : activeTurn verify root fetch (walkOf root path) = .again w) :
    ∃ link, w = walkOf root (path ++ [link]) ∧ Chain verify root fetch (path ++ [link]) := by
  unfold activeTurn at hturn
  split at hturn
  · cases hturn
  rename_i bytes hfetch
  split at hturn
  · cases hturn
  rename_i link hadvance
  exact chain_adopt h hfetch hadvance (Turn.again.inj hturn)

end

section
variable (h : Chain verify root fetch (path ++ [link]))
include h

/-- The next link of a chain is stored at its tip and admitted there. -/
theorem Chain.next :
    ∃ bytes, fetch (walkOf root path).currentId = some bytes ∧
      (walkOf root path).advance verify root bytes = .ok link := by
  obtain ⟨-, hlink, hfresh⟩ := sequence_snoc.mp h
  obtain ⟨bytes, hfetch, -⟩ := hlink.stored
  exact ⟨bytes, hfetch, (advance_ok hfetch).mpr ⟨hlink, hfresh⟩⟩

theorem resolveTurn_next
    (hne : tip root path ≠ signer) : resolveTurn verify root fetch signer (walkOf root path) =
      .again (walkOf root (path ++ [link])) := by
  obtain ⟨bytes, hfetch, hadvance⟩ := h.next
  have hsigner : (walkOf root path).currentId ≠ signer := hne
  unfold resolveTurn
  rw [if_neg hsigner, hfetch]
  simp [hadvance, adopt_walkOf]

theorem activeTurn_next :
    activeTurn verify root fetch (walkOf root path) = .again (walkOf root (path ++ [link])) := by
  obtain ⟨bytes, hfetch, hadvance⟩ := h.next
  unfold activeTurn
  rw [hfetch]
  simp [hadvance, adopt_walkOf]

end

theorem resolveTurn_ok {a} (h : Chain verify root fetch path) :
    resolveTurn verify root fetch signer (walkOf root path) = .leave (.ok a) ↔
      Resolves verify root fetch signer a path := by
  constructor
  · intro hturn
    unfold resolveTurn at hturn
    split at hturn
    · rename_i hsigner
      have hok := Turn.leave.inj hturn
      rw [map_eq_ok] at hok
      obtain ⟨retiredAt, hretired, rfl⟩ := hok
      obtain rfl : tip root path = signer := hsigner
      exact ⟨h, rfl, rfl, rfl, rfl, retirement_ok.mp hretired⟩
    · split at hturn
      · cases hturn
      · split at hturn <;> cases hturn
  · intro hr
    obtain rfl := hr.reaches
    unfold resolveTurn
    have hcurrent : (walkOf root path).currentId = tip root path := rfl
    rw [if_pos hcurrent, retirement_ok.mpr hr.retired]
    refine congrArg (fun a => Turn.leave (Except.ok a)) ?_
    cases a
    simp only [Walk.resolved, walkOf, ResolvedAuthority.mk.injEq, and_true]
    exact ⟨hr.key.symm, hr.half.symm, hr.established.symm⟩

/-- Where the loop to the active authority is left, the loop to that key is too. -/
theorem resolveTurn_of_activeTurn {result}
    (hturn : activeTurn verify root fetch (walkOf root path) = .leave result) :
    resolveTurn verify root fetch (tip root path) (walkOf root path) = .leave result := by
  have hcurrent : (walkOf root path).currentId = tip root path := rfl
  unfold resolveTurn retirement
  rw [if_pos hcurrent]
  unfold activeTurn at hturn
  split at hturn
  · cases hturn
    rfl
  split at hturn
  · rename_i e hadvance
    cases hturn
    simp only [hadvance]
    rfl
  · cases hturn

/-! ## Whole walks -/

/-- A loop that goes on at every link of a chain reaches its tip. -/
theorem reaches_of_again {turn : Walk → Turn Walk (Except AuthorityChainError ResolvedAuthority)}
    (hturn : ∀ before link rest, path = before ++ link :: rest →
      turn (walkOf root before) = .again (walkOf root (before ++ [link]))) :
    Reaches turn (Walk.start root) path.length (walkOf root path) := by
  suffices hall : ∀ before rest, path = before ++ rest →
      Reaches turn (Walk.start root) before.length (walkOf root before) from
    hall path [] (append_nil _).symm
  intro before
  induction before using List.reverseRecOn with
  | nil =>
    intro _ _
    exact .refl _
  | append_singleton before link ih =>
    intro rest hpath
    rw [append_assoc, singleton_append] at hpath
    rw [length_append, length_singleton]
    exact (ih (link :: rest) hpath).snoc (hturn before link rest hpath)

theorem Chain.beginning (h : Chain verify root fetch path) {before rest}
    (hpath : path = before ++ link :: rest) : Chain verify root fetch (before ++ [link]) := by
  have hall : Chain verify root fetch ((before ++ [link]) ++ rest) := by
    rw [append_assoc, singleton_append, ← hpath]
    exact h
  exact Sequence.of_append hall

theorem reaches_tip (h : Chain verify root fetch path) :
    Reaches (resolveTurn verify root fetch (tip root path)) (Walk.start root) path.length
      (walkOf root path) := by
  refine reaches_of_again fun before link rest hpath => ?_
  have hne : tip root before ≠ tip root path := by
    subst hpath
    exact Sequence.last_ne h
  exact resolveTurn_next (h.beginning hpath) hne

theorem reaches_active (h : Chain verify root fetch path) :
    Reaches (activeTurn verify root fetch) (Walk.start root) path.length (walkOf root path) :=
  reaches_of_again fun _ _ _ hpath => activeTurn_next (h.beginning hpath)

end

section
variable (verify : Verifier) (root : PinnedAuthorityRoot)
  (store : Finmap fun _ : KeyId => List UInt8)

theorem chain_length {path} (h : Chain verify root store.lookup path) :
    path.length ≤ store.keys.card := by
  refine Sequence.length_le (fun key link hlink => ?_) h
  obtain ⟨bytes, hfetch, -⟩ := hlink.stored
  exact Finmap.mem_keys.mpr (Finmap.mem_of_lookup_eq_some hfetch)

/-- A loop that only extends a chain is left, after no more turns than there are records. -/
theorem walk_leaves {turn : Walk → Turn Walk (Except AuthorityChainError ResolvedAuthority)}
    (hturn : ∀ path w, Chain verify root store.lookup path → turn (walkOf root path) = .again w →
      ∃ link, w = walkOf root (path ++ [link]) ∧ Chain verify root store.lookup (path ++ [link])) :
    ∃ n path result, n ≤ store.keys.card ∧ Reaches turn (Walk.start root) n (walkOf root path) ∧
      Chain verify root store.lookup path ∧ turn (walkOf root path) = .leave result := by
  have hstep : ∀ m w w', (∃ path, w = walkOf root path ∧ Chain verify root store.lookup path ∧
      m + path.length = store.keys.card) → turn w = .again w' →
      ∃ m' < m, ∃ path, w' = walkOf root path ∧ Chain verify root store.lookup path ∧
        m' + path.length = store.keys.card := by
    rintro m w w' ⟨path, rfl, hchain, hm⟩ hagain
    obtain ⟨link, rfl, hlink⟩ := hturn path w' hchain hagain
    have hlen := chain_length verify root store hlink
    have hlonger : (path ++ [link]).length = path.length + 1 := length_append
    exact ⟨m - 1, by omega, _, rfl, hlink, by omega⟩
  obtain ⟨n, m, w, result, hreach, ⟨path, rfl, hchain, -⟩, hleave, hn⟩ :=
    exists_leave hstep ⟨[], rfl, sequence_nil, Nat.add_zero _⟩
  exact ⟨n, path, result, by omega, hreach, hchain, hleave⟩

/-- The walk to a signer ends, and resolves it exactly where a chain leads to it. -/
theorem resolveAuthority_ends (signer : KeyId) : ∃ n result, n ≤ store.keys.card + 1 ∧
    (∀ fetches, store.keys.card < fetches →
      resolveAuthority verify root store.lookup signer fetches = some (n, result)) ∧
    ∀ a, result = .ok a ↔ ∃ path, Resolves verify root store.lookup signer a path := by
  obtain ⟨n, path, result, hn, hreach, hchain, hleave⟩ :=
    walk_leaves verify root store fun path w hchain hagain => chain_of_resolveTurn hchain hagain
  have hturns : ∀ fetches, store.keys.card < fetches →
      resolveAuthority verify root store.lookup signer fetches = some (n + 1, result) :=
    fun fetches hf => hreach.turns hleave (by omega)
  refine ⟨n + 1, result, by omega, hturns, fun a => ?_⟩
  constructor
  · intro h
    subst h
    exact ⟨path, (resolveTurn_ok hchain).mp hleave⟩
  · intro ⟨path', hr⟩
    obtain rfl := hr.reaches
    have hlen := chain_length verify root store hr.chain
    have hresult : resolveAuthority verify root store.lookup (tip root path')
        (store.keys.card + 1) = some (path'.length + 1, .ok a) :=
      (reaches_tip hr.chain).turns ((resolveTurn_ok hr.chain).mpr hr) (by omega)
    rw [hturns _ (Nat.lt_succ_self _)] at hresult
    exact congrArg Prod.snd (Option.some.inj hresult)

/-- The loop to the active authority is left at the tip of the longest chain. -/
theorem activeTurn_leaves : ∃ path result, Chain verify root store.lookup path ∧
    activeTurn verify root store.lookup (walkOf root path) = .leave result ∧
    ∀ path', Chain verify root store.lookup path' → path' <+: path := by
  obtain ⟨-, path, result, -, -, hchain, hleave⟩ :=
    walk_leaves verify root store fun path w hchain hagain => chain_of_activeTurn hchain hagain
  have hone : ∀ key link link', Admitted verify root store.lookup key link →
      Admitted verify root store.lookup key link' → link = link' := fun _ _ _ h h' => h.unique h'
  refine ⟨path, result, hchain, hleave, fun path' h' => ?_⟩
  rcases Sequence.comparable hone h' hchain with hle | ⟨rest, rfl⟩
  · exact hle
  cases rest with
  | nil => rw [append_nil]
  | cons link rest =>
    -- a longer chain would have kept the loop going
    rw [activeTurn_next (h'.beginning rfl)] at hleave
    cases hleave

theorem activeTurn_ok {path a} :
    activeTurn verify root store.lookup (walkOf root path) = .leave (.ok a) ↔
      store.lookup (tip root path) = none ∧ a = (walkOf root path).resolved none := by
  unfold activeTurn
  split
  · rename_i hnone
    have hnone' : store.lookup (tip root path) = none := hnone
    simp [hnone', eq_comm]
  · rename_i bytes hsome
    have hsome' : store.lookup (tip root path) = some bytes := hsome
    simp only [hsome', reduceCtorEq, false_and, iff_false]
    split <;> nofun

/-- A signer is resolved exactly where a chain leads to it, to what the chain says of it, and the
active authority is the tip of the longest chain: whatever the store holds, either walk ends
after one fetch more than there are records at most. -/
theorem authority_chain_walk :
    (∀ signer, ∃ n result, n ≤ store.keys.card + 1 ∧
      (∀ fetches, store.keys.card < fetches →
        resolveAuthority verify root store.lookup signer fetches = some (n, result)) ∧
      ∀ a, result = .ok a ↔ ∃ path, Resolves verify root store.lookup signer a path) ∧
    ∃ n result path, n ≤ store.keys.card + 1 ∧
      (∀ fetches, store.keys.card < fetches →
        resolveActiveAuthority verify root store.lookup fetches = some (n, result)) ∧
      Chain verify root store.lookup path ∧
      (∀ path', Chain verify root store.lookup path' → path' <+: path) ∧
      (∀ a, result = .ok a → a.keyId = tip root path ∧ a.retiredAt = none) ∧
      ∀ fetches, store.keys.card < fetches →
        resolveAuthority verify root store.lookup (tip root path) fetches = some (n, result) := by
  refine ⟨resolveAuthority_ends verify root store, ?_⟩
  obtain ⟨path, result, hchain, hleave, hlongest⟩ := activeTurn_leaves verify root store
  have hlen := chain_length verify root store hchain
  refine ⟨path.length + 1, result, path, by omega, fun fetches hf => ?_, hchain, hlongest,
    fun a ha => ?_, fun fetches hf => ?_⟩
  · exact (reaches_active hchain).turns hleave (by omega)
  · subst ha
    obtain ⟨-, rfl⟩ := (activeTurn_ok verify root store).mp hleave
    exact ⟨rfl, rfl⟩
  · exact (reaches_tip hchain).turns (resolveTurn_of_activeTurn hleave) (by omega)

/-! ## Over a finite store -/

/-- The walk to a signer, on one fetch more than there are records. -/
def resolve (signer : KeyId) : Except AuthorityChainError ResolvedAuthority :=
  match resolveAuthority verify root store.lookup signer (store.keys.card + 1) with
  | some (_, result) => result
  -- not reached: the walk is left within so many fetches
  | none => .error .unreachable

/-- The walk to the end of the chain, on as many. -/
def resolveActive : Except AuthorityChainError ResolvedAuthority :=
  match resolveActiveAuthority verify root store.lookup (store.keys.card + 1) with
  | some (_, result) => result
  | none => .error .unreachable

variable {verify root store} {signer : KeyId} {a : ResolvedAuthority}

theorem resolve_ok : resolve verify root store signer = .ok a ↔
    ∃ path, Resolves verify root store.lookup signer a path := by
  obtain ⟨n, result, -, hwalk, hok⟩ := resolveAuthority_ends verify root store signer
  rw [resolve, hwalk _ (Nat.lt_succ_self _)]
  exact hok a

theorem resolveActive_ok : resolveActive verify root store = .ok a ↔
    ∃ path, Chain verify root store.lookup path ∧ store.lookup (tip root path) = none ∧
      a = (walkOf root path).resolved none := by
  have hwalk : ∀ path result, Chain verify root store.lookup path →
      activeTurn verify root store.lookup (walkOf root path) = .leave result →
      resolveActive verify root store = result := by
    intro path result hchain hleave
    have hlen := chain_length verify root store hchain
    have hturns : resolveActiveAuthority verify root store.lookup (store.keys.card + 1) =
        some (path.length + 1, result) := (reaches_active hchain).turns hleave (by omega)
    rw [resolveActive, hturns]
  constructor
  · intro h
    obtain ⟨path, result, hchain, hleave, -⟩ := activeTurn_leaves verify root store
    rw [hwalk path result hchain hleave] at h
    subst h
    exact ⟨path, hchain, (activeTurn_ok verify root store).mp hleave⟩
  · intro ⟨path, hchain, hend⟩
    exact hwalk path _ hchain ((activeTurn_ok verify root store).mpr hend)

end

end AgentArchivist.Auth.AuthorityChain
