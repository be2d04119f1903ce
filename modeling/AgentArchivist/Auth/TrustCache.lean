import AgentArchivist.Auth.AuthorityWindows
import AgentArchivist.Lib.Interleave

/-! # The bounded trust cache

Any number of calls resolve signers through one cache. The lock of the map makes a lookup and
an insertion single steps; a walk of the registry is not under the lock, takes effect at one of
the instants that pass, and fails or returns what the registry holds then. The clock reads
anything. The map is the replay of what was done to it (`Inv.replayed`), so that a hit is
traced to the insertion it comes from and to the call that walked for it. -/
namespace AgentArchivist.Auth.TrustCache
open Auth.Authority Lib.Interleave Lib.Proc Protocol.Vocabulary List

def TRUST_CACHE_TTL_SECONDS : Nat := 60

abbrev Key := TenantId × KeyId

structure CacheEntry where
  resolved : ResolvedAuthority
  cachedAt : Nat
deriving DecidableEq

/-- The map under the lock. -/
abbrev Entries := Key → Option CacheEntry

/-- What is inside its lease is served, and whatever is not is evicted. The subtraction is
saturating. -/
def freshResolution (entries : Entries) (key : Key) (now : Nat) :
    Option ResolvedAuthority × Entries :=
  let fresh := ((entries key).filter fun entry =>
    decide (now - entry.cachedAt < TRUST_CACHE_TTL_SECONDS)).map CacheEntry.resolved
  (fresh, if fresh.isNone then Function.update entries key none else entries)

def insert (entries : Entries) (key : Key) (resolved : ResolvedAuthority) (cachedAt : Nat) : Entries :=
  Function.update entries key (some ⟨resolved, cachedAt⟩)

/-! ## A call -/

inductive Call where
  | nowSeconds
  | freshResolution (key : Key) (now : Nat)
  | walk (key : Key)
  | insert (key : Key) (resolved : ResolvedAuthority) (cachedAt : Nat)

def calls : Interface where
  Call := Call
  Reply
    | .nowSeconds => Nat
    | .freshResolution _ _ => Option ResolvedAuthority
    | .walk _ => Except AuthorityChainError ResolvedAuthority
    | .insert _ _ _ => Unit

abbrev Answer := Except AuthorityChainError ResolvedAuthority

/-- What a call of `resolve` is given. -/
structure Request where
  tenant : TenantId
  signer : KeyId
  signedAt : Timestamp

namespace Request

def key (request : Request) : Key := (request.tenant, request.signer)

/-- The acceptance rule at the record's own instant. -/
def accept (request : Request) (resolved : ResolvedAuthority) : Answer :=
  (resolved.verifySigningAt request.signedAt).map fun _ => resolved

/-- What is left of a call after a miss at this reading. -/
def missed (request : Request) (now : Nat) : Proc calls Answer :=
  .call (.walk request.key) fun
    | .error e => .pure (.error e)
    | .ok resolved =>
      .call (.insert request.key resolved now) fun _ => .pure (request.accept resolved)

def resolve (request : Request) : Proc calls Answer :=
  .call .nowSeconds fun now =>
    .call (.freshResolution request.key now) fun
      | some resolved => .pure (request.accept resolved)
      | none => request.missed now

end Request

/-! ## What is shared -/

/-- An instant: what the clock reads, and the trust that the registry holds. -/
structure Moment where
  reading : Nat
  registry : Key → Option ResolvedAuthority

structure Shared where
  entries : Entries
  timeline : List Moment
  log : Trace calls

/-- What a call may answer at the last of these instants, and what it does to the map. -/
inductive Answers (timeline : List Moment) (entries : Entries) : Event calls → Entries → Prop
  | nowSeconds (moment : Moment) : timeline.getLast? = some moment →
      Answers timeline entries ⟨.nowSeconds, moment.reading⟩ entries
  | freshResolution (key : Key) (now : Nat) :
      Answers timeline entries
        ⟨.freshResolution key now, (TrustCache.freshResolution entries key now).1⟩
        (TrustCache.freshResolution entries key now).2
  | unreached (key : Key) (e : AuthorityChainError) :
      Answers timeline entries ⟨.walk key, .error e⟩ entries
  | walked {key : Key} {moment : Moment} {resolved : ResolvedAuthority} :
      timeline.getLast? = some moment → moment.registry key = some resolved →
      Answers timeline entries ⟨.walk key, .ok resolved⟩ entries
  | insert (key : Key) (resolved : ResolvedAuthority) (cachedAt : Nat) :
      Answers timeline entries ⟨.insert key resolved cachedAt, ()⟩
        (TrustCache.insert entries key resolved cachedAt)

section
variable {timeline : List Moment} {entries entries' : Entries}

theorem Answers.reading {n} (h : Answers timeline entries ⟨.nowSeconds, n⟩ entries') :
    ∃ moment, timeline.getLast? = some moment ∧ moment.reading = n := by
  cases h with
  | nowSeconds moment hlast => exact ⟨moment, hlast, rfl⟩

theorem Answers.registry {key a} (h : Answers timeline entries ⟨.walk key, .ok a⟩ entries') :
    ∃ moment, timeline.getLast? = some moment ∧ moment.registry key = some a := by
  cases h with
  | walked hlast hregistry => exact ⟨_, hlast, hregistry⟩

end

/-- Some instants pass, then the call is answered. -/
structure Serves (s : Shared) (e : Event calls) (s' : Shared) : Prop where
  passes : s.timeline <+: s'.timeline
  logged : s'.log = s.log ++ [e]
  answers : Answers s'.timeline s.entries e s'.entries

abbrev CacheWorld (ι : Type) := World calls ι Shared Answer

/-- Calls side by side on an empty cache. -/
def system {ι : Type} (requests : ι → Request) : System calls ι Shared Answer where
  program i := (requests i).resolve
  start := ⟨fun _ => none, [], []⟩
  serves := Serves

/-! ## The map is the replay of the log -/

/-- What an event does to the map. -/
def apply (entries : Entries) : Event calls → Entries
  | ⟨.freshResolution key _, none⟩ => Function.update entries key none
  | ⟨.insert key resolved cachedAt, _⟩ => insert entries key resolved cachedAt
  | _ => entries

def replay (log : Trace calls) : Entries := log.foldl apply fun _ => none

/-- The event puts an entry at the key, or refuses what is there. -/
def Replaces (key : Key) : Event calls → Prop
  | ⟨.freshResolution k _, none⟩ => k = key
  | ⟨.insert k _ _, _⟩ => k = key
  | _ => False

theorem replay_snoc (log : Trace calls) (e : Event calls) : replay (log ++ [e]) = apply (replay log) e :=
  foldl_append ..

theorem apply_of_not_replaces {entries key e} (h : ¬ Replaces key e) :
    apply entries e key = entries key := by
  obtain ⟨c, r⟩ := e
  cases c with
  | nowSeconds | walk _ => rfl
  | freshResolution k now =>
    cases r with
    | none => exact Function.update_of_ne (Ne.symm h) _ _
    | some _ => rfl
  | insert k a c => exact Function.update_of_ne (Ne.symm h) _ _

/-- What the map holds at a key was put there and neither replaced nor refused since. -/
theorem replay_eq_some {log key} {entry} (h : replay log key = some entry) :
    ∃ earlier between, log = earlier ++ ⟨.insert key entry.resolved entry.cachedAt, ()⟩ :: between ∧
      ∀ e ∈ between, ¬ Replaces key e := by
  induction log using List.reverseRecOn with
  | nil => cases h
  | append_singleton log e ih =>
    rw [replay_snoc] at h
    by_cases he : Replaces key e
    · obtain ⟨c, r⟩ := e
      cases c with
      | nowSeconds | walk _ => cases he
      | freshResolution k now =>
        cases r with
        | none =>
          cases he
          rw [apply, Function.update_self] at h
          cases h
        | some _ => cases he
      | insert k a c =>
        cases he
        rw [apply, insert, Function.update_self] at h
        cases h
        exact ⟨log, [], rfl, nofun⟩
    · rw [apply_of_not_replaces he] at h
      obtain ⟨earlier, between, rfl, hbetween⟩ := ih h
      refine ⟨earlier, between ++ [e], by simp, ?_⟩
      exact forall_mem_append.mpr ⟨hbetween, by simpa using he⟩

/-- Every lookup answered what the replay before it holds. -/
def Consistent (log : Trace calls) : Prop :=
  ∀ before key now reply after, log = before ++ ⟨.freshResolution key now, reply⟩ :: after →
    reply = (freshResolution (replay before) key now).1

/-! ## What one call has done -/

/-- A call that missed at its reading and walked. -/
def reached (key : Key) (reading : Nat) (resolved : ResolvedAuthority) : Trace calls :=
  [⟨.nowSeconds, reading⟩, ⟨.freshResolution key reading, none⟩, ⟨.walk key, .ok resolved⟩]

/-- It remembered the result. -/
def remembered (key : Key) (reading : Nat) (resolved : ResolvedAuthority) : Trace calls :=
  reached key reading resolved ++ [⟨.insert key resolved reading, ()⟩]

/-- The calls that a `resolve` has made, and what is left of it. -/
inductive Stage (q : Request) : Trace calls → Proc calls Answer → Prop
  | begun : Stage q [] q.resolve
  | read (n : Nat) : Stage q [⟨.nowSeconds, n⟩] (.call (.freshResolution q.key n) fun
      | some resolved => .pure (q.accept resolved)
      | none => q.missed n)
  | served (n : Nat) (a : ResolvedAuthority) :
      Stage q [⟨.nowSeconds, n⟩, ⟨.freshResolution q.key n, some a⟩] (.pure (q.accept a))
  | missed (n : Nat) :
      Stage q [⟨.nowSeconds, n⟩, ⟨.freshResolution q.key n, none⟩] (q.missed n)
  | failed (n : Nat) (e : AuthorityChainError) :
      Stage q [⟨.nowSeconds, n⟩, ⟨.freshResolution q.key n, none⟩, ⟨.walk q.key, .error e⟩]
        (.pure (.error e))
  | walked (n : Nat) (a : ResolvedAuthority) :
      Stage q (reached q.key n a) (.call (.insert q.key a n) fun _ => .pure (q.accept a))
  | done (n : Nat) (a : ResolvedAuthority) : Stage q (remembered q.key n a) (.pure (q.accept a))

theorem Stage.step {q t c} {next : calls.Reply c → Proc calls Answer} (h : Stage q t (.call c next))
    (r : calls.Reply c) : Stage q (t ++ [⟨c, r⟩]) (next r) := by
  cases h with
  | begun => exact .read r
  | read n =>
    cases r with
    | none => exact .missed n
    | some a => exact .served n a
  | missed n =>
    cases r with
    | error e => exact .failed n e
    | ok a => exact .walked n a
  | walked n a => exact .done n a

/-! ## What holds of every interleaving -/

/-- The readings of the clock never decrease. -/
def Monotone (timeline : List Moment) : Prop := timeline.Pairwise fun m m' => m.reading ≤ m'.reading

section
variable {ι : Type} {requests : ι → Request}

structure Inv (requests : ι → Request) (W : CacheWorld ι) : Prop where
  stage : ∀ i, Stage (requests i) (W.made i) (W.left i)
  replayed : W.shared.entries = replay W.shared.log
  consistent : Consistent W.shared.log
  inserted : ∀ key a c, ⟨.insert key a c, ()⟩ ∈ W.shared.log →
    ∃ j, (requests j).key = key ∧ remembered key c a <+: W.made j
  logged : ∀ i, W.made i ⊆ W.shared.log
  read : ∀ i n, [⟨.nowSeconds, n⟩] <+: W.made i → ∃ m ∈ W.shared.timeline, m.reading = n
  walked : ∀ i n a key, reached key n a <+: W.made i → ∃ m ∈ W.shared.timeline,
    m.registry key = some a ∧ (Monotone W.shared.timeline → n ≤ m.reading)

variable {timeline : List Moment}

theorem le_last {m last} (h : Monotone timeline) (hlast : timeline.getLast? = some last)
    (hm : m ∈ timeline) : m.reading ≤ last.reading := by
  obtain ⟨before, rfl⟩ := getLast?_eq_some_iff.mp hlast
  rcases mem_append.mp hm with hm | hm
  · exact (pairwise_append.mp h).2.2 m hm last mem_cons_self
  · rw [mem_singleton.mp hm]

theorem inv_start : Inv requests
    (⟨(system requests).start, fun _ => [], (system requests).program⟩ : CacheWorld ι) where
  stage _ := .begun
  replayed := rfl
  consistent _ _ _ _ _ h := by simp [system] at h
  inserted _ _ _ h := by cases h
  logged _ := nil_subset _
  read _ _ h := by simp at h
  walked _ _ _ _ h := by simp [reached] at h

variable {W : CacheWorld ι}

/-- A trace that begins longer than before is the trace with its new event. -/
theorem prefix_after [DecidableEq ι] {i j e shared rest t}
    (h : t <+: (W.after i e shared rest).made j) :
    t <+: W.made j ∨ (j = i ∧ t = W.made i ++ [e]) := by
  by_cases hj : j = i
  · subst hj
    rw [World.after] at h
    simp only [Function.update_self] at h
    rcases prefix_concat_iff.mp h with h | h
    · exact .inr ⟨rfl, h⟩
    · exact .inl h
  · exact .inl (by simpa [World.after, hj] using h)

theorem made_after [DecidableEq ι] {i j e shared rest} :
    W.made j <+: (W.after i e shared rest).made j := by
  by_cases hj : j = i
  · subst hj
    simp [World.after]
  · simp [World.after, hj]

theorem apply_of_answers {entries entries' e} (h : Answers timeline entries e entries') :
    entries' = apply entries e := by
  cases h with
  | nowSeconds _ _ | unreached _ _ | walked _ _ | insert _ _ _ => rfl
  | freshResolution key now =>
    have hsnd : (freshResolution entries key now).2 =
        if (freshResolution entries key now).1.isNone then Function.update entries key none
        else entries := rfl
    rw [hsnd]
    cases (freshResolution entries key now).1 <;> rfl

theorem Consistent.snoc {log e entries'} (h : Consistent log)
    (hanswers : Answers timeline (replay log) e entries') : Consistent (log ++ [e]) := by
  intro before key now reply after heq
  rcases eq_nil_or_concat after with rfl | ⟨after, e', rfl⟩
  · obtain ⟨rfl, he⟩ := append_inj' heq rfl
    cases he
    cases hanswers
    rfl
  · have heq' : log ++ [e] = (before ++ ⟨.freshResolution key now, reply⟩ :: after) ++ [e'] := by
      simpa using heq
    exact h before key now reply after (append_inj' heq' rfl).1

variable {a : ResolvedAuthority}

/-- An insertion is the last call of a `resolve`. -/
theorem Stage.of_insert {q} {t p key c} (h : Stage q t p) (hmem : ⟨.insert key a c, ()⟩ ∈ t) :
    ∃ n b, t = remembered q.key n b := by
  cases h with
  | done n b => exact ⟨n, b, rfl⟩
  | begun | read _ | served _ _ | missed _ | failed _ _ | walked _ _ => exact nomatch hmem

theorem inv_step [DecidableEq ι] {W W'} (h : Inv requests W) (hstep : Step (system requests) W W') :
    Inv requests W' := by
  cases hstep with
  | @call i c next r shared hleft hserves =>
    have hstage := h.stage i
    rw [hleft] at hstage
    have hlog : shared.log = W.shared.log ++ [⟨c, r⟩] := hserves.logged
    have hanswers : Answers shared.timeline W.shared.entries ⟨c, r⟩ shared.entries := hserves.answers
    obtain ⟨passed, hpassed⟩ := hserves.passes
    refine ⟨fun j => ?_, ?_, ?_, fun key a at' hmem => ?_, fun j => ?_, fun j n hn => ?_,
      fun j n a key hwalked => ?_⟩
    · by_cases hj : j = i
      · subst hj
        simpa [World.after] using hstage.step r
      · simpa [World.after, hj] using h.stage j
    · show shared.entries = replay shared.log
      rw [hlog, replay_snoc, ← h.replayed]
      exact apply_of_answers hanswers
    · show Consistent shared.log
      rw [hlog]
      exact h.consistent.snoc (h.replayed ▸ hanswers)
    · have hmem' : ⟨.insert key a at', ()⟩ ∈ W.shared.log ++ [⟨c, r⟩] := hlog ▸ hmem
      rcases mem_append.mp hmem' with hold | hnew
      · obtain ⟨j, hkey, hj⟩ := h.inserted key a at' hold
        exact ⟨j, hkey, hj.trans made_after⟩
      cases mem_singleton.mp hnew
      -- who inserts walked before, at its own reading
      generalize hmade : W.made i = made at hstage
      cases hstage
      exact ⟨i, rfl, by simp [World.after, hmade, remembered]⟩
    · show (W.after i ⟨c, r⟩ shared (next r)).made j ⊆ shared.log
      rw [hlog]
      have hkept : W.made j ⊆ W.shared.log ++ [⟨c, r⟩] := fun e he =>
        mem_append_left _ (h.logged j he)
      by_cases hj : j = i
      · subst hj
        simpa [World.after] using hkept
      · simpa [World.after, hj] using hkept
    · show ∃ m ∈ shared.timeline, m.reading = n
      rcases prefix_after hn with hold | ⟨-, hnew⟩
      · obtain ⟨m, hm, hreading⟩ := h.read j n hold
        exact ⟨m, hpassed ▸ mem_append_left _ hm, hreading⟩
      -- the call has just read the clock
      have hsplit : [] ++ [⟨.nowSeconds, n⟩] = W.made i ++ [⟨c, r⟩] := hnew
      cases (append_inj' hsplit rfl).2
      obtain ⟨m, hlast, hreading⟩ := hanswers.reading
      exact ⟨m, mem_of_getLast? hlast, hreading⟩
    · show ∃ m ∈ shared.timeline, m.registry key = some a ∧ (Monotone shared.timeline → n ≤ m.reading)
      rcases prefix_after hwalked with hold | ⟨-, hnew⟩
      · obtain ⟨m, hm, hregistry, hreading⟩ := h.walked j n a key hold
        refine ⟨m, hpassed ▸ mem_append_left _ hm, hregistry, fun hmono => hreading ?_⟩
        exact (pairwise_append.mp (hpassed ▸ hmono)).1
      -- the call has just walked, after the instant of its reading
      have hsplit : ([⟨.nowSeconds, n⟩, ⟨.freshResolution key n, none⟩] : Trace calls) ++
          [⟨.walk key, .ok a⟩] = W.made i ++ [⟨c, r⟩] := hnew
      obtain ⟨htrace, he⟩ := append_inj' hsplit rfl
      cases he
      obtain ⟨last, hlast, hregistry⟩ := hanswers.registry
      obtain ⟨m, hm, hreading⟩ := h.read i n (htrace ▸ ⟨[_], rfl⟩)
      refine ⟨last, mem_of_getLast? hlast, hregistry, fun hmono => ?_⟩
      rw [← hreading]
      exact le_last hmono hlast (hpassed ▸ mem_append_left _ hm)

theorem inv_reachable [DecidableEq ι] (h : Reachable (system requests) W) : Inv requests W := by
  induction h with
  | start => exact inv_start
  | step _ hstep ih => exact inv_step ih hstep

/-! ## Leases -/

theorem freshResolution_eq_some {entries key now} :
    (freshResolution entries key now).1 = some a ↔
      ∃ entry, entries key = some entry ∧ now - entry.cachedAt < 60 ∧ entry.resolved = a := by
  simp only [freshResolution, Option.map_eq_some_iff, Option.filter_eq_some_iff, and_assoc]
  exact exists_congr fun entry => and_congr_right fun _ => and_congr_left' decide_eq_true_iff

/-- What the cache promises of an interleaving, whatever the clock reads. -/
structure Leased (requests : ι → Request) (W : CacheWorld ι) : Prop where
  /-- A lookup is served from an insertion that nothing replaced or refused since. -/
  hit : ∀ before key now a after,
    W.shared.log = before ++ ⟨.freshResolution key now, some a⟩ :: after →
    ∃ c earlier between, before = earlier ++ ⟨.insert key a c, ()⟩ :: between ∧
      (∀ e ∈ between, ¬ Replaces key e) ∧ now < c + 60
  /-- Who inserts walked for it. -/
  inserted : ∀ key a c, ⟨.insert key a c, ()⟩ ∈ W.shared.log →
    ∃ j, (requests j).key = key ∧ remembered key c a <+: W.made j
  /-- A call that did not walk answers from another call's walk. -/
  unwalked : ∀ i result, W.left i = .pure result → (∀ key reply, ⟨.walk key, reply⟩ ∉ W.made i) →
    ∃ (n : Nat) (a : ResolvedAuthority) (c : Nat) (j : ι), W.made i = [⟨.nowSeconds, n⟩, ⟨.freshResolution (requests i).key n, some a⟩] ∧
      result = (requests i).accept a ∧ (requests j).key = (requests i).key ∧
      remembered (requests i).key c a <+: W.made j ∧ n < c + 60
  /-- A call whose walk failed inserts nothing. -/
  failed : ∀ i k e, ⟨.walk k, .error e⟩ ∈ W.made i → ∀ key a c, ⟨.insert key a c, ()⟩ ∉ W.made i
  accepted : ∀ i a, W.left i = .pure (.ok a) → a.verifySigningAt (requests i).signedAt = .ok ()
  /-- Under a clock that does not step back, the registry held the answer within the lease. -/
  current : Monotone W.shared.timeline → ∀ i a, W.left i = .pure (.ok a) →
    ∃ n : Nat, [⟨.nowSeconds, n⟩] <+: W.made i ∧ ∃ m ∈ W.shared.timeline,
      m.registry (requests i).key = some a ∧ n < m.reading + 60

theorem accept_ok {q : Request} {a b : ResolvedAuthority} (h : q.accept a = .ok b) :
    a = b ∧ b.verifySigningAt q.signedAt = .ok () := by
  rw [Request.accept] at h
  cases hverified : a.verifySigningAt q.signedAt with
  | error e =>
    rw [hverified] at h
    cases h
  | ok _ =>
    rw [hverified] at h
    cases h
    exact ⟨rfl, hverified⟩

/-- A call that answers was served the answer, or walked for it. -/
theorem Stage.answered {q t} (h : Stage q t (.pure (.ok a))) :
    a.verifySigningAt q.signedAt = .ok () ∧ ∃ n : Nat,
      t = [⟨.nowSeconds, n⟩, ⟨.freshResolution q.key n, some a⟩] ∨ t = remembered q.key n a := by
  generalize hr : (Except.ok a : Answer) = result at h
  cases h with
  | served n b =>
    obtain ⟨rfl, hverified⟩ := accept_ok hr.symm
    exact ⟨hverified, n, .inl rfl⟩
  | done n b =>
    obtain ⟨rfl, hverified⟩ := accept_ok hr.symm
    exact ⟨hverified, n, .inr rfl⟩
  | failed n e => cases hr

namespace Inv
variable {W : CacheWorld ι}

theorem hit (h : Inv requests W) {before after key now a}
    (hlog : W.shared.log = before ++ ⟨.freshResolution key now, some a⟩ :: after) :
    ∃ c earlier between, before = earlier ++ ⟨.insert key a c, ()⟩ :: between ∧
      (∀ e ∈ between, ¬ Replaces key e) ∧ now < c + 60 := by
  have hreply := h.consistent before key now (some a) after hlog
  obtain ⟨entry, hentry, hfresh, rfl⟩ := freshResolution_eq_some.mp hreply.symm
  obtain ⟨earlier, between, hbefore, hbetween⟩ := replay_eq_some hentry
  exact ⟨entry.cachedAt, earlier, between, hbefore, hbetween, by omega⟩

/-- A served call is served from another call's walk. -/
theorem served (h : Inv requests W) {i a} {n : Nat}
    (hmade : W.made i = [⟨.nowSeconds, n⟩, ⟨.freshResolution (requests i).key n, some a⟩]) :
    ∃ c j, (requests j).key = (requests i).key ∧ remembered (requests i).key c a <+: W.made j ∧
      n < c + 60 := by
  have hlookup : ⟨.freshResolution (requests i).key n, some a⟩ ∈ W.made i := by
    rw [hmade]
    exact mem_cons_of_mem _ mem_cons_self
  obtain ⟨before, after, hlog⟩ := append_of_mem (h.logged i hlookup)
  obtain ⟨c, earlier, between, hbefore, -, hlt⟩ := h.hit hlog
  have hmem : ⟨.insert (requests i).key a c, ()⟩ ∈ W.shared.log := by simp [hlog, hbefore]
  obtain ⟨j, hkey, hj⟩ := h.inserted _ a c hmem
  exact ⟨c, j, hkey, hj, hlt⟩

theorem leased (h : Inv requests W) : Leased requests W where
  hit before key now a after hlog := h.hit hlog
  inserted := h.inserted
  unwalked i result hresult hwalk := by
    have hstage := h.stage i
    generalize hmade : W.made i = made at hstage hwalk
    rw [hresult] at hstage
    cases hstage with
    | served n a =>
      obtain ⟨c, j, hkey, hj, hlt⟩ := h.served hmade
      exact ⟨n, a, c, j, rfl, rfl, hkey, hj, hlt⟩
    | failed n e => exact absurd (by simp) (hwalk (requests i).key (.error e))
    | done n a => exact absurd (by simp [remembered, reached]) (hwalk (requests i).key (.ok a))
  failed i k e herror key a c hinsert := by
    obtain ⟨n, b, hmade⟩ := (h.stage i).of_insert hinsert
    rw [hmade] at herror
    exact nomatch herror
  accepted i a hresult := (Stage.answered (hresult ▸ h.stage i)).1
  current hmono i a hresult := by
    obtain ⟨-, n, hmade | hmade⟩ := Stage.answered (hresult ▸ h.stage i)
    · obtain ⟨c, j, -, hj, hlt⟩ := h.served hmade
      obtain ⟨m, hm, hregistry, hreading⟩ := h.walked j c a _ ((prefix_append _ _).trans hj)
      have := hreading hmono
      exact ⟨n, hmade ▸ ⟨[_], rfl⟩, m, hm, hregistry, by omega⟩
    · obtain ⟨m, hm, hregistry, hreading⟩ := h.walked i n a _ ⟨[_], hmade.symm⟩
      have := hreading hmono
      exact ⟨n, hmade ▸ ⟨_, rfl⟩, m, hm, hregistry, by omega⟩

end Inv

/-- No lookup at the reading 0 is served an entry cached at a positive reading. -/
def MisreadRefused (log : Trace calls) : Prop :=
  ∀ before key a after entry, log = before ++ ⟨.freshResolution key 0, some a⟩ :: after →
    replay before key = some entry → entry.cachedAt = 0

/-- No lookup at the reading 0 meets such an entry. -/
def MisreadUnmet (log : Trace calls) : Prop :=
  ∀ before key reply after entry, log = before ++ ⟨.freshResolution key 0, reply⟩ :: after →
    replay before key = some entry → entry.cachedAt = 0

end

/-- Over every interleaving of calls and every clock: the lease bounds what is served, and a misread
clock refuses what was cached before exactly where it does not meet it. -/
theorem trust_cache_bounded {ι : Type} [DecidableEq ι] (requests : ι → Request) (W : CacheWorld ι)
    (h : Reachable (system requests) W) :
    Leased requests W ∧ (MisreadRefused W.shared.log ↔ MisreadUnmet W.shared.log) := by
  have hinv := inv_reachable h
  refine ⟨hinv.leased, fun hrefused before key reply after entry hlog hentry => ?_,
    fun hunmet before key a after entry hlog hentry => hunmet before key _ after entry hlog hentry⟩
  have hreply := hinv.consistent before key 0 reply after hlog
  -- at the reading 0 every entry is served
  rw [freshResolution_eq_some.mpr ⟨entry, hentry, by omega, rfl⟩] at hreply
  exact hrefused before key entry.resolved after entry (hreply ▸ hlog) hentry

/-! ## A second call on a cached entry -/

namespace Sample

def key : Key := (Protocol.Vocabulary.Specimen.tenant, .fill 0x11)

def instant : Timestamp := Protocol.Vocabulary.Specimen.newYear

/-- A half that is neither established by a link nor retired. -/
def half : ResolvedAuthority := ⟨key.2, .fill 0x22, none, none⟩

def request : Request := ⟨key.1, key.2, instant⟩

theorem accepted : request.accept half = .ok half := by
  have hacceptance : half.acceptance instant = .accepted :=
    AuthorityWindows.accepted_iff.mpr ⟨by decide +kernel, nofun, nofun⟩
  rfl

/-- The registry holds the half at all times. -/
def moment (reading : Nat) : Moment := ⟨reading, fun k => if k = key then some half else none⟩

theorem registered {reading} : (moment reading).registry key = some half := by
  simp [moment]

/-- Two calls for the same key: the first walks at the reading 1000, the second reads the clock
after that. -/
def logged (reading : Nat) : Trace calls :=
  remembered key 1000 half ++ [⟨.nowSeconds, reading⟩, ⟨.freshResolution key reading, some half⟩]

/-- The map after the first call. -/
def cached : Entries := insert (freshResolution (fun _ => none) key 1000).2 key half 1000

theorem cached_key : cached key = some ⟨half, 1000⟩ := by
  rw [cached, insert, Function.update_self]

/-- One more step of a run. -/
theorem advance {W} (h : Reachable (system fun _ => request) W) (i : Bool) {c}
    {next : calls.Reply c → Proc calls Answer} (hleft : W.left i = .call c next) (r : calls.Reply c)
    {timeline} (hpasses : W.shared.timeline <+: timeline) {entries}
    (hanswers : Answers timeline W.shared.entries ⟨c, r⟩ entries) :
    Reachable (system fun _ => request)
      (W.after i ⟨c, r⟩ ⟨entries, timeline, W.shared.log ++ [⟨c, r⟩]⟩ (next r)) :=
  h.step (.call hleft ⟨hpasses, rfl, hanswers⟩)

theorem served_within {reading} (h : reading - 1000 < 60) :
    ∃ W, Reachable (system fun _ : Bool => request) W ∧ W.shared.log = logged reading ∧
      W.left true = .pure (.ok half) := by
  have hhit : (freshResolution cached key reading).1 = some half :=
    freshResolution_eq_some.mpr ⟨⟨half, 1000⟩, cached_key, h, rfl⟩
  have hserved : Answers [moment 1000, moment reading] cached
      ⟨.freshResolution key reading, some half⟩ (freshResolution cached key reading).2 :=
    hhit ▸ Answers.freshResolution key reading
  have h1 := advance .start false rfl (1000 : Nat) ⟨[moment 1000], rfl⟩ (.nowSeconds (moment 1000) rfl)
  have h2 := advance h1 false rfl none prefix_rfl (.freshResolution key 1000)
  have h3 := advance h2 false rfl (.ok half) prefix_rfl (.walked rfl registered)
  have h4 := advance h3 false rfl () prefix_rfl (.insert key half 1000)
  have h5 := advance h4 true rfl reading ⟨[moment reading], rfl⟩ (.nowSeconds (moment reading) rfl)
  have h6 := advance h5 true rfl (some half) prefix_rfl hserved
  exact ⟨_, h6, rfl, congrArg Proc.pure accepted⟩

theorem replay_cached : replay (remembered key 1000 half ++ [⟨.nowSeconds, (0 : Nat)⟩]) key =
    some ⟨half, 1000⟩ := by
  have hread : ¬ Replaces key ⟨.nowSeconds, (0 : Nat)⟩ := id
  rw [replay_snoc, apply_of_not_replaces hread, remembered, replay_snoc]
  show insert _ key half 1000 key = _
  rw [insert, Function.update_self]

end Sample

/-- A clock that reads 0 is served what was cached at the reading 1000. -/
theorem misread_clock_served :
    ∃ W, Reachable (system fun _ : Bool => Sample.request) W ∧
      W.left true = .pure (.ok Sample.half) ∧ ¬ MisreadRefused W.shared.log := by
  obtain ⟨W, hreachable, hlog, hleft⟩ := Sample.served_within (by decide : 0 - 1000 < 60)
  refine ⟨W, hreachable, hleft, fun hrefused => ?_⟩
  exact absurd (hrefused _ _ _ [] _ hlog Sample.replay_cached) (by decide)

/-- A call at the last second of a lease. -/
theorem lease_served_to_its_end :
    ∃ W, Reachable (system fun _ : Bool => Sample.request) W ∧
      W.left true = .pure (.ok Sample.half) ∧ Leased (fun _ => Sample.request) W ∧
      (MisreadRefused W.shared.log ↔ MisreadUnmet W.shared.log) := by
  obtain ⟨W, hreachable, -, hleft⟩ := Sample.served_within (by decide : 1059 - 1000 < 60)
  exact ⟨W, hreachable, hleft, trust_cache_bounded _ W hreachable⟩

end AgentArchivist.Auth.TrustCache
