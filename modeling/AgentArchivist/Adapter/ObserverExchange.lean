import AgentArchivist.Adapter.InferenceObserver

/-! # One exchange through the observer

Any sequence of observer calls, over a sink that answers as it likes. The observer knows
two things about it: whether the sink has refused an artifact (`failure`), and whether an
attempt still waits for its outcome (`activeAttempt`). The close report is complete
exactly where neither is the case and the last flush was acknowledged. -/
namespace AgentArchivist.Adapter.ObserverExchange
open Adapter.InferenceObserver Lib.Calling Lib.Proc List
open AgentArchivist.Protocol.AttemptSequence (SequencerM)
open Protocol.Correlation Protocol.InferenceArtifact Protocol.Vocabulary

/-! ## Calls and what they answer -/

inductive Call where
  | startLogicalInference (traceId : TraceId) (inferenceRequestId : InferenceRequestId)
      (startedAt : Option Timestamp)
  | startProviderAttempt (minted : ProviderAttemptId)
  | decodedRequestBytes (bytes : List UInt8) (metadata : Option Metadata)
      (captureTime : Option Timestamp)
  | decodedResponseEvent (bytes : List UInt8) (metadata : Option Metadata)
      (captureTime : Option Timestamp)
  | decodedResponseBytes (bytes : List UInt8) (metadata : Option Metadata)
      (captureTime : Option Timestamp)
  | usage (usageSource : UsageSource) (reportingBytes : Option (List UInt8))
      (inputTokens outputTokens totalTokens : UInt64) (captureTime : Option Timestamp)
  | attemptOutcome (outcome : AttemptOutcome) (captureTime : Option Timestamp)
  | startRetryAttempt (minted : ProviderAttemptId) (retryReason : RetryReason)
      (backoffMs : Option UInt64) (captureTime : Option Timestamp)
  | flush
  | closeLogicalInference

inductive Answer where
  | started (start : LogicalInferenceStart)
  | attempt (attempt : ProviderAttempt)
  | observed
  | finished
  | flushed (state : FlushState)
  | closed (close : LogicalInferenceClose)

/-- What an operation returned, as an answer. -/
def returning {α : Type} (m : ObserverM α) (answer : α → Answer) : ObserverM Answer := do
  let a ← m
  pure (answer a)

def perform : Call → ObserverM Answer
  | .startLogicalInference traceId requestId time =>
    returning (startLogicalInference traceId requestId time) .started
  | .startProviderAttempt minted => returning (startProviderAttempt minted) .attempt
  | .decodedRequestBytes bytes metadata time =>
    returning (decodedRequestBytes bytes metadata time) fun _ => .observed
  | .decodedResponseEvent bytes metadata time =>
    returning (decodedResponseEvent bytes metadata time) fun _ => .observed
  | .decodedResponseBytes bytes metadata time =>
    returning (decodedResponseBytes bytes metadata time) fun _ => .observed
  | .usage source bytes input output total time =>
    returning (usage source bytes input output total time) fun _ => .observed
  | .attemptOutcome outcome time => returning (attemptOutcome outcome time) fun _ => .finished
  | .startRetryAttempt minted reason backoffMs time =>
    returning (startRetryAttempt minted reason backoffMs time) .attempt
  | .flush => returning flush .flushed
  | .closeLogicalInference => returning closeLogicalInference .closed

/-- The observer after some calls that all returned, with what they answered and with the
calls of the sink. -/
inductive Exchange : InferenceObserverV1 → List (Except InferenceObserverError Answer) →
    Trace sink → Prop
  | new (tenantId : TenantId) (originClientId : ClientId) :
      Exchange (.new tenantId originClientId) [] []
  | call {o o' : InferenceObserverV1} {answers : List (Except InferenceObserverError Answer)}
      {t t' : Trace sink} {answer : Except InferenceObserverError Answer} (call : Call) :
      Exchange o answers t → Performs (perform call) o t answer o' t' →
      Exchange o' (answers ++ [answer]) t'

/-! ## What happened -/

/-- The sink accepted every artifact that was built. -/
def Accepted (t : Trace sink) : Prop :=
  ∀ artifact (reply : Except SinkFailure Unit),
    (⟨SinkCall.emit artifact, reply⟩ : Event sink) ∈ t → reply = .ok ()

/-- The start or the end of an attempt. -/
inductive Mark where
  | started (attempt : ProviderAttempt)
  | ended

def mark : Except InferenceObserverError Answer → Option Mark
  | .ok (.attempt attempt) => some (.started attempt)
  | .ok .finished => some .ended
  | _ => none

def marks (answers : List (Except InferenceObserverError Answer)) : List Mark :=
  answers.filterMap mark

/-- Every attempt that was started was given an outcome, and before another was started. -/
def Finished (marks : List Mark) : Prop :=
  ∀ before attempt after, marks = before ++ .started attempt :: after →
    ∃ rest, after = .ended :: rest

/-- The marks behind the attempt that is active. -/
def Attempts (active : Option ProviderAttempt) (marks : List Mark) : Prop :=
  match active with
  | none => Finished marks
  | some attempt => ∃ before, marks = before ++ [.started attempt] ∧ Finished before

theorem finished_nil : Finished [] := by
  intro before attempt after h
  simp at h

theorem not_finished_started {before attempt} : ¬ Finished (before ++ [.started attempt]) := by
  intro h
  obtain ⟨rest, hrest⟩ := h before attempt [] rfl
  cases hrest

/-- An outcome finishes the attempt that waits for it. -/
theorem Finished.ended {before attempt} (h : Finished before) :
    Finished (before ++ [.started attempt] ++ [.ended]) := by
  intro before' attempt' after hmarks
  rw [append_assoc] at hmarks
  rcases append_eq_append_iff.mp hmarks with ⟨as, -, has⟩ | ⟨cs, rfl, hcs⟩
  · -- the start is that attempt's, or stands where its outcome does
    cases as with
    | nil =>
      cases has
      exact ⟨[], rfl⟩
    | cons x as =>
      cases as with
      | nil => cases has
      | cons y as => simp at has
  · cases cs with
    | nil =>
      cases hcs
      exact ⟨[], rfl⟩
    | cons x cs =>
      obtain ⟨rfl, rfl⟩ := List.cons.inj hcs
      obtain ⟨rest, rfl⟩ := h before' attempt' cs rfl
      exact ⟨_, rfl⟩

theorem marks_snoc {answers answer} :
    marks (answers ++ [answer]) = marks answers ++ (mark answer).toList := by
  unfold marks
  cases h : mark answer <;> simp [h]

theorem accepted_snoc {t e} : Accepted (t ++ [e]) ↔ Accepted t ∧ Accepted [e] := by
  simp only [Accepted, mem_append]
  constructor
  · intro h
    exact ⟨fun a r hr => h a r (.inl hr), fun a r hr => h a r (.inr hr)⟩
  · intro ⟨h, h'⟩ a r hr
    exact hr.elim (h a r) (h' a r)

theorem accepted_emit {artifact : CanonicalArtifact} {reply : Except SinkFailure Unit} :
    Accepted [⟨SinkCall.emit artifact, reply⟩] ↔ reply = .ok () := by
  constructor
  · intro h
    exact h artifact reply mem_cons_self
  · intro h artifact' reply' hmem
    cases mem_singleton.mp hmem
    exact h

theorem accepted_flush {state} : Accepted [⟨SinkCall.flush, state⟩] := by
  intro artifact reply hmem
  cases mem_singleton.mp hmem

/-! ## What the observer knows -/

/-- Until the close: a failure stands for a refused artifact, and the active attempt for the
one that waits for its outcome. -/
structure Knows (o : InferenceObserverV1) (answers : List (Except InferenceObserverError Answer))
    (t : Trace sink) : Prop where
  failure : o.failure = none ↔ Accepted t
  unclosed : o.unclosedAttempt = false
  attempts : Attempts o.activeAttempt (marks answers)

def Inv (o : InferenceObserverV1) (answers : List (Except InferenceObserverError Answer))
    (t : Trace sink) : Prop := o.closed = false → Knows o answers t

section
variable {o : InferenceObserverV1} {answers : List (Except InferenceObserverError Answer)}
  {t : Trace sink} {α : Type}

theorem ensureStarted_ok {u} (h : ensureStarted o = .ok u) :
    o.closed = false ∧ o.failure = none := by
  unfold ensureStarted at h
  split at h
  · cases h
  rename_i hclosed
  cases hfailure : o.failure with
  | none => exact ⟨eq_false_of_ne_true hclosed, rfl⟩
  | some failure =>
    rw [hfailure] at h
    cases h

theorem ensureEventReady_ok {u} (h : ensureEventReady o = .ok u) :
    o.closed = false ∧ o.failure = none ∧ o.activeAttempt.isSome := by
  obtain ⟨_, hstarted, h⟩ := Lib.Fallible.bind_eq_ok.mp h
  obtain ⟨hclosed, hfailure⟩ := ensureStarted_ok hstarted
  refine ⟨hclosed, hfailure, ?_⟩
  cases hactive : o.activeAttempt with
  | none =>
    rw [hactive] at h
    cases h
  | some attempt => rfl

variable {o' : InferenceObserverV1}

/-- An answer that marks nothing, with a state that differs in nothing that is known. -/
theorem Knows.unmarked {t' answer} (h : Knows o answers t) (hmark : mark answer = none)
    (hfailure : o'.failure = none ↔ Accepted t')
    (hunclosed : o'.unclosedAttempt = o.unclosedAttempt)
    (hactive : o'.activeAttempt = o.activeAttempt) : Knows o' (answers ++ [answer]) t' where
  failure := hfailure
  unclosed := hunclosed.trans h.unclosed
  attempts := by
    rw [marks_snoc, hmark, Option.toList_none, append_nil, hactive]
    exact h.attempts

/-- A refusal. -/
theorem Inv.refused (h : Inv o answers t) (e : InferenceObserverError) :
    Inv o (answers ++ [.error e]) t := fun hclosed =>
  (h hclosed).unmarked rfl (h hclosed).failure rfl rfl

/-! ## The parts of the operations -/

theorem wp_returning {m} {answer : α → Answer}
    {Q : Except InferenceObserverError Answer → InferenceObserverV1 → Trace sink → Prop}
    (h : wp m (fun r o' t' => Q (r.map answer) o' t') o t) : wp (returning m answer) Q o t :=
  wp.bind h (fun _ _ _ hr => wp.pure hr) fun _ _ _ hr => hr

theorem wp_sequenced {operation}
    {Q : Except InferenceObserverError α → InferenceObserverV1 → Trace sink → Prop}
    (h : ∀ r s, Q r { o with sequencer := s } t) : wp (sequenced operation) Q o t := by
  refine wp.bind_get ?_
  cases hs : o.sequencer with
  | none =>
    have := h (.error .notStarted) none
    rwa [← hs] at this
  | some s => exact wp.bind_modify (wp.ofExcept (h _ _))

theorem wp_emit {artifact}
    {Q : Except InferenceObserverError Unit → InferenceObserverV1 → Trace sink → Prop}
    (haccepted : ∀ canonical n, Q (.ok ()) { o with emittedArtifacts := n }
      (t ++ [⟨SinkCall.emit canonical, (.ok () : Except SinkFailure Unit)⟩]))
    (hrefused : ∀ canonical e, Q (.error (.sink e)) { o with failure := some .captureFailed }
      (t ++ [⟨SinkCall.emit canonical, (.error e : Except SinkFailure Unit)⟩])) :
    wp (emit artifact) Q o t := by
  unfold emit
  cases CanonicalArtifact.new artifact with
  | none => exact ⟨trivial, nofun⟩
  | some canonical =>
    refine wp.bind_request (I := sink) fun reply => ?_
    cases reply with
    | ok u => exact wp.modify (haccepted canonical _)
    | error e => exact wp.bind_modify (wp.throw (hrefused canonical e))

/-- An emission, and what follows where the sink accepts. -/
theorem wp_emit_bind {β : Type} {artifact} {k : Unit → ObserverM β}
    {Q : Except InferenceObserverError β → InferenceObserverV1 → Trace sink → Prop}
    (haccepted : ∀ canonical n, wp (k ()) Q { o with emittedArtifacts := n }
      (t ++ [⟨SinkCall.emit canonical, (.ok () : Except SinkFailure Unit)⟩]))
    (hrefused : ∀ canonical e, Q (.error (.sink e)) { o with failure := some .captureFailed }
      (t ++ [⟨SinkCall.emit canonical, (.error e : Except SinkFailure Unit)⟩])) :
    wp (emit artifact >>= k) Q o t := by
  let P : Except InferenceObserverError Unit → InferenceObserverV1 → Trace sink → Prop
    | .ok _, o', t' => wp (k ()) Q o' t'
    | .error e, o', t' => Q (.error e) o' t'
  exact wp.bind (P := P) (wp_emit haccepted hrefused) (fun _ _ _ h => h) fun _ _ _ h => h

/-- A sequencer operation changes nothing that is known. -/
theorem wp_sequenced_bind {β : Type} {operation} {k : α → ObserverM β}
    {Q : Except InferenceObserverError β → InferenceObserverV1 → Trace sink → Prop}
    (hok : ∀ a s, wp (k a) Q { o with sequencer := s } t)
    (herror : ∀ e s, Q (.error e) { o with sequencer := s } t) :
    wp (sequenced operation >>= k) Q o t := by
  let P : Except InferenceObserverError α → InferenceObserverV1 → Trace sink → Prop :=
    fun _ o' t' => ∃ s, o' = { o with sequencer := s } ∧ t' = t
  refine wp.bind (P := P) (wp_sequenced fun r s => ⟨s, rfl, rfl⟩) ?_ ?_
  · rintro a _ _ ⟨s, rfl, rfl⟩
    exact hok a s
  · rintro e _ _ ⟨s, rfl, rfl⟩
    exact herror e s

/-- An accepted artifact leaves the failure as it is known. -/
theorem Knows.accepted (h : Knows o answers t) (canonical : CanonicalArtifact) :
    o.failure = none ↔
      Accepted (t ++ [⟨SinkCall.emit canonical, (.ok () : Except SinkFailure Unit)⟩]) := by
  rw [accepted_snoc, accepted_emit, h.failure]
  simp

theorem not_accepted_refused {canonical : CanonicalArtifact} {e : SinkFailure}
    {failure : IntegrationFailure} : some failure = none ↔
      Accepted (t ++ [⟨SinkCall.emit canonical, (.error e : Except SinkFailure Unit)⟩]) := by
  rw [accepted_snoc, accepted_emit]
  simp

theorem Knows.flushed (h : Knows o answers t) (state : FlushState) :
    o.failure = none ↔ Accepted (t ++ [⟨SinkCall.flush, state⟩]) := by
  rw [accepted_snoc, h.failure]
  exact (and_iff_left accepted_flush).symm

/-! ## Every operation keeps it -/

theorem observe_inv {operation} (h : Inv o answers t) :
    wp (observe operation)
      (fun r o' t' => Inv o' (answers ++ [r.map fun _ => Answer.observed]) t') o t := by
  refine wp.bind_get ?_
  refine wp.bind_ofExcept (fun _ hready => ?_) fun e _ => h.refused e
  have hk := h (ensureEventReady_ok hready).1
  refine wp_sequenced_bind (fun artifact s => ?_) fun e s _ => hk.unmarked rfl hk.failure rfl rfl
  refine wp_emit (fun canonical n _ => ?_) fun canonical e _ => ?_
  · exact hk.unmarked rfl (hk.accepted canonical) rfl rfl
  · exact hk.unmarked rfl not_accepted_refused rfl rfl

theorem startLogicalInference_inv {traceId requestId startedAt} (h : Inv o answers t) :
    wp (startLogicalInference traceId requestId startedAt)
      (fun r o' t' => Inv o' (answers ++ [r.map Answer.started]) t') o t := by
  refine wp.bind_get (wp.guard (fun _ => h.refused _) fun _ => ?_)
  refine wp.guard (fun _ => h.refused _) fun _ => ?_
  refine wp.bind_ofExcept (fun _ _ => ?_) fun e _ => h.refused e
  exact wp.bind_modify (wp.pure fun hclosed =>
    (h hclosed).unmarked rfl (h hclosed).failure rfl rfl)

/-- An attempt is started where none is active. -/
theorem Knows.started {t' : Trace sink} {attempt : ProviderAttempt}
    (h : Knows o answers t) (hidle : o.activeAttempt = none)
    (hfailure : o'.failure = none ↔ Accepted t') (hunclosed : o'.unclosedAttempt = o.unclosedAttempt)
    (hactive : o'.activeAttempt = some attempt) :
    Knows o' (answers ++ [.ok (.attempt attempt)]) t' where
  failure := hfailure
  unclosed := hunclosed.trans h.unclosed
  attempts := by
    have hattempts := h.attempts
    rw [hidle] at hattempts
    rw [hactive, marks_snoc]
    exact ⟨marks answers, rfl, hattempts⟩

/-- The active attempt is given its outcome. -/
theorem Knows.finished {t'} (h : Knows o answers t) (hactive : o.activeAttempt.isSome)
    (hfailure : o'.failure = none ↔ Accepted t')
    (hunclosed : o'.unclosedAttempt = o.unclosedAttempt) (hidle : o'.activeAttempt = none) :
    Knows o' (answers ++ [.ok .finished]) t' where
  failure := hfailure
  unclosed := hunclosed.trans h.unclosed
  attempts := by
    obtain ⟨attempt, hattempt⟩ := Option.isSome_iff_exists.mp hactive
    have hattempts := h.attempts
    rw [hattempt] at hattempts
    obtain ⟨before, hmarks, hbefore⟩ := hattempts
    rw [hidle, marks_snoc, hmarks]
    exact hbefore.ended

theorem startProviderAttempt_inv {minted} (h : Inv o answers t) :
    wp (startProviderAttempt minted)
      (fun r o' t' => Inv o' (answers ++ [r.map Answer.attempt]) t') o t := by
  refine wp.bind_get ?_
  refine wp.bind_ofExcept (fun _ hready => ?_) fun e _ => h.refused e
  have hk := h (ensureStarted_ok hready).1
  refine wp.guard (fun _ => h.refused _) fun hidle => ?_
  refine wp_sequenced_bind (fun attempt s => ?_) fun e s _ => hk.unmarked rfl hk.failure rfl rfl
  refine wp.bind_modify (wp.pure fun _ => ?_)
  exact hk.started (by simpa using hidle) hk.failure rfl rfl

theorem startRetryAttempt_inv {minted reason backoffMs time} (h : Inv o answers t) :
    wp (startRetryAttempt minted reason backoffMs time)
      (fun r o' t' => Inv o' (answers ++ [r.map Answer.attempt]) t') o t := by
  refine wp.bind_get ?_
  refine wp.bind_ofExcept (fun _ hready => ?_) fun e _ => h.refused e
  have hk := h (ensureStarted_ok hready).1
  refine wp.guard (fun _ => h.refused _) fun hidle => ?_
  refine wp.bind_ofExcept (fun _ _ => ?_) fun e _ => h.refused e
  refine wp_sequenced_bind (fun artifact s => ?_) fun e s _ => hk.unmarked rfl hk.failure rfl rfl
  refine wp.bind_get ?_
  split
  · exact wp.throw fun _ => hk.unmarked rfl hk.failure rfl rfl
  refine wp_emit_bind (fun canonical n => ?_) fun canonical e _ => ?_
  · refine wp.bind_modify (wp.pure fun _ => ?_)
    exact hk.started (by simpa using hidle) (hk.accepted canonical) rfl rfl
  · exact hk.unmarked rfl not_accepted_refused rfl rfl

theorem attemptOutcome_inv {outcome time} (h : Inv o answers t) :
    wp (attemptOutcome outcome time)
      (fun r o' t' => Inv o' (answers ++ [r.map fun _ => Answer.finished]) t') o t := by
  refine wp.bind_get ?_
  refine wp.bind_ofExcept (fun _ hready => ?_) fun e _ => h.refused e
  obtain ⟨hopen, -, hactive⟩ := ensureEventReady_ok hready
  have hk := h hopen
  refine wp.bind_ofExcept (fun _ _ => ?_) fun e _ => h.refused e
  cases outcome with
  | transportError errorClass timeoutMs =>
    refine wp_sequenced_bind (fun artifact s => ?_) fun e s _ => hk.unmarked rfl hk.failure rfl rfl
    refine wp_emit_bind (fun canonical n => ?_) fun canonical e _ => ?_
    · exact wp.modify fun _ => hk.finished hactive (hk.accepted canonical) rfl rfl
    · exact hk.unmarked rfl not_accepted_refused rfl rfl
  | completed | incomplete => exact wp.modify fun _ => hk.finished hactive hk.failure rfl rfl

theorem flush_inv (h : Inv o answers t) :
    wp flush (fun r o' t' => Inv o' (answers ++ [r.map Answer.flushed]) t') o t := by
  refine wp.bind_get ?_
  refine wp.bind_ofExcept (fun _ hready => ?_) fun e _ => h.refused e
  have hk := h (ensureStarted_ok hready).1
  refine wp.bind_request (I := sink) fun state => ?_
  exact wp.bind_modify (wp.pure fun _ => hk.unmarked rfl (hk.flushed state) rfl rfl)

theorem outcome_complete {b : Bool} :
    (if b then LogicalInferenceOutcome.complete else .incomplete) = .complete ↔ b := by
  cases b <;> simp

/-- No failure is reported: none was known, the flush was acknowledged and no attempt was open. -/
theorem isNone_reported {failure : Option IntegrationFailure} {acknowledged unclosed : Bool} :
    (failure.or (if !acknowledged then some .flushIncomplete
      else if unclosed then some .captureFailed else none)).isNone ↔
      failure = none ∧ unclosed = false ∧ acknowledged := by
  cases failure <;> cases acknowledged <;> cases unclosed <;> simp

/-- The close flushes once more, and reports what the observer knows. -/
theorem wp_closeLogicalInference
    {Q : Except InferenceObserverError LogicalInferenceClose → InferenceObserverV1 → Trace sink → Prop}
    (hrefused : ∀ e, Q (.error e) o t)
    (hclosed : ∀ (close : LogicalInferenceClose) (o' : InferenceObserverV1), o.closed = false →
      o'.closed = true →
      (close.outcome = .complete ↔ o.failure = none ∧ o.unclosedAttempt = false ∧
        o.activeAttempt = none ∧ close.flushState.isAcknowledged) →
      Q (.ok close) o' (t ++ [⟨SinkCall.flush, close.flushState⟩])) :
    wp closeLogicalInference Q o t := by
  refine wp.bind_ofExcept (fun _ hready => ?_) fun e _ => hrefused e
  have hopen : o.closed = false := by
    unfold ensureCloseable at hready
    cases ho : o.closed with
    | false => rfl
    | true => simp [ho] at hready
  cases o.start with
  | none => exact wp.throw (hrefused _)
  | some start =>
    -- either way the sink is flushed; an open attempt is remembered before
    refine wp.when (fun hactive => ?_) fun hactive => ?_
    · refine wp.bind_modify (wp.bind_request (I := sink) fun state => ?_)
      refine hclosed _ _ hopen rfl ?_
      refine (outcome_complete.trans isNone_reported).trans ?_
      simp [Option.isSome_iff_ne_none.mp hactive]
    · refine wp.bind_request (I := sink) fun state => ?_
      refine hclosed _ _ hopen rfl ?_
      refine (outcome_complete.trans isNone_reported).trans ?_
      simp [Option.not_isSome_iff_eq_none.mp hactive]

/-- Every call keeps what the observer knows. -/
theorem perform_inv (call : Call) (h : Inv o answers t) :
    wp (perform call) (fun r o' t' => Inv o' (answers ++ [r]) t') o t := by
  cases call with
  | startLogicalInference traceId requestId time => exact wp_returning (startLogicalInference_inv h)
  | startProviderAttempt minted => exact wp_returning (startProviderAttempt_inv h)
  | decodedRequestBytes | decodedResponseEvent | decodedResponseBytes
  | usage => exact wp_returning (observe_inv h)
  | attemptOutcome outcome time => exact wp_returning (attemptOutcome_inv h)
  | startRetryAttempt minted reason backoffMs time => exact wp_returning (startRetryAttempt_inv h)
  | flush => exact wp_returning (flush_inv h)
  | closeLogicalInference =>
    refine wp_returning (wp_closeLogicalInference (fun e => h.refused e) ?_)
    intro close o' _ hclosed _ hopen
    rw [hclosed] at hopen
    cases hopen

theorem exchange_inv (h : Exchange o answers t) : Inv o answers t := by
  induction h with
  | new tenantId originClientId =>
    exact fun _ => ⟨⟨fun _ _ _ hmem => (not_mem_nil hmem).elim, fun _ => rfl⟩, rfl, finished_nil⟩
  | call call _ hcall ih => exact (perform_inv call ih).performs hcall

/-! ## The close report -/

theorem Attempts.none_iff {active marks} (h : Attempts active marks) :
    active = none ↔ Finished marks := by
  cases active with
  | none => exact ⟨fun _ => h, fun _ => rfl⟩
  | some attempt =>
    obtain ⟨before, rfl, -⟩ := h
    exact ⟨nofun, fun hfinished => (not_finished_started hfinished).elim⟩

/-- The close flushes the sink, and its report is complete where the sink accepted every
artifact, every attempt was finished and that flush was acknowledged. -/
theorem closeLogicalInference_reports {t' close} (h : Exchange o answers t)
    (hclose : Performs closeLogicalInference o t (.ok close) o' t') :
    t' = t ++ [⟨SinkCall.flush, close.flushState⟩] ∧ (close.outcome = .complete ↔
      Accepted t' ∧ Finished (marks answers) ∧ close.flushState.isAcknowledged) := by
  let Q : Except InferenceObserverError LogicalInferenceClose → InferenceObserverV1 →
      Trace sink → Prop := fun r _ t' => ∀ close, r = .ok close →
    t' = t ++ [⟨SinkCall.flush, close.flushState⟩] ∧ (close.outcome = .complete ↔
      Accepted t' ∧ Finished (marks answers) ∧ close.flushState.isAcknowledged)
  refine (wp_closeLogicalInference (Q := Q) (fun e => nofun) ?_).performs hclose close rfl
  rintro close _ hopen - hcomplete _ ⟨⟩
  have hk := exchange_inv h hopen
  rw [hcomplete, hk.flushed close.flushState, hk.attempts.none_iff]
  simp [hk.unclosed]

end

/-! ## Exchanges against fixed replies -/

/-- The calls in order, each answered by the same replies of the sink. -/
def exchanged (reply : (c : SinkCall) → Option (sink.Reply c)) : List Call →
    InferenceObserverV1 → List (Except InferenceObserverError Answer) → Trace sink →
    Option (InferenceObserverV1 × List (Except InferenceObserverError Answer) × Trace sink)
  | [], o, answers, t => some (o, answers, t)
  | call :: calls, o, answers, t =>
    (answered (I := sink) reply ((perform call).run.run o) t).bind fun ((answer, o'), t') =>
      exchanged reply calls o' (answers ++ [answer]) t'

theorem exchange_of_exchanged {reply : (c : SinkCall) → Option (sink.Reply c)}
    {calls o o' answers answers' t t'} (h : Exchange o answers t)
    (hcalls : exchanged reply calls o answers t = some (o', answers', t')) :
    Exchange o' answers' t' := by
  induction calls generalizing o answers t with
  | nil =>
    cases hcalls
    exact h
  | cons call calls ih =>
    obtain ⟨⟨⟨answer, o1⟩, t1⟩, hcall, hrest⟩ := Option.bind_eq_some_iff.mp hcalls
    exact ih (.call call h (runs_of_answered hcall)) hrest

end AgentArchivist.Adapter.ObserverExchange
