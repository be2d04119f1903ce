import Mathlib.Data.String.Basic
import AgentArchivist.Protocol.Document

/-! # Delegations

The grant under which one linked client presents another's occurrences, the scopes it is
intersected with, and the decision on one relay attempt. The scopes of a grant are read back
from their JSON (`parse_toJson`). -/
namespace AgentArchivist.Auth.Delegation
open Protocol List
open Lib.Fallible Lib.Sorting Document Json Vocabulary

inductive ScopeOperation where
  | ingest
deriving DecidableEq, Repr

def ScopeOperation.token : ScopeOperation → String
  | .ingest => "ingest"

inductive DelegationState where
  | active
  | withdrawn
deriving DecidableEq, Repr

def DelegationState.token : DelegationState → String
  | .active => "active"
  | .withdrawn => "withdrawn"

def DelegationState.fromToken (token : String) : Option DelegationState :=
  if token = "active" then some .active
  else if token = "withdrawn" then some .withdrawn
  else none

inductive DelegationError where
  | malformedRecord
  | recordDisagreement
  | untrustedAuthority
deriving DecidableEq, Repr

/-! ## Scopes -/

/-- Ascending by text. -/
def sortBy {T : Type} (text : T → String) (tokens : List T) : List T :=
  tokens.mergeSort fun a b => text a ≤ text b

section
variable {T : Type} {text : T → String} {tokens : List T}

theorem ascending_sortBy : (sortBy text tokens).Pairwise fun a b => text a ≤ text b := by
  have hsorted : (sortBy text tokens).Pairwise fun a b => decide (text a ≤ text b) = true :=
    pairwise_mergeSort (by simpa using fun a b c h h' => le_trans h h')
      (by simpa using fun a b => le_total _ _) tokens
  exact hsorted.imp fun h => of_decide_eq_true h

theorem length_sortBy : (sortBy text tokens).length = tokens.length := length_mergeSort _

end

/-- The bound on either list of a grant. -/
def BOUND : Nat := 64

/-- One list of a grant: a few distinct tokens, ascending by their texts. -/
structure Allowlist (T : Type) [DecidableEq T] (text : T → String) where
  tokens : List T
  bound : 1 ≤ tokens.length ∧ tokens.length ≤ BOUND
  ascending : tokens.Pairwise fun a b => text a ≤ text b
  distinct : hasDuplicates tokens = false

namespace Allowlist
variable {T : Type} [DecidableEq T] {text : T → String}

theorem ext {a b : Allowlist T text} (h : a.tokens = b.tokens) : a = b := by
  cases a
  cases b
  simpa using h

instance : DecidableEq (Allowlist T text) := fun _ _ => decidable_of_iff _ ⟨ext, congrArg tokens⟩

/-- A list that is empty, too long or has duplicates is refused. -/
def new (text : T → String) (tokens : List T) : Except DelegationError (Allowlist T text) :=
  if bound : 1 ≤ tokens.length ∧ tokens.length ≤ BOUND then
    if distinct : hasDuplicates (sortBy text tokens) = false then
      .ok ⟨sortBy text tokens, length_sortBy.symm ▸ bound, ascending_sortBy, distinct⟩
    else .error .malformedRecord
  else .error .malformedRecord

/-- A list that was sorted and checked before comes out as it was. -/
theorem new_tokens (list : Allowlist T text) : new text list.tokens = .ok list := by
  have hsorted : sortBy text list.tokens = list.tokens :=
    mergeSort_of_pairwise (list.ascending.imp fun hle => decide_eq_true hle)
  rw [new, dif_pos list.bound, dif_pos (hsorted.symm ▸ list.distinct)]
  exact congrArg _ (ext hsorted)

end Allowlist

/-- The scopes of a grant. A binary search in a sorted list finds exactly its members. -/
structure DelegationScopes where
  harnesses : Allowlist HarnessId Text.asStr
  operations : Allowlist ScopeOperation ScopeOperation.token
deriving DecidableEq

namespace DelegationScopes

def new (harnesses : List HarnessId) (operations : List ScopeOperation) :
    Except DelegationError DelegationScopes := do
  let harnesses ← Allowlist.new Text.asStr harnesses
  let operations ← Allowlist.new ScopeOperation.token operations
  .ok ⟨harnesses, operations⟩

def containsHarness (scopes : DelegationScopes) (harness : HarnessId) : Bool :=
  harness ∈ scopes.harnesses.tokens

def containsOperation (scopes : DelegationScopes) (operation : ScopeOperation) : Bool :=
  operation ∈ scopes.operations.tokens

/-- One token of a list; what the grammar does not know is refused. -/
def parseToken {T : Type} (tokenOf : String → Option T) : Value → Except DelegationError T
  | .text token =>
    match tokenOf token with
    | some value => .ok value
    | none => .error .malformedRecord
  | _ => .error .malformedRecord

/-- The order of the tokens is not asked for. -/
def parseAllowlist {T : Type} [DecidableEq T] (text : T → String) (tokenOf : String → Option T) :
    Option Value → Except DelegationError (Allowlist T text)
  | some (.array items) =>
    if items = [] ∨ items.length > BOUND then .error .malformedRecord
    else do
      let parsed ← items.mapM (parseToken tokenOf)
      Allowlist.new text parsed
  | _ => .error .malformedRecord

def harnessOf (token : String) : Option HarnessId := (WireText.fromStr token).toOption

def operationOf (token : String) : Option ScopeOperation :=
  if token = "ingest" then some .ingest else none

def parse : Option Value → Except DelegationError DelegationScopes
  | some (.object scopes) =>
    if scopes.length ≠ 2 ∨ !Object.contains "harnesses" scopes ∨
        !Object.contains "operations" scopes then .error .malformedRecord
    else do
      let harnesses ← parseAllowlist Text.asStr harnessOf (Object.get "harnesses" scopes)
      let operations ←
        parseAllowlist ScopeOperation.token operationOf (Object.get "operations" scopes)
      .ok ⟨harnesses, operations⟩
  | _ => .error .malformedRecord

/-- A list as JSON. -/
def items {T : Type} [DecidableEq T] {text : T → String} (list : Allowlist T text) : Value :=
  .array (list.tokens.map fun token => .text (text token))

/-- The members in the order in which they are set. -/
def listed (scopes : DelegationScopes) : List (String × Value) :=
  [("harnesses", items scopes.harnesses), ("operations", items scopes.operations)]

def toJson (scopes : DelegationScopes) : Value := .object (assembled scopes.listed)

/-! ## Scopes are read back -/

theorem mapM_parseToken {T : Type} {text : T → String} {tokenOf : String → Option T}
    (hof : ∀ t, tokenOf (text t) = some t) (tokens : List T) :
    (tokens.map fun token => Value.text (text token)).mapM (parseToken tokenOf) = .ok tokens := by
  induction tokens with
  | nil => rfl
  | cons t tokens ih =>
    rw [map_cons, mapM_cons, ih, parseToken, hof]
    rfl

theorem parseAllowlist_items {T : Type} [DecidableEq T] {text : T → String}
    {tokenOf : String → Option T} (hof : ∀ t, tokenOf (text t) = some t) (list : Allowlist T text) :
    parseAllowlist text tokenOf (some (items list)) = .ok list := by
  have hbound := list.bound
  have hlen : ¬ ((list.tokens.map fun token => Value.text (text token)) = [] ∨
      (list.tokens.map fun token => Value.text (text token)).length > BOUND) := by
    rw [map_eq_nil_iff, length_map, ← length_eq_zero_iff]
    omega
  rw [items, parseAllowlist, if_neg hlen]
  exact bind_eq_ok.mpr ⟨list.tokens, mapM_parseToken hof list.tokens, list.new_tokens⟩

theorem listed_nodup (scopes : DelegationScopes) : (scopes.listed.map Prod.fst).Nodup := by
  simp [listed]

theorem parse_toJson (scopes : DelegationScopes) : parse (some scopes.toJson) = .ok scopes := by
  have hharnesses : Object.get "harnesses" (assembled scopes.listed) = some (items scopes.harnesses) :=
    get_assembled scopes.listed_nodup (by simp [listed])
  have hoperations : Object.get "operations" (assembled scopes.listed) =
      some (items scopes.operations) := get_assembled scopes.listed_nodup (by simp [listed])
  have hlen : (assembled scopes.listed).length = 2 :=
    (assembled_sorted scopes.listed_nodup).2.length_eq
  have hharness : ∀ t : HarnessId, harnessOf t.asStr = some t := by
    intro t
    exact congrArg Except.toOption (WireText.fromStr_text t)
  rw [toJson, parse, if_neg (by simp [hlen, Object.contains, hharnesses, hoperations]), hharnesses,
    hoperations]
  refine bind_eq_ok.mpr ⟨_, parseAllowlist_items hharness _, ?_⟩
  exact bind_eq_ok.mpr ⟨_, parseAllowlist_items (fun t => by cases t; rfl) _, rfl⟩

end DelegationScopes

/-- The allowlists of a linked client. -/
structure LinkedClientScopes where
  harnesses : List HarnessId
  operations : List ScopeOperation
  harnesses_filled : harnesses ≠ []
  operations_filled : operations ≠ []
  ascending : harnesses.Pairwise fun a b => a.asStr ≤ b.asStr
deriving DecidableEq

namespace LinkedClientScopes

def new (harnesses : List HarnessId) (operations : List ScopeOperation) : Option LinkedClientScopes :=
  if h : harnesses ≠ [] ∧ operations ≠ [] then
    some
      { harnesses := sortBy Text.asStr harnesses
        operations := sortBy ScopeOperation.token operations
        harnesses_filled := by
          rw [ne_eq, ← length_eq_zero_iff, length_sortBy, length_eq_zero_iff]
          exact h.1
        operations_filled := by
          rw [ne_eq, ← length_eq_zero_iff, length_sortBy, length_eq_zero_iff]
          exact h.2
        ascending := ascending_sortBy }
  else none

def containsHarness (scopes : LinkedClientScopes) (harness : HarnessId) : Bool :=
  harness ∈ scopes.harnesses

def containsOperation (scopes : LinkedClientScopes) (operation : ScopeOperation) : Bool :=
  operation ∈ scopes.operations

end LinkedClientScopes

/-! ## Grants -/

structure DelegationRecord where
  tenantId : TenantId
  relayClientId : ClientId
  originClientId : ClientId
  state : DelegationState
  scopes : DelegationScopes
  epoch : Nat
  signedAt : Timestamp
  positive : 1 ≤ epoch
  distinct : relayClientId ≠ originClientId
  calendar : calendarValid signedAt = true

structure RelayAttempt where
  tenantId : TenantId
  relayClientId : ClientId
  originClientId : ClientId
  harness : HarnessId
  operation : ScopeOperation
deriving DecidableEq

inductive DelegationRejection where
  | crossTenant
  | relayMismatch
  | originMismatch
  | withdrawn
  | harnessNotGranted
  | operationNotGranted
deriving DecidableEq, Repr

def DelegationRecord.authorize (record : DelegationRecord) (attempt : RelayAttempt)
    (relayScopes : LinkedClientScopes) : Except DelegationRejection ClientId :=
  if attempt.tenantId ≠ record.tenantId then .error .crossTenant
  else if attempt.relayClientId ≠ record.relayClientId then .error .relayMismatch
  else if attempt.originClientId ≠ record.originClientId then .error .originMismatch
  else if record.state = .withdrawn then .error .withdrawn
  else if !record.scopes.containsHarness attempt.harness || !relayScopes.containsHarness attempt.harness
    then .error .harnessNotGranted
  else if !record.scopes.containsOperation attempt.operation ||
      !relayScopes.containsOperation attempt.operation then .error .operationNotGranted
  else .ok record.originClientId

/-- A live grant for exactly the tenant and the pair, which lists the harness and the
operation. -/
structure Grants (record : DelegationRecord) (attempt : RelayAttempt) : Prop where
  tenant : record.tenantId = attempt.tenantId
  relay : record.relayClientId = attempt.relayClientId
  origin : record.originClientId = attempt.originClientId
  live : record.state ≠ .withdrawn
  harness : attempt.harness ∈ record.scopes.harnesses.tokens
  operation : attempt.operation ∈ record.scopes.operations.tokens

theorem authorize_ok {record attempt scopes} {origin} :
    record.authorize attempt scopes = .ok origin ↔ Grants record attempt ∧
      attempt.harness ∈ scopes.harnesses ∧ attempt.operation ∈ scopes.operations ∧
      origin = attempt.originClientId := by
  simp only [DelegationRecord.authorize, refuse_eq_ok, DelegationScopes.containsHarness,
    LinkedClientScopes.containsHarness, DelegationScopes.containsOperation,
    LinkedClientScopes.containsOperation, Bool.or_eq_true, Bool.not_eq_true', decide_eq_false_iff_not,
    not_or, not_not, Except.ok.injEq]
  constructor
  · rintro ⟨htenant, hrelay, horigin, hlive, hharness, hoperation, rfl⟩
    exact ⟨⟨htenant.symm, hrelay.symm, horigin.symm, hlive, hharness.1, hoperation.1⟩, hharness.2,
      hoperation.2, horigin.symm⟩
  · rintro ⟨hgrants, hharness, hoperation, rfl⟩
    exact ⟨hgrants.tenant.symm, hgrants.relay.symm, hgrants.origin.symm, hgrants.live,
      ⟨hgrants.harness, hharness⟩, ⟨hgrants.operation, hoperation⟩, hgrants.origin⟩

end AgentArchivist.Auth.Delegation
