import AgentArchivist.Auth.TrustPublication

/-! # The linked-client record

The current pointer of a client, as the authority signs it: the half, its identifier, the
epoch and the two allowlists. A replica verifies the pointer first and reads the half and the
allowlists from the same bytes after it. -/
namespace AgentArchivist.Auth.TrustView
open Protocol
open Authority ControlRecord Json Vocabulary

def linkedClientFamily : Family RevocationError where
  members := ["schema", "record_type", "record_kind", "tenant_id", "client_id", "key_id",
    "key_algorithm", "public_key", "scopes", "authorization_epoch", "signed_at", "authority_key_id",
    "authority_signature"]
  recordType := "linked-client"
  recordKind := "current-pointer"
  failures := failures
  distinct := by decide
  few := by decide
  short_names := by decide
  short_identity := by decide

def SCOPE_BOUND : Nat := 64

/-- A few nonempty texts. -/
def isAllowlist : Option Value → Bool
  | some (.array items) => !items.isEmpty && items.length ≤ SCOPE_BOUND && items.all fun item =>
      match item with
      | .text token => token ≠ ""
      | _ => false
  | _ => false

def scopesAllowlistObject : Option Value → Bool
  | some (.object scopes) =>
    if scopes.length ≠ 2 || !Object.contains "harnesses" scopes || !Object.contains "operations" scopes
    then false
    else isAllowlist (Object.get "harnesses" scopes) && isAllowlist (Object.get "operations" scopes)
  | _ => false

def LinkedClientPointer.verify (ed25519 : Verifier) (root : PinnedAuthorityRoot)
    (store : Finmap fun _ : KeyId => List UInt8) (envelope : List UInt8) (addressedClient : ClientId) :
    Except RevocationError LinkedClientPointer := do
  let object ← linkedClientFamily.begin root envelope
  let client ← readMember .malformedRecord object "client_id"
  if client ≠ addressedClient then .error .recordDisagreement
  else do
    let publicKey ← readMember .malformedRecord object "public_key"
    let keyId ← readMember .malformedRecord object "key_id"
    if keyId ≠ KeyId.fromPublicKey publicKey then .error .recordDisagreement
    else if textMember object "key_algorithm" ≠ some "ed25519" then .error .recordDisagreement
    else if !scopesAllowlistObject (Object.get "scopes" object) then .error .malformedRecord
    else do
      let epoch ← epochMemberNamed .malformedRecord object "authorization_epoch"
      let _ ← linkedClientFamily.conclude ed25519 root store envelope object
      .ok
        { clientId := client
          epoch := epoch.1
          keyId := keyId
          positive := epoch_positive epoch }

/-- A verified pointer is the addressed client's. -/
theorem LinkedClientPointer.clientId_of_verify {ed25519 root store envelope client} {pointer}
    (h : LinkedClientPointer.verify ed25519 root store envelope client = .ok pointer) :
    pointer.clientId = client := by
  simp only [LinkedClientPointer.verify, Lib.Fallible.bind_eq_ok, Lib.Fallible.refuse_eq_ok,
    not_not] at h
  obtain ⟨_, -, _, -, hclient, _, -, _, -, -, -, -, _, -, _, -, h⟩ := h
  cases h
  exact hclient

end AgentArchivist.Auth.TrustView
