import MerkleVault.Types

/-! # The Sealed/Unsealed Lifecycle

`VaultIdentity` holds the lifecycle state and, while unsealed, the Vault Root Key.  Every transition
goes through `canTransitionTo`; the invariant of the aggregate is that the key is there exactly in
the state `Unsealed`. -/

namespace MerkleVault.Identity

open MerkleVault.Types

/-- The states of the vault. -/
inductive SealedState
  | sealed | unsealing | unsealed | shuttingDown
deriving DecidableEq, Repr

/-- `can_transition_to`. -/
def SealedState.canTransitionTo : SealedState → SealedState → Bool
  | .sealed, .unsealing => true
  | .unsealing, .unsealed => true
  | .unsealing, .sealed => true
  | .unsealed, .shuttingDown => true
  | .shuttingDown, .sealed => true
  | _, _ => false

/-- A bundle of policy defaults, in increasing strictness. -/
inductive SecurityProfile
  | relaxed | balanced | paranoid
deriving DecidableEq, Repr

/-- The errors of the aggregate. -/
inductive DomainError
  | alreadyUnsealed
  | invalidStateTransition (source target : SealedState)
  | unsealPreconditionFailed (reason : String)
  | vaultRootKeyInvariant (detail : String)
deriving DecidableEq, Repr

/-- `UnsealPreconditions`. -/
structure UnsealPreconditions where
  securityProfile : SecurityProfile
  mlockSucceeded : Bool
  entropySeeded : Bool
  keychainReachable : Bool
deriving DecidableEq, Repr

/-- `validate`: entropy, memory locking under a paranoid profile, keychain. -/
def UnsealPreconditions.validate (p : UnsealPreconditions) : Except DomainError Unit :=
  if !p.entropySeeded then
    .error (.unsealPreconditionFailed "entropy not seeded: OsRng failed to initialise")
  else if p.securityProfile = .paranoid ∧ !p.mlockSucceeded then
    .error (.unsealPreconditionFailed ("mlock failed under Paranoid profile: refusing to load key " ++
      "material into swappable memory"))
  else if !p.keychainReachable ∧ p.securityProfile ≠ .relaxed then
    .error (.unsealPreconditionFailed "keychain unreachable under Balanced/Paranoid profile")
  else .ok ()

/-- The lifecycle state and the Vault Root Key. -/
structure VaultIdentity where
  state : SealedState
  vaultRootKey : Option Key
deriving DecidableEq

namespace VaultIdentity

/-- `VaultIdentity::new`: a sealed vault. -/
def new : VaultIdentity := ⟨.sealed, none⟩

/-- `is_unsealed`. -/
def isUnsealed (i : VaultIdentity) : Bool := i.state = .unsealed

/-- `begin_unseal`. -/
def beginUnseal (i : VaultIdentity) (p : UnsealPreconditions) : Except DomainError VaultIdentity :=
  if i.state = .unsealed then .error .alreadyUnsealed
  else if !i.state.canTransitionTo .unsealing then
    .error (.invalidStateTransition i.state .unsealing)
  else match p.validate with
    | .error e => .error e
    | .ok () => .ok { i with state := .unsealing }

/-- `complete_unseal`: the root key comes with the transition. -/
def completeUnseal (i : VaultIdentity) (vrk : Key) : Except DomainError VaultIdentity :=
  if !i.state.canTransitionTo .unsealed then
    .error (.invalidStateTransition i.state .unsealed)
  else if i.vaultRootKey.isSome then
    .error (.vaultRootKeyInvariant "VRK already present before Unsealing→Unsealed transition")
  else .ok ⟨.unsealed, some vrk⟩

/-- `VaultIdentity::seal`, the operator's: only from `Unsealed` (through `ShuttingDown`) or from `ShuttingDown`. -/
def sealVault (i : VaultIdentity) : Except DomainError VaultIdentity :=
  if i.state = .unsealed ∨ i.state = .shuttingDown then .ok ⟨.sealed, none⟩
  else .error (.invalidStateTransition i.state .sealed)

/-- `revert_to_sealed`. -/
def revertToSealed (i : VaultIdentity) : Except DomainError VaultIdentity :=
  if !i.state.canTransitionTo .sealed then .error (.invalidStateTransition i.state .sealed)
  else .ok ⟨.sealed, none⟩

end VaultIdentity

end MerkleVault.Identity
