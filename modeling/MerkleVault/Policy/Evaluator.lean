import MerkleVault.Secrets.Serialized
import MerkleVault.Sqlite.Tables
import MerkleVault.Socket.Gate

/-! # The Policy Evaluator

`PolicyEvaluator::evaluate` asks the sub-policies of a namespace one after the other; the first denial
is the answer.

* `checks`: the sub-policies in their order;
* `evaluate`: the first denial. -/

namespace MerkleVault.Policy.Evaluator

open MerkleVault.Types MerkleVault.Identity MerkleVault.Sqlite.Tables
open MerkleVault.Secrets.Aggregate (TagKey)
open MerkleVault.Secrets.Serialized (Tag)
open MerkleVault.Socket.Gate (consumersMatch)

/-! ### Errors and decisions -/

/-- Why a sub-policy refuses. -/
inductive PolicyError
  | requiredTagMissing (key : String)
  | forbiddenTagValue (key value : String)
  | unknownTagKey (key : String)
  | highSensitivityMissingEnvTag
  | crossNamespaceGloballyDisabled
  | crossNamespaceNotAllowed (target : String)
  | emptyNamespaceLabel
  | rateLimitExceeded (opClass : String)
  | rateLimitNotConfigured (opClass : String)
  | rateLimitWindowMismatch (opClass : String) (observed expected : Nat)
  | revealAdministrativelyDisabled
  | slashCommandMissing
  | oobConfirmationMissing
  | deviceClassInsufficient (actual required : String)
  | vaultNotUnsealed (op : String)
  | unsealPreconditionFailed (reason : String)
deriving DecidableEq, Repr

/-- The codes that a denial carries to its caller. -/
inductive DenialCode
  | vaultSealed | crossNamespaceDenied | rateLimitExceeded | consumerNotAllowed | tagsInvalid
  | oobConfirmationMissing | slashCommandMissing | sensitivityThresholdExceeded
  | deviceClassInsufficient | unsealPreconditionsFailed | administrativeDisabled | unknown
deriving DecidableEq, Repr

/-- The answer of the evaluator. -/
inductive PolicyDecision
  | allow
  | deny (code : DenialCode) (reason : PolicyError)
deriving DecidableEq, Repr

/-- The code of a denial, none when the input is allowed. -/
def PolicyDecision.denialCode : PolicyDecision → Option DenialCode
  | allow => none
  | deny code _ => some code

/-! ### Sub-policies -/

/-- Which other namespaces a session may reach. -/
structure CrossNamespacePolicy where
  masterSwitch : Bool
  allowedImports : List NamespaceLabel

/-- A session reaches its own namespace, and others by the master switch and the list of imports. -/
def CrossNamespacePolicy.check (p : CrossNamespacePolicy) (session target : NamespaceLabel) :
    Except PolicyError Unit :=
  if session = target then .ok ()
  else if session.asStr.isEmpty || target.asStr.isEmpty then .error .emptyNamespaceLabel
  else if !p.masterSwitch then .error .crossNamespaceGloballyDisabled
  else if target ∉ p.allowedImports then .error (.crossNamespaceNotAllowed target.asStr)
  else .ok ()

/-- The classes of operations that a rate limit counts apart. -/
inductive OpClass
  | plaintextReads | useTokenResolves | reveals
deriving DecidableEq, Repr

/-- `Display` of a class. -/
def OpClass.display : OpClass → String
  | plaintextReads => "plaintext_reads"
  | useTokenResolves => "use_token_resolves"
  | reveals => "reveals"

/-- So many operations in a window of so many seconds. -/
structure RateLimitEntry where
  maxCount : Nat
  windowSeconds : Nat
deriving DecidableEq, Repr

/-- The limits of a namespace; a class without one is refused. -/
structure RateLimit where
  perClass : OpClass → Option RateLimitEntry

/-- The window must be the configured one, and the count before the operation below the limit. -/
def RateLimit.check (p : RateLimit) (opClass : OpClass) (currentCount windowSeconds : Nat) :
    Except PolicyError Unit :=
  match p.perClass opClass with
  | none => .error (.rateLimitNotConfigured opClass.display)
  | some entry =>
    if windowSeconds ≠ entry.windowSeconds then
      .error (.rateLimitWindowMismatch opClass.display windowSeconds entry.windowSeconds)
    else if entry.maxCount ≤ currentCount then .error (.rateLimitExceeded opClass.display)
    else .ok ()

/-- `Display` of a tag key. -/
def tagKeyDisplay : TagKey → String
  | .env => "env"
  | .project => "project"
  | .role => "role"
  | .provider => "provider"
  | .team => "team"

/-- What the tags of a secret must, may and must not say. -/
structure TagsRules where
  requiredKeys : List TagKey
  allowedKeys : List TagKey
  forbiddenValues : List (TagKey × String)

/-- The first tag with a forbidden value. -/
def TagsRules.forbiddenTag (p : TagsRules) (tags : List Tag) : Option Tag :=
  tags.find? fun t => p.forbiddenValues.any fun f => t.key = f.1 && t.value.asStr = f.2

/-- Required keys, forbidden values, the `env` tag of a high secret and allowed keys, in this order. -/
def TagsRules.validate (p : TagsRules) (tags : List Tag) (sensitivity : Sensitivity) :
    Except PolicyError Unit :=
  match p.requiredKeys.find? fun key => !tags.any fun t => t.key = key with
  | some key => .error (.requiredTagMissing (tagKeyDisplay key))
  | none =>
    match p.forbiddenTag tags with
    | some t => .error (.forbiddenTagValue (tagKeyDisplay t.key) t.value.asStr)
    | none =>
      if sensitivity = .high && !tags.any fun t => t.key = .env then
        .error .highSensitivityMissingEnvTag
      else if p.allowedKeys.isEmpty then .ok ()
      else match tags.find? fun t => t.key ∉ p.allowedKeys with
        | some t => .error (.unknownTagKey (tagKeyDisplay t.key))
        | none => .ok ()

/-- `RevealPolicy::oob_required_for`. -/
def oobRequiredFor (p : RevealPolicy) (sensitivity : Sensitivity) : Bool :=
  p.requireOobAbove.rank ≤ sensitivity.rank

/-- `Display` of a device class. -/
def deviceClassDisplay : CompanionDeviceClass → String
  | .software => "software"
  | .secureEnclave => "secure_enclave"
  | .hardwareToken => "hardware_token"

/-- The class of device that a namespace asks for. -/
structure DevicePolicy where
  requiredClass : CompanionDeviceClass

/-- A device of the required class or a higher one. -/
def DevicePolicy.isSatisfiedBy (p : DevicePolicy) (actual : CompanionDeviceClass) : Bool :=
  p.requiredClass.rank ≤ actual.rank

/-- Which conditions an unseal depends on. -/
structure UnsealPreconditionsPolicy where
  paranoidRequiresMlock : Bool
  allProfilesRequireEntropy : Bool
  balancedParanoidRequireKeychain : Bool

/-- The same conditions for each profile. -/
def UnsealPreconditionsPolicy.forProfile (_profile : SecurityProfile) : UnsealPreconditionsPolicy :=
  ⟨true, true, true⟩

/-- What the host reports before an unseal. -/
structure UnsealPreconditionsInput where
  mlockSucceeded : Bool
  entropySeeded : Bool
  keychainReachable : Bool

/-- `Display` of a security profile. -/
def profileDisplay : SecurityProfile → String
  | .relaxed => "relaxed"
  | .balanced => "balanced"
  | .paranoid => "paranoid"

/-- Memory locking, entropy and keychain, each for the profiles that need it. -/
def UnsealPreconditionsPolicy.check (p : UnsealPreconditionsPolicy) (profile : SecurityProfile)
    (i : UnsealPreconditionsInput) : Except PolicyError Unit :=
  if p.paranoidRequiresMlock && profile = .paranoid && !i.mlockSucceeded then
    .error (.unsealPreconditionFailed
      "mlock failed in paranoid profile: address space not locked")
  else if p.allProfilesRequireEntropy && !i.entropySeeded then
    .error (.unsealPreconditionFailed "entropy source not seeded: OsRng failed to initialise")
  else if p.balancedParanoidRequireKeychain && profile ≠ .relaxed && !i.keychainReachable then
    .error (.unsealPreconditionFailed
      ("keychain not reachable in '" ++ profileDisplay profile ++ "' profile"))
  else .ok ()

/-- The least costs of a passphrase derivation. -/
structure Argon2idMinFloor where
  minMCost : Nat
  minTCost : Nat
  minPCost : Nat

/-- The floor: 64 MiB, three passes, one lane. -/
def Argon2idMinFloor.default : Argon2idMinFloor := ⟨65536, 3, 1⟩

/-- Each cost is at least that of the floor. -/
def Argon2idMinFloor.satisfies (p : Argon2idMinFloor) (mCost tCost pCost : Nat) : Bool :=
  p.minMCost ≤ mCost && p.minTCost ≤ tCost && p.minPCost ≤ pCost

/-! ### The evaluator -/

/-- The fields of `NamespacePolicy` that the evaluator reads. -/
structure NamespacePolicy where
  reveal : RevealPolicy
  rateLimit : RateLimit
  allowedConsumers : List String
  tagsRules : TagsRules
  crossNamespace : CrossNamespacePolicy
  devicePolicy : DevicePolicy

/-- What the operator has confirmed. -/
structure OperatorConfirmationView where
  slashCommand : Bool
  oobAck : Bool
  signedConfigFlagValid : Bool

/-- The count of an operation class in its current window. -/
structure RateWindowView where
  opClass : OpClass
  countInWindow : Nat
  windowSeconds : Nat

/-- What the evaluator is asked about. -/
structure PolicyDecisionInput where
  op : AuditOp
  sessionNamespace : NamespaceLabel
  targetNamespace : NamespaceLabel
  sensitivity : Option Sensitivity
  operatorConfirmation : OperatorConfirmationView
  vaultState : SealedState
  currentRateWindow : RateWindowView
  boundDeviceClass : CompanionDeviceClass
  tags : List Tag
  callerProgram : Option String

/-- A check passes, or it denies. -/
abbrev Check := Option (DenialCode × PolicyError)

/-- A vault that is not unsealed serves an unseal, and a doctor while it is unsealing. -/
def checkUnsealRequired (i : PolicyDecisionInput) : Check :=
  match i.vaultState with
  | .unsealed => none
  | .sealed =>
    if i.op = .unseal then none else some (.vaultSealed, .vaultNotUnsealed i.op.display)
  | .unsealing =>
    if i.op = .unseal || i.op = .doctor then none
    else some (.vaultSealed, .vaultNotUnsealed i.op.display)
  | .shuttingDown => some (.vaultSealed, .vaultNotUnsealed i.op.display)

/-- The sub-policy of namespaces and its denials. -/
def checkCrossNamespace (p : NamespacePolicy) (i : PolicyDecisionInput) : Check :=
  match p.crossNamespace.check i.sessionNamespace i.targetNamespace with
  | .ok () => none
  | .error .crossNamespaceGloballyDisabled =>
    some (.crossNamespaceDenied, .crossNamespaceGloballyDisabled)
  | .error (.crossNamespaceNotAllowed target) =>
    some (.crossNamespaceDenied, .crossNamespaceNotAllowed target)
  | .error .emptyNamespaceLabel => some (.crossNamespaceDenied, .emptyNamespaceLabel)
  | .error other => some (.unknown, other)

/-- The sub-policy of rates and its denials. -/
def checkRateLimit (p : NamespacePolicy) (i : PolicyDecisionInput) : Check :=
  let window := i.currentRateWindow
  match p.rateLimit.check window.opClass window.countInWindow window.windowSeconds with
  | .ok () => none
  | .error (.rateLimitExceeded c) => some (.rateLimitExceeded, .rateLimitExceeded c)
  | .error (.rateLimitNotConfigured c) => some (.rateLimitExceeded, .rateLimitNotConfigured c)
  | .error (.rateLimitWindowMismatch c observed expected) =>
    some (.rateLimitExceeded, .rateLimitWindowMismatch c observed expected)
  | .error other => some (.unknown, other)

/-- A program that is named must match one of the patterns. -/
def checkAllowedConsumers (p : NamespacePolicy) (i : PolicyDecisionInput) : Check :=
  match i.callerProgram with
  | none => none
  | some program =>
    if consumersMatch p.allowedConsumers program then none
    else some (.consumerNotAllowed, .revealAdministrativelyDisabled)

/-- Tags are checked where a value is stored; a missing sensitivity counts as low. -/
def checkTags (p : NamespacePolicy) (i : PolicyDecisionInput) : Check :=
  if i.op ≠ .put && i.op ≠ .rotate then none
  else match p.tagsRules.validate i.tags (i.sensitivity.getD .low) with
    | .ok () => none
    | .error e => some (.tagsInvalid, e)

/-- The conditions of a reveal, the first that fails denies. -/
def checkReveal (p : NamespacePolicy) (i : PolicyDecisionInput) : Check :=
  let conf := i.operatorConfirmation
  let sensitivity := i.sensitivity.getD .low
  if !p.reveal.allowed then some (.administrativeDisabled, .revealAdministrativelyDisabled)
  else if !conf.slashCommand && !conf.signedConfigFlagValid then
    some (.slashCommandMissing, .slashCommandMissing)
  else if oobRequiredFor p.reveal sensitivity && !conf.oobAck then
    some (.oobConfirmationMissing, .oobConfirmationMissing)
  else if sensitivity = .high && !conf.oobAck then
    some (.sensitivityThresholdExceeded, .oobConfirmationMissing)
  else if !p.devicePolicy.isSatisfiedBy i.boundDeviceClass then
    some (.deviceClassInsufficient, .deviceClassInsufficient (deviceClassDisplay i.boundDeviceClass)
      (deviceClassDisplay p.devicePolicy.requiredClass))
  else none

/-- An unseal is refused while the vault shuts down. -/
def checkUnsealOpState (i : PolicyDecisionInput) : Check :=
  match i.vaultState with
  | .shuttingDown => some (.vaultSealed, .vaultNotUnsealed "unseal")
  | _ => none

/-- The checks in their order. -/
def checks (p : NamespacePolicy) (i : PolicyDecisionInput) : List Check :=
  [checkUnsealRequired i, checkCrossNamespace p i, checkRateLimit p i, checkAllowedConsumers p i,
    checkTags p i, if i.op = .reveal then checkReveal p i else none,
    if i.op = .unseal then checkUnsealOpState i else none]

/-- The first denial wins. -/
def evaluate (p : NamespacePolicy) (i : PolicyDecisionInput) : PolicyDecision :=
  match (checks p i).findSome? id with
  | some (code, reason) => .deny code reason
  | none => .allow

end MerkleVault.Policy.Evaluator
