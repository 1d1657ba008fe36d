import MerkleVault.Socket.Gate
import MerkleVault.App.Reveal

/-! # The Handlers of the Companion Socket

Put, rotate, rollback, delete and reveal over HTTP.  Each handler parses the request, passes the
consumer gate of a namespace, derives the data key of a namespace from the audit key and runs its
command.  Which namespace that is differs: the one in the path for put, rotate, rollback and delete,
the one of the stored secret for reveal. -/

namespace MerkleVault.Socket.Handlers

open MerkleVault.Types MerkleVault.Lib.Program MerkleVault.Identity MerkleVault.Secrets.Aggregate
open MerkleVault.Sqlite.Tables MerkleVault.App.Context MerkleVault.App.SecretCommands
open MerkleVault.App.Reveal MerkleVault.Socket.Gate

variable (E : Env)

/-- The reply of a command with what the handler adds to it. -/
structure Response where
  reply : Reply
  handle : Option Handle
  at_ : Option Rfc3339Timestamp
  versions : Option UInt32

/-! ### Parts that the handlers share -/

/-- A path that is no namespace id. -/
def invalidNsIdProblem : Problem := .details
  ⟨.namespaceNotFound, "Invalid namespace ID", 400, "Path segment is not a valid UUIDv7.", none, none⟩

/-- `parse_handle_encoded`. -/
def parseHandleEncoded (raw : String) : Except Problem Handle :=
  match Handle.fromStr raw with
  | some handle => .ok handle
  | none => .error (.details ⟨.handleNotFound, "Invalid handle URI", 400,
      "'" ++ raw ++ "' is not a valid vault:// URI.", none,
      some "Handles must be URL-encoded vault:// URIs, e.g. vault%3A%2F%2Fns%2Fssh%2Fkey."⟩)

/-- The data key of a namespace under an audit key. -/
def namespaceDek (hmacKey : Key) (namespaceId : NamespaceId) : Key :=
  E.blake3Keyed hmacKey namespaceId.inner.toList

/-- `derive_dek_bytes`. -/
def deriveDekBytes (namespaceId : NamespaceId) : SocketHandler Key := do
  let hmacKey ← runApp requireHmacKey
  return namespaceDek E hmacKey namespaceId

/-- `u32::try_from(len).unwrap_or(u32::MAX)`. -/
def countU32 (n : Nat) : UInt32 := if n < 2 ^ 32 then UInt32.ofNat n else UInt32.ofNat (2 ^ 32 - 1)

/-- The number of versions of a secret; none when it cannot be read. -/
def secretVersionCount (handle : Handle) : SocketHandler UInt32 := do
  match ← runApp (resultOf (getSecretByHandle handle)) with
  | .ok (some secret) => return countU32 secret.versions.length
  | _ => return 0

/-! ### Put -/

/-- The path and body of a put. -/
structure PutSecretRequest where
  namespaceId : Uuid
  name : String
  category : String
  value : String
  valueFormat : ValueFormat
  tags : List (String × String)
  sensitivity : Option Sensitivity
  description : Option String
  expose : Bool

/-- `tags_from_dto`: tags that do not parse are dropped. -/
def tagsFromDto (tags : List (String × String)) : List Tag :=
  tags.filterMap fun (key, value) => do
    let key ← TagKey.fromStr key
    if tagValueRe value then return ⟨key, value⟩ else none

/-- `as_bytes` of a text. -/
def textBytes (text : String) : List UInt8 := text.toUTF8.data.toList

/-- The handler of a put. -/
def putSecret (peer : PeerCredentials) (q : PutSecretRequest) : SocketHandler Response := do
  let namespaceId ← orThrow invalidNsIdProblem (NamespaceId.ofUuid q.namespaceId)
  check namespaceId peer
  let category ← orThrow (.details ⟨.categoryNotRegistered, "Unknown category", 400,
    "'" ++ q.category ++ "' is not a registered category name.", none, none⟩)
    (CategoryName.fromStr q.category)
  -- The label of the bound namespace is the first segment of the handle.
  let ns ← runApp (query (.getNamespaceById namespaceId))
  let ns ← orThrow (.details ⟨.namespaceNotFound, "Namespace not found", 404,
    "No namespace with id '" ++ E.hyphenated namespaceId.inner ++ "' exists.", none,
    some "Run vault.bind to create a namespace before storing secrets."⟩) ns
  let secretName ← orThrow (.details ⟨.schemaValidationFailed, "Invalid secret name", 400,
    "'" ++ q.name ++ "' is not a valid secret name.", none, none⟩) (SecretName.fromStr q.name)
  let handle : Handle := ⟨ns.label, category, secretName⟩
  let dekBytes ← deriveDekBytes E namespaceId
  let cmd : PutSecretCommand :=
    { namespaceId := namespaceId, handle := handle, category := category
      sensitivity := q.sensitivity.getD .medium, tags := tagsFromDto q.tags
      description := q.description, exposeMetadata := q.expose, plaintext := textBytes q.value
      valueFormat := q.valueFormat, dekVersion := 1, dekBytes := dekBytes }
  let reply ← runApp (cmd.execute E)
  return ⟨reply, some handle, some (← call (.port .now)), some 1⟩

/-! ### Rotate, rollback and delete -/

/-- The path and body of a rotation. -/
structure RotateSecretRequest where
  namespaceId : Uuid
  handleEncoded : String
  newValue : String
  valueFormat : ValueFormat

/-- The handler of a rotation. -/
def rotateSecret (peer : PeerCredentials) (q : RotateSecretRequest) : SocketHandler Response := do
  let namespaceId ← orThrow invalidNsIdProblem (NamespaceId.ofUuid q.namespaceId)
  check namespaceId peer
  let handle ← ofExcept id (parseHandleEncoded q.handleEncoded)
  let dekBytes ← deriveDekBytes E namespaceId
  let cmd : RotateSecretCommand :=
    ⟨namespaceId, handle, textBytes q.newValue, q.valueFormat, 1, dekBytes⟩
  let reply ← runApp (cmd.execute E)
  let versionsRetained ← secretVersionCount handle
  return ⟨reply, some handle, some (← call (.port .now)), some versionsRetained⟩

/-- The gate of the two handlers that need a slash command. -/
def requireSlash (slashCommand : Bool) (operation command purpose : String) : SocketHandler Unit :=
  if slashCommand then return ()
  else throw (.details ⟨.operatorConfirmationRequired, "Operator confirmation required", 403,
    "operator_confirmation.slash_command must be true for " ++ operation ++ " operations.", none,
    some ("Issue `" ++ command ++ "` in Claude Code to authorize this " ++ purpose ++ ".")⟩)

/-- The path and body of a rollback. -/
structure RollbackSecretRequest where
  namespaceId : Uuid
  handleEncoded : String
  targetVersion : UInt32
  slashCommand : Bool

/-- The handler of a rollback. -/
def rollbackSecret (peer : PeerCredentials) (q : RollbackSecretRequest) :
    SocketHandler Response := do
  let namespaceId ← orThrow invalidNsIdProblem (NamespaceId.ofUuid q.namespaceId)
  check namespaceId peer
  let handle ← ofExcept id (parseHandleEncoded q.handleEncoded)
  requireSlash q.slashCommand "rollback" "/merkle-rollback" "rollback"
  let cmd : RollbackSecretCommand := ⟨namespaceId, handle, q.targetVersion, q.slashCommand⟩
  let reply ← runApp cmd.execute
  return ⟨reply, some handle, some (← call (.port .now)), none⟩

/-- The path and body of a delete. -/
structure DeleteSecretRequest where
  namespaceId : Uuid
  handleEncoded : String
  slashCommand : Bool

/-- The handler of a delete. -/
def deleteSecret (peer : PeerCredentials) (q : DeleteSecretRequest) : SocketHandler Response := do
  let namespaceId ← orThrow invalidNsIdProblem (NamespaceId.ofUuid q.namespaceId)
  check namespaceId peer
  let handle ← ofExcept id (parseHandleEncoded q.handleEncoded)
  requireSlash q.slashCommand "delete" "/merkle-delete" "deletion"
  let versionsRemoved ← secretVersionCount handle
  let cmd : DeleteSecretCommand := ⟨namespaceId, handle, q.slashCommand⟩
  let reply ← runApp cmd.execute
  return ⟨reply, none, none, some versionsRemoved⟩

/-! ### Reveal -/

/-- The body of a reveal. -/
structure RevealRequest where
  handle : Handle
  slashCommand : Bool
  oobChannel : Option OobChannel

/-- The reveal itself, by the policy of the namespace. -/
def executeReveal (handle : Handle) (namespaceId : NamespaceId) (sensitivity : Sensitivity)
    (oobChannel : OobChannel) (dekBytes : Key) : SocketHandler Response := do
  let policy ← runApp (query (.getNamespacePolicy namespaceId))
  let policy := policy.getD (.balanced namespaceId)
  if !policy.reveal.allowed then
    throw (.app (.policyDenied "reveal is disabled for this namespace by policy")) else
  let devices ← runApp (query .listCompanionDevices)
  let companionDevice := devices.find? fun d => d.revokedAt.isNone
  let requiredDeviceClass := (companionDevice.map (·.deviceClass)).getD .software
  let cmd : RevealSecretCommand :=
    { namespaceId := namespaceId, handle := handle, operatorConfirmation := ⟨true, false, none⟩
      challengeId := none, sensitivity := sensitivity
      oobThreshold := policy.reveal.requireOobAbove, securityProfile := policy.securityProfile
      dekBytes := dekBytes, companionDevice := companionDevice, oobChannel := oobChannel
      oobTimeout := 120, requiredDeviceClass := requiredDeviceClass }
  let reply ← runApp (cmd.execute E)
  return ⟨reply, some handle, some (← call (.port .now)), none⟩

/-- A reveal without a slash command. -/
def slashRequiredForReveal : Problem := .details
  ⟨.operatorConfirmationRequired, "Operator confirmation required", 403,
    "operator_confirmation.slash_command must be true. Issue `/merkle-reveal` in Claude Code to authorize this reveal.",
    some "/v1/reveal",
    some "Type `/merkle-reveal <handle>` in the Claude Code interface to trigger the slash-command confirmation path."⟩

/-- The handler of a reveal. -/
def reveal (peer : PeerCredentials) (q : RevealRequest) : SocketHandler Response := do
  if !q.slashCommand then throw slashRequiredForReveal else
  runApp requireUnsealed
  let secret ← runApp (loadSecret q.handle)
  check secret.namespaceId peer
  let dekBytes ← deriveDekBytes E secret.namespaceId
  executeReveal E q.handle secret.namespaceId secret.sensitivity (q.oobChannel.getD .desktopNotif)
    dekBytes

end MerkleVault.Socket.Handlers
