import MerkleVault.App.Context

/-! # The Commands that Change Secrets and Namespaces

Put, rotate, rollback, delete and bind.  Each persists its change in one transaction, then reads the
audit key and commits the `Allow` entry of the change. -/

namespace MerkleVault.App.SecretCommands

open MerkleVault.Types MerkleVault.Lib.Program MerkleVault.Audit.Writer
open MerkleVault.Secrets.Aggregate MerkleVault.Sqlite.Tables MerkleVault.App.Context

variable (E : Env)

/-! ### Payloads -/

/-- How a client writes a value. -/
inductive ValueFormat
  | utf8 | base64
deriving DecidableEq, Repr

/-- `decode_payload`. -/
def decodePayload (format : ValueFormat) (plaintext : List UInt8) : Handler (List UInt8) :=
  match format with
  | .utf8 => pure plaintext
  | .base64 => ofExcept (fun e => .invalidInput ("base64 decode failed: " ++ e))
      (E.base64Decode plaintext)

/-- The associated data of a secret's ciphertexts: its handle's URI. -/
def handleAad (handle : Handle) : List UInt8 := handle.display.toUTF8.data.toList

/-- The last sixteen bytes as the tag, the rest as the ciphertext. -/
def splitTag (ciphertext : List UInt8) : Option (List UInt8 × Vector UInt8 16) :=
  if h : 16 ≤ ciphertext.length then
    some (ciphertext.take (ciphertext.length - 16),
      ⟨(ciphertext.drop (ciphertext.length - 16)).toArray, by simp; omega⟩)
  else none

/-- `encrypt_blob`: the value under a fresh nonce, bound to its handle. -/
def encryptBlob (dek : Key) (handle : Handle) (plaintext : List UInt8) : Handler PrivateBlob := do
  let nonce ← call (.port .randomBytes24)
  let ciphertext ← ofExcept .crypto (E.aeadEncrypt dek nonce plaintext (handleAad handle))
  let (body, tag) ← orThrow (.crypto .aeadVerifyFailed) (splitTag ciphertext)
  return ⟨body, nonce, tag, handleAad handle⟩

/-- The active version's blob decrypted, as every reading path does it. -/
def decryptBlob (dek : Key) (blob : PrivateBlob) : Except CryptoError (List UInt8) :=
  E.aeadDecrypt dek blob.nonce (blob.ciphertext ++ blob.aeadTag.toList) blob.associatedData

section Still

variable {M : Type*} {R : Rules Op M} {E}

theorem still_requireUnsealed (h : Idle R (.identity .isUnsealed)) : Still R requireUnsealed := by
  refine still_bind (still_call h) fun b => ?_
  split
  · exact still_pure ()
  · exact still_throw _

theorem still_decodePayload (format : ValueFormat) (plaintext : List UInt8) :
    Still R (decodePayload E format plaintext) := by
  cases format with
  | utf8 => exact still_pure _
  | base64 => exact still_ofExcept _ _

theorem still_encryptBlob (h : Idle R (.port .randomBytes24)) (dek : Key) (handle : Handle)
    (plaintext : List UInt8) : Still R (encryptBlob E dek handle plaintext) := by
  refine still_bind (still_call h) fun nonce => ?_
  refine still_bind (still_ofExcept _ _) fun ciphertext => ?_
  exact still_bind (still_orThrow _ _) fun _ => still_pure _

end Still

/-! ### Put -/

/-- `PutSecretCommand`. -/
structure PutSecretCommand where
  namespaceId : NamespaceId
  handle : Handle
  category : CategoryName
  sensitivity : Sensitivity
  tags : List Tag
  description : Option String
  exposeMetadata : Bool
  plaintext : List UInt8
  valueFormat : ValueFormat
  dekVersion : UInt32
  dekBytes : Key

/-- The entry of a put. -/
def PutSecretCommand.allow (cmd : PutSecretCommand) : AppendParams :=
  { op := .put, outcome := .allow, namespaceId := cmd.namespaceId, handle := some cmd.handle
    sensitivity := some cmd.sensitivity, callerProgram := agent }

/-- `PutSecretCommand::execute`: encrypt, write, then the entry. -/
def PutSecretCommand.execute (cmd : PutSecretCommand) : Handler Reply := do
  requireUnsealed
  let decoded ← decodePayload E cmd.valueFormat cmd.plaintext
  let blob ← encryptBlob E cmd.dekBytes cmd.handle decoded
  -- The version carries a placeholder for the identifier that the aggregate draws itself.
  let placeholder ← call .newUuid
  let versionId ← call .newUuid
  let versionTime ← call (.port .now)
  let version : SecretVersion :=
    ⟨⟨versionId⟩, ⟨placeholder⟩, 1, blob, cmd.dekVersion, versionTime, none⟩
  let secretId ← call .newUuid
  let now ← call (.port .now)
  let secret ← ofExcept secretFault (Secret.new cmd.namespaceId cmd.handle cmd.category
    cmd.sensitivity cmd.tags ⟨cmd.description, cmd.exposeMetadata⟩ version
    ⟨⟨secretId⟩, ⟨versionId⟩, now⟩)
  write (.putSecret secret)
  let hmacKey ← requireHmacKey
  auditCommit cmd.allow hmacKey
  return .put secret.id cmd.handle

/-! ### Rotate and rollback -/

/-- `RotateSecretCommand`. -/
structure RotateSecretCommand where
  namespaceId : NamespaceId
  handle : Handle
  plaintext : List UInt8
  valueFormat : ValueFormat
  dekVersion : UInt32
  dekBytes : Key

/-- The entry of a rotation or a rollback. -/
def rotated (namespaceId : NamespaceId) (handle : Handle) (sensitivity : Sensitivity) :
    AppendParams :=
  { op := .rotate, outcome := .allow, namespaceId := namespaceId, handle := some handle
    sensitivity := some sensitivity, callerProgram := agent }

/-- The secret of a handle, or `NotFound`. -/
def loadSecret (handle : Handle) : Handler Secret := do
  orThrow .notFound (← getSecretByHandle handle)

/-- `RotateSecretCommand::execute`: a new version on top of the loaded secret. -/
def RotateSecretCommand.execute (cmd : RotateSecretCommand) : Handler Reply := do
  requireUnsealed
  let secret ← loadSecret cmd.handle
  let decoded ← decodePayload E cmd.valueFormat cmd.plaintext
  let blob ← encryptBlob E cmd.dekBytes cmd.handle decoded
  let newVersionNo := maxVersionNo secret.versions + 1
  let versionId ← call .newUuid
  let versionTime ← call (.port .now)
  let version : SecretVersion :=
    ⟨⟨versionId⟩, secret.id, newVersionNo, blob, cmd.dekVersion, versionTime, none⟩
  let now ← call (.port .now)
  let secret ← ofExcept secretFault (secret.rotate version retainCount now)
  write (.putSecret secret)
  let hmacKey ← requireHmacKey
  auditCommit (rotated cmd.namespaceId cmd.handle secret.sensitivity) hmacKey
  return .rotated newVersionNo

/-- `RollbackSecretCommand`. -/
structure RollbackSecretCommand where
  namespaceId : NamespaceId
  handle : Handle
  targetVersion : UInt32
  slashCommand : Bool

/-- A denial of the agent's own policy gates: audited, then returned. -/
def deny {α : Type} (op : Types.AuditOp) (namespaceId : NamespaceId) (handle : Handle)
    (sensitivity : Sensitivity) (reason : String) (e : AppError) : Handler α := do
  let hmacKey ← requireHmacKey
  auditCommit { op := op, outcome := .deny, namespaceId := namespaceId, handle := some handle
                sensitivity := some sensitivity, denialReason := some ⟨reason⟩
                callerProgram := agent } hmacKey
  throw e

/-- `RollbackSecretCommand::execute`: only with a slash command. -/
def RollbackSecretCommand.execute (cmd : RollbackSecretCommand) : Handler Reply := do
  requireUnsealed
  let secret ← loadSecret cmd.handle
  if !cmd.slashCommand then
    deny .rotate cmd.namespaceId cmd.handle secret.sensitivity
      "operator confirmation required for secret rollback"
      (.policyDenied "operator confirmation required for secret rollback")
  else
    let versionId ← call .newUuid
    let now ← call (.port .now)
    let activeVersion := maxVersionNo secret.versions + 1
    let secret ← ofExcept secretFault
      (secret.rollbackTo cmd.targetVersion retainCount ⟨secret.id, ⟨versionId⟩, now⟩)
    write (.putSecret secret)
    let hmacKey ← requireHmacKey
    auditCommit (rotated cmd.namespaceId cmd.handle secret.sensitivity) hmacKey
    return .rolledBack activeVersion

/-! ### Delete -/

/-- `DeleteSecretCommand`. -/
structure DeleteSecretCommand where
  namespaceId : NamespaceId
  handle : Handle
  slashCommand : Bool

/-- The entry of a delete. -/
def DeleteSecretCommand.allow (cmd : DeleteSecretCommand) (sensitivity : Sensitivity) :
    AppendParams :=
  { op := .delete, outcome := .allow, namespaceId := cmd.namespaceId, handle := some cmd.handle
    sensitivity := some sensitivity, callerProgram := agent }

/-- `DeleteSecretCommand::execute`: a high secret only with a slash command. -/
def DeleteSecretCommand.execute (cmd : DeleteSecretCommand) : Handler Reply := do
  requireUnsealed
  let secret ← loadSecret cmd.handle
  if Sensitivity.high.rank ≤ secret.sensitivity.rank ∧ !cmd.slashCommand then
    deny .delete cmd.namespaceId cmd.handle secret.sensitivity
      "operator confirmation required for critical-sensitivity delete"
      (.policyDenied "operator confirmation required for critical-sensitivity delete")
  else
    write (.deleteSecret secret.id)
    let hmacKey ← requireHmacKey
    auditCommit (cmd.allow secret.sensitivity) hmacKey
    return .deleted cmd.handle

/-! ### Bind -/

/-- `BindNamespaceCommand`. -/
structure BindNamespaceCommand where
  label : NamespaceLabel
  cwdHash : Option String
  dekVersion : UInt32

/-- Give a namespace the default policy when it has none. -/
def repairPolicy (id : NamespaceId) : Handler Unit := do
  match ← query (.getNamespacePolicy id) with
  | some _ => return ()
  | none => write (.putNamespacePolicy (.balanced id))

/-- The entry of a bind. -/
def bound (id : NamespaceId) : AppendParams :=
  { op := .bind, outcome := .allow, namespaceId := id, callerProgram := agent }

/-- `BindNamespaceCommand::execute`: a label that is bound keeps its namespace. -/
def BindNamespaceCommand.execute (cmd : BindNamespaceCommand) : Handler Reply := do
  requireUnsealed
  if cmd.dekVersion = 0 then throw (.invalidInput "dek_version must be >= 1") else
  match ← query (.getNamespaceByLabel cmd.label) with
  | some existing =>
    repairPolicy existing.id
    return .bound existing.id existing.label
  | none =>
    let id ← newNamespaceId
    let now ← call (.port .now)
    write (.putNamespace ⟨id, cmd.label, cmd.cwdHash, cmd.dekVersion, now⟩)
    write (.putNamespacePolicy (.balanced id))
    let hmacKey ← requireHmacKey
    auditCommit (bound id) hmacKey
    return .bound id cmd.label

end MerkleVault.App.SecretCommands
