import MerkleVault.App.Host

/-! # Backup and Restore Commands

A backup holds the secrets of a namespace, encrypted to the master and the recovery recipient, with a
MAC over the ciphertext.  A restore plan says what to do with each handle that both sides have; the
plan is executed once, secret by secret, each written in a transaction of its own. -/

namespace MerkleVault.App.BackupCommands

open MerkleVault.Types MerkleVault.External MerkleVault.Lib.Program MerkleVault.Audit.Writer
open MerkleVault.Secrets.Aggregate MerkleVault.Sqlite.Tables MerkleVault.App.Context
open MerkleVault.App.Lifecycle MerkleVault.App.Host

variable (W : World)

/-! ### The master recipient -/

/-- The account of the backup master recipient. -/
def accountBackupMasterRecipient : String := "backup-master-recipient-v1"

/-- The account of the backup master identity. -/
def accountBackupMasterIdentity : String := "backup-master-identity-v1"

/-- A keychain item that holds an age string with the given start. -/
def ageText (item start : String) (bytes : List UInt8) : NodeHandler String := do
  let text ← ofExcept (fun e => .app (textFault ("backup master " ++ item ++ " is not utf-8: " ++ e)))
    (W.fromUtf8 bytes)
  let trimmed := trim text.toList
  if trimmed.isEmpty || !start.toList.isPrefixOf trimmed then
    failWith (textFault ("backup master " ++ item ++ " keychain entry is empty or invalid"))
  else return String.ofList trimmed

/-- `generate_and_store_master_identity`: the identity first, then its recipient. -/
def generateAndStoreMasterIdentity : NodeHandler String := do
  let identity ← vaultCall .generateAgeIdentity
  attempt (fun e => .app (keychainFault e)) (.app (.port (.keychainStore keychainService
    accountBackupMasterIdentity identity.toUTF8.data.toList)))
  attempt (fun e => .app (keychainFault e)) (.app (.port (.keychainStore keychainService
    accountBackupMasterRecipient (W.agePublic identity).toUTF8.data.toList)))
  return W.agePublic identity

/-- `ensure_master_recipient`. -/
def ensureMasterRecipient : NodeHandler String := do
  match ← portCall (.keychainRetrieve keychainService accountBackupMasterRecipient) with
  | .ok bytes => ageText W "recipient" "age1" bytes
  | .error .notFound => generateAndStoreMasterIdentity W
  | .error e => failWith (.keychain e)

/-- `load_master_identity`. -/
def loadMasterIdentity : NodeHandler String := do
  let _ ← ensureMasterRecipient W
  match ← portCall (.keychainRetrieve keychainService accountBackupMasterIdentity) with
  | .ok bytes => ageText W "identity" "AGE-SECRET-KEY-1" bytes
  | .error .notFound =>
    failWith (textFault "backup master age identity is not available in the keychain")
  | .error e => failWith (.keychain e)

/-! ### Backup -/

/-- The MAC over a backup's ciphertext. -/
def backupHmac (key : Key) (ciphertext : List UInt8) : HmacSignature := W.keyedHash key ciphertext

/-- `TriggerBackupCommand`. -/
structure TriggerBackupCommand where
  namespaceId : NamespaceId
  masterPubkeyRecipient : String
  recoveryPubkeyRecipient : String
  outputPath : String

namespace TriggerBackupCommand

/-- The wrapped Vault Root Key that a backup of version 2 carries. -/
def recoveryWrap : NodeHandler (Option (List UInt8)) := do
  match ← portCall (.keychainRetrieve keychainService accountVrkRecovery) with
  | .ok blob =>
    let age ← ofExcept (fun e => .app (textFault
      ("vrk-recovery keychain blob is not valid base64: " ++ e))) (W.base64Decode blob)
    return some age
  | .error .notFound => return none
  | .error e => failWith (.keychain e)

/-- The artifact, its record and the audit entry. -/
def persist (cmd : TriggerBackupCommand) (secretCount : UInt32) (ciphertext : List UInt8) :
    NodeHandler NodeReply := do
  let hmacKey ← runInContext requireHmacKey
  if 2 ^ 64 ≤ ciphertext.length then failWith (.invalidInput "ciphertext size overflows u64") else
  attempt .app (.vault (.persistArtifact cmd.outputPath ciphertext))
  let snapshotId ← call (.app .newUuid)
  let createdAt ← portCall .now
  let id ← call (.app .newUuid)
  let backup : Backup := ⟨id, cmd.namespaceId, snapshotId, cmd.outputPath,
    backupHmac W hmacKey ciphertext, UInt64.ofNat ciphertext.length, secretCount, createdAt⟩
  match ← vaultCall (.putBackup backup) with
  | .error e =>
    let _ ← portCall (.removeFile cmd.outputPath)
    failWith (.storage e)
  | .ok () =>
    runInContext (auditCommit { op := .backup, outcome := .allow, namespaceId := cmd.namespaceId
                                callerProgram := agent } hmacKey)
    return .backedUp backup

/-- `TriggerBackupCommand::execute`. -/
def execute (cmd : TriggerBackupCommand) : NodeHandler NodeReply := do
  runInContext requireUnsealed
  if (trim cmd.masterPubkeyRecipient.toList).isEmpty ||
      (trim cmd.recoveryPubkeyRecipient.toList).isEmpty then
    failWith (.invalidInput "backup recipients must not be empty")
  else if cmd.masterPubkeyRecipient = cmd.recoveryPubkeyRecipient then
    failWith (.invalidInput "backup requires distinct master and recovery age recipients")
  else
    let secrets ← listSecrets cmd.namespaceId
    if 2 ^ 32 ≤ secrets.length then failWith (.invalidInput "secret count overflows u32")
    else if secrets.length = 0 then failWith (.invalidInput "cannot back up an empty namespace")
    else
      let vrkRecoveryAge ← recoveryWrap W
      let plaintext ← ofExcept (fun e => .app (textFault ("serialization failed: " ++ e)))
        (W.encodeBackup ⟨vrkRecoveryAge, secrets⟩)
      let ciphertext ← attempt (fun e => .app (.crypto e)) (.app (.port (.ageEncrypt
        [cmd.masterPubkeyRecipient, cmd.recoveryPubkeyRecipient] plaintext)))
      persist W cmd (UInt32.ofNat secrets.length) ciphertext

end TriggerBackupCommand

/-! ### Restore plans -/

/-- How a restore treats a handle that is there already. -/
inductive RestoreMode
  | newestWinsExisting | newestWinsBackup | conflictHalt | mergePreserveBoth
deriving DecidableEq, Repr

/-- `resolve`, by the mode and the two times of creation. -/
def resolve (mode : RestoreMode) (backupTs vaultTs : Rfc3339Timestamp) : ConflictResolution :=
  match mode with
  | .conflictHalt => .halt
  | .mergePreserveBoth => .preserveBoth
  | .newestWinsBackup => if backupTs.lt vaultTs then .newestWinsExisting else .newestWinsBackup
  | .newestWinsExisting => if vaultTs.lt backupTs then .newestWinsBackup else .newestWinsExisting

/-- The conflicts that `RestorePlanner::plan` finds: the handles that both sides have. -/
def planConflicts (sourceBackupSecrets currentSecrets : List (Handle × Rfc3339Timestamp))
    (mode : RestoreMode) : List Conflict :=
  sourceBackupSecrets.filterMap fun (backupHandle, backupTs) =>
    (currentSecrets.find? fun (handle, _) => handle = backupHandle).map fun (_, vaultTs) =>
      ⟨backupHandle, resolve mode backupTs vaultTs⟩

/-! ### Restore -/

/-- `conflict_by_handle.get`: of several conflicts on a handle the last counts. -/
def resolutionFor (plan : RestorePlan) (handle : Handle) : Option ConflictResolution :=
  (plan.conflicts.reverse.find? fun c => c.handle = handle).map (·.resolution)

/-- The secret under `name-restored`, when that is a handle. -/
def suffixSecretHandle (secret : Secret) : Option Secret :=
  (Handle.fromStr (secret.handle.display ++ "-restored")).map fun handle =>
    { secret with handle := handle }

/-- What is written for a secret of the backup, given the handles that are live. -/
def restoredAs (plan : RestorePlan) (live : List Handle) (secret : Secret) : Option Secret :=
  match resolutionFor plan secret.handle with
  | none => some secret
  | some .newestWinsBackup => some secret
  | some .newestWinsExisting => none
  | some .preserveBoth => (suffixSecretHandle secret).filter fun s => s.handle ∉ live
  | some .halt => none

/-- The loop over the secrets of the backup; the count saturates. -/
def applySecrets (plan : RestorePlan) (live : List Handle) : List Secret → UInt32 → Handler UInt32
  | [], n => return n
  | secret :: rest, n =>
    match restoredAs plan live secret with
    | none => applySecrets plan live rest n
    | some s => do
      write (.putSecret s)
      applySecrets plan live rest (if n = UInt32.ofNat (2 ^ 32 - 1) then n else n + 1)

/-- The secrets of the backup file, its MAC checked; a mismatch is audited. -/
def readArtifact (backup : Backup) (namespaceId : NamespaceId) : NodeHandler (Key × List Secret) := do
  let ciphertext ← attempt (fun e => .app (textFault ("failed to read backup artifact: " ++ e)))
    (.app (.port (.readFile backup.artifactPath)))
  let hmacKey ← runInContext requireHmacKey
  if backupHmac W hmacKey ciphertext ≠ backup.hmac then
    runInContext (auditCommit { op := .restore, outcome := .deny, namespaceId := namespaceId
                                callerProgram := agent
                                denialReason := some ⟨"backup_integrity_check_failed"⟩ } hmacKey)
    throw .backupIntegrity
  else
    let identity ← loadMasterIdentity W
    let plaintext ← attempt (fun e => .app (.crypto e))
      (.app (.port (.ageDecrypt identity ciphertext)))
    let payload ← ofExcept (fun e => .app (textFault e)) (W.decodeBackup plaintext)
    return (hmacKey, payload.secrets)

/-- `ExecuteRestoreCommand`. -/
structure ExecuteRestoreCommand where
  planId : Uuid

namespace ExecuteRestoreCommand

/-- The plan, not expired, not applied and without a halt, and its namespace. -/
def checkedPlan (cmd : ExecuteRestoreCommand) : NodeHandler (RestorePlan × NamespaceId) := do
  let plan ← orThrow (.app .notFound) (← storageCall (.getRestorePlan cmd.planId))
  let now ← portCall .now
  if plan.isExpiredAt now then throw .restorePlanExpired
  else if (← storageCall (.restorePlanAppliedAt cmd.planId)).isSome then
    throw .restorePlanAlreadyApplied
  else if plan.hasHaltConflict then
    failWith (.invalidInput "restore plan has halt conflicts; refuse apply")
  else
    let namespaceId ← orThrow (.app (textFault "restore plan missing target_namespace"))
      plan.targetNamespace
    return (plan, namespaceId)

/-- `ExecuteRestoreCommand::execute`. -/
def execute (cmd : ExecuteRestoreCommand) : NodeHandler NodeReply := do
  runInContext requireUnsealed
  let (plan, namespaceId) ← cmd.checkedPlan
  let backups ← storageCall (.listBackups namespaceId)
  let backup ← orThrow (.app .notFound) (backups.find? fun b => b.snapshotId = plan.sourceBackupId)
  let (hmacKey, backupSecrets) ← readArtifact W backup namespaceId
  let live ← listSecrets namespaceId
  let restored ← runInContext (applySecrets plan (live.map (·.handle)) backupSecrets 0)
  let appliedAt ← portCall .now
  storageCall (.markRestorePlanApplied cmd.planId appliedAt)
  runInContext (auditCommit { op := .restore, outcome := .allow, namespaceId := namespaceId
                              callerProgram := agent } hmacKey)
  return .restored restored namespaceId

end ExecuteRestoreCommand

end MerkleVault.App.BackupCommands
