import MerkleVault.App.Context

/-! # Unseal, Seal and Disaster Recovery

The three commands that move the vault between its states.  The lifecycle state and the audit key
sit behind two locks: an unseal publishes the key and then completes, a seal clears the key, reads
the pinned head back, and then seals. -/

namespace MerkleVault.App.Lifecycle

open MerkleVault.Types MerkleVault.Lib.Program MerkleVault.Identity MerkleVault.Audit.Writer
open MerkleVault.Secrets.Aggregate MerkleVault.App.Context

/-! ### Constants -/

/-- The keychain service of the vault. -/
def keychainService : String := "dev.fapp.merkle"

/-- The account of the master key. -/
def accountMasterKey : String := "master-v1"

/-- The account of the root key's wrap under the master key. -/
def accountVrkMaster : String := "vrk-master-v1"

/-- The account of the root key's wrap to the recovery recipient. -/
def accountVrkRecovery : String := "vrk-recovery-v1"

/-- The account of the passphrase parameters. -/
def accountArgon2Params : String := "master-argon2-params-v1"

/-- The account of the master key's wrap under a passphrase. -/
def accountMasterPassphraseWrap : String := "master-passphrase-wrap-v1"

/-- The associated data of the wrap of the root key. -/
def vrkMasterAad : List UInt8 := "vault-root-key".toUTF8.data.toList

/-- The associated data of the wrap of the master key. -/
def masterPassphraseAad : List UInt8 := "merkle master passphrase wrap v1".toUTF8.data.toList

/-- The text that the audit key is derived with. -/
def auditHmacKeyDomain : List UInt8 := "merkle vault hmac key v1".toUTF8.data.toList

/-- The bytes of a nonce. -/
def nonceLen : Nat := 24

variable (E : Env)

/-- `derive_audit_hmac_key`. -/
def deriveAuditHmacKey (vrk : Key) : Key := E.blake3Keyed vrk auditHmacKeyDomain

/-! ### Unseal -/

/-- `nonce[24] || ciphertext`, with something after the nonce. -/
def splitNonce (wrapped : List UInt8) : Option (Vector UInt8 24 × List UInt8) :=
  if h : nonceLen < wrapped.length then
    some (⟨(wrapped.take 24).toArray, by simp [nonceLen] at h ⊢; omega⟩, wrapped.drop 24)
  else none

/-- `Display` of a crypto error. -/
def CryptoError.display : CryptoError → String
  | .aeadVerifyFailed => "AEAD verify failed"
  | .invalidKeyLength expected got =>
    "invalid key length: expected " ++ toString expected ++ ", got " ++ toString got
  | .invalidArgon2idParams => "invalid argon2id params"
  | .eciesDecryptFailed => "ecies decrypt failed"
  | .signatureVerifyFailed => "signature verify failed"
  | .age detail => "age error: " ++ detail
  | .backend detail => "backend: " ++ detail

/-- The error of a keychain item that passphrase unseal needs. -/
def passphraseItemError (missing : String) : KeychainError → AppError
  | .notFound => .invalidInput missing
  | e => .keychain e

/-- The master key by the stored parameters and wrap of a passphrase. -/
def loadMasterViaPassphrase (passphrase : String) : Handler Key := do
  if passphrase.isEmpty then throw (.invalidInput "passphrase must not be empty") else
  let paramsJson ← attempt
    (passphraseItemError "passphrase_params_not_configured: enroll passphrase fallback first")
    (.port (.keychainRetrieve keychainService accountArgon2Params))
  let params ← ofExcept textFault (E.argon2ParamsOfJson paramsJson)
  let kdfKey ← attempt .crypto (.port (.argon2idDerive passphrase params))
  let wrapB64 ← attempt
    (passphraseItemError "passphrase_wrap_not_configured: enroll passphrase fallback first")
    (.port (.keychainRetrieve keychainService accountMasterPassphraseWrap))
  let wrap ← ofExcept (fun e => .invalidInput ("passphrase wrap b64: " ++ e))
    (E.base64Decode wrapB64)
  let (nonce, ciphertext) ← orThrow (.invalidInput "passphrase wrap too short") (splitNonce wrap)
  let master ← ofExcept
    (fun _ => .policyDenied "unseal_authentication_failed: bad passphrase")
    (E.aeadDecrypt kdfKey nonce ciphertext masterPassphraseAad)
  orThrow (.invalidInput "unwrapped master wrong length") (keyOfSlice master)

/-- The master key, by the passphrase where there is one. -/
def loadMasterKey : Option String → Handler (Key × UnsealKeyMethod)
  | some passphrase => do return (← loadMasterViaPassphrase E passphrase, .argon2idPassphrase)
  | none => do
    let (service, account) ← call (.port .masterKeyKeychainRef)
    let bytes ← attempt .keychain (.port (.keychainRetrieve service account))
    let master ← orThrow (.invalidInput "master key has wrong length") (keyOfSlice bytes)
    return (master, .keychain)

/-- The Vault Root Key, the audit key derived from it, and where the master key came from. -/
def fetchKeyMaterial (passphrase : Option String) : Handler (Key × Key × UnsealKeyMethod) := do
  let (master, method) ← loadMasterKey E passphrase
  let wrappedB64 ← attempt .keychain (.port (.keychainRetrieve keychainService accountVrkMaster))
  let wrapped ← ofExcept (fun e => .invalidInput ("wrapped VRK is not valid base64: " ++ e))
    (E.base64Decode wrappedB64)
  let (nonce, ciphertext) ← orThrow
    (.invalidInput "wrapped VRK blob is too short to contain a nonce") (splitNonce wrapped)
  let vrkVec ← ofExcept
    (fun e => textFault ("failed to unwrap vault root key: " ++ CryptoError.display e))
    (E.aeadDecrypt master nonce ciphertext vrkMasterAad)
  let vrk ← orThrow (.invalidInput "unwrapped VRK has wrong length") (keyOfSlice vrkVec)
  return (vrk, deriveAuditHmacKey E vrk, method)

/-- `rollback_to_sealed`. -/
def rollbackToSealed : Handler Unit := do
  call (.identity .rollbackUnsealing)
  call (.writeHmacKey none)

/-- Publish the audit key, then flip the state; on failure the state is reverted and the key
cleared. -/
def commitUnseal (vrk hmacKey : Key) : Handler Unit := do
  call (.writeHmacKey (some hmacKey))
  match ← call (.identity (.completeUnseal vrk)) with
  | .ok () => return ()
  | .error e =>
    call (.writeHmacKey none)
    throw (identityFault e)

/-- `UnsealVaultCommand`. -/
structure UnsealVaultCommand where
  preconditions : UnsealPreconditions
  passphrase : Option String

/-- A vault that is unsealed answers at once; a failure on the way rolls back. -/
def UnsealVaultCommand.execute (cmd : UnsealVaultCommand) : Handler Reply := do
  let already ← attempt identityFault (.identity (.beginUnseal cmd.preconditions))
  if already then
    return .unsealed true (if cmd.passphrase.isSome then .argon2idPassphrase else .keychain)
  else
    match ← resultOf (fetchKeyMaterial E cmd.passphrase) with
    | .error e =>
      rollbackToSealed
      throw e
    | .ok (vrk, hmacKey, method) =>
      commitUnseal vrk hmacKey
      let ns ← newNamespaceId
      auditCommit { op := .unseal, outcome := .allow, namespaceId := ns, callerProgram := agent }
        hmacKey
      return .unsealed false method

/-! ### Seal -/

/-- The final entry, written while the key is still there; a failure does not stop the seal. -/
def auditSeal : Option Key → Handler Unit
  | none => return ()
  | some key => do
    let ns ← newNamespaceId
    let _ ← resultOf (auditCommit
      { op := .seal, outcome := .allow, namespaceId := ns, callerProgram := agent } key)
    return ()

/-- `SealVaultCommand::execute`: the entry first, then the keys. -/
def sealVaultExecute : Handler Reply := do
  requireUnsealed
  auditSeal (← call .readHmacKey)
  call (.writeHmacKey none)
  let pinned ← query .pinnedHead
  call (.installHead pinned)
  attempt identityFault (.identity .sealVault)
  return .sealed

/-! ### Disaster recovery -/

/-- `DisasterRecoverCommand`. -/
structure DisasterRecoverCommand where
  recoveryIdentity : String
  backupPath : String

/-- The text that is encrypted to the stored recipient to compare identities. -/
def sentinel : List UInt8 := "merkle-disaster-recovery-verify".toUTF8.data.toList

/-- `recovery_identity_matches`: what is encrypted to the recipient is opened. -/
def recoveryIdentityMatches (identity storedPubkey : String) : Handler Bool := do
  let ciphertext ← attempt .crypto (.port (.ageEncrypt [storedPubkey] sentinel))
  match ← call (.port (.ageDecrypt identity ciphertext)) with
  | .ok _ => return true
  | .error _ => return false

/-- The denial is audited when there is a key; failures of that are ignored. -/
def auditFingerprintMismatch : Handler Unit := do
  match ← call .readHmacKey with
  | none => return ()
  | some key =>
    let ns ← newNamespaceId
    let _ ← resultOf (auditCommit
      { op := .disasterRecovery, outcome := .deny, namespaceId := ns, callerProgram := agent
        denialReason := some ⟨"recovery_key_fingerprint_mismatch"⟩ } key)
    return ()

/-- Store a keychain item; when that fails, delete the items stored before. -/
def storeOrUndo (account : String) (value : List UInt8) (undo : List String) : Handler Unit := do
  match ← call (.port (.keychainStore keychainService account value)) with
  | .ok () => return ()
  | .error e =>
    undo.forM fun a => do
      let _ ← call (.port (.keychainDelete keychainService a))
      return ()
    throw (keychainFault e)

/-- A fresh master key, and the Vault Root Key wrapped under it and for the recovery recipient. -/
def rewrap (vrk : Key) (storedPubkey : String) : Handler Unit := do
  let master ← call (.port .randomBytes32)
  attempt keychainFault (.port (.keychainStore keychainService accountMasterKey master.toList))
  let nonce ← call (.port .randomBytes24)
  let wrapped ← ofExcept .crypto (E.aeadEncrypt master nonce vrk.toList vrkMasterAad)
  storeOrUndo accountVrkMaster (E.base64Encode (nonce.toList ++ wrapped)) [accountMasterKey]
  let forRecovery ← attempt .crypto (.port (.ageEncrypt [storedPubkey] vrk.toList))
  storeOrUndo accountVrkRecovery (E.base64Encode forRecovery) [accountMasterKey, accountVrkMaster]

/-- Every secret of the backup is written; the count saturates. -/
def rehydrate : List Secret → UInt32 → Handler UInt32
  | [], n => return n
  | s :: rest, n => do
    write (.putSecret s)
    rehydrate rest (if n = UInt32.ofNat (2 ^ 32 - 1) then n else n + 1)

/-- The Vault Root Key and the secrets of the backup file. -/
def readBackup (cmd : DisasterRecoverCommand) : Handler (Key × List Secret) := do
  let ciphertext ← attempt (fun e => textFault ("failed to read backup: " ++ e))
    (.port (.readFile cmd.backupPath))
  let plaintext ← attempt .crypto (.port (.ageDecrypt cmd.recoveryIdentity ciphertext))
  let payload ← ofExcept textFault (E.decodeBackup plaintext)
  let vrkAge ← orThrow (textFault
    "backup is not v2 (missing recovery-wrapped VRK); cannot disaster-recover") payload.vrkRecoveryAge
  let vrkVec ← attempt .crypto (.port (.ageDecrypt cmd.recoveryIdentity vrkAge))
  let vrk ← orThrow (textFault "recovered VRK has wrong length") (keyOfSlice vrkVec)
  return (vrk, payload.secrets)

/-- `DisasterRecoverCommand::execute`. -/
def DisasterRecoverCommand.execute (cmd : DisasterRecoverCommand) : Handler Reply := do
  if (trim cmd.recoveryIdentity.toList).isEmpty then
    throw (.invalidInput "recovery_identity must not be empty")
  else if cmd.backupPath.isEmpty then throw (.invalidInput "backup_path must not be empty")
  else
    let storedPubkey ← call (.port .recoveryPubkey)
    if ← recoveryIdentityMatches cmd.recoveryIdentity storedPubkey then
      let (vrk, secrets) ← readBackup E cmd
      rewrap E vrk storedPubkey
      let restored ← rehydrate secrets 0
      call (.writeHmacKey (some (deriveAuditHmacKey E vrk)))
      attempt identityFault (.identity (.recover vrk))
      let ns ← newNamespaceId
      auditCommit
        { op := .disasterRecovery, outcome := .allow, namespaceId := ns, callerProgram := agent }
        (deriveAuditHmacKey E vrk)
      return .recovered restored
    else
      auditFingerprintMismatch
      throw (.invalidInput "recovery_key_fingerprint_mismatch")

end MerkleVault.App.Lifecycle
