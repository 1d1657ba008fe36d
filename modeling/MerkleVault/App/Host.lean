import MerkleVault.App.IdentitySections
import MerkleVault.Sqlite.Retention

/-! # The Agent with its Keychain, Files and Plans

The context of `App.Context` answers for the ports with anything.  Here the keychain, the files, the
backups and the restore plans are part of the state, the ciphers and codecs are functions, and the
calls may still fail.  Programs over the actions of the context are embedded.

* `World`, `World.Lawful`: the functions outside the repository, and what their documentation says;
* `Node`, `nodeExec`: the state and what an action may answer and leave;
* `appExec_exec`: the actions of the context do to the context what `exec` says. -/

namespace MerkleVault.App.Host

open MerkleVault.Types MerkleVault.External MerkleVault.Lib.Program MerkleVault.Audit.Writer
open MerkleVault.Secrets.Aggregate MerkleVault.Sqlite.Tables MerkleVault.Sqlite.Retention
open MerkleVault.App.Context MerkleVault.App.Lifecycle MerkleVault.App.IdentitySections

/-! ### The functions outside -/

/-- The environment, with age, Argon2id and the encodings of backups. -/
structure World extends Env where
  /-- `age_encrypt` to recipients, with the randomness that it draws. -/
  ageEncrypt : Nat → List String → List UInt8 → Except CryptoError (List UInt8)
  ageDecrypt : String → List UInt8 → Except CryptoError (List UInt8)
  /-- The recipient of an identity. -/
  agePublic : String → String
  argon2id : String → Argon2idParams → Except CryptoError Key
  /-- `serde_json::to_vec` of a backup payload, version 2 with the wrapped key and version 1 without. -/
  encodeBackup : BackupPlaintext → Except String (List UInt8)
  /-- The JSON text of Argon2id parameters. -/
  argon2ParamsJson : Argon2idParams → List UInt8
  /-- `String::from_utf8`. -/
  fromUtf8 : List UInt8 → Except String String

/-- A version as JSON holds it. -/
def jsonVersion (v : SecretVersion) : SecretVersion :=
  { v with createdAt := atMicros v.createdAt, deprecatedAt := v.deprecatedAt.map atMicros }

/-- A secret as JSON holds it: times at microsecond precision. -/
def jsonSecret (s : Secret) : Secret :=
  { s with createdAt := atMicros s.createdAt, versions := s.versions.map jsonVersion }

/-- Decoders invert their encoders. -/
structure World.Lawful (W : World) : Prop where
  age : ∀ seed recipients plaintext ciphertext identity, W.agePublic identity ∈ recipients →
    W.ageEncrypt seed recipients plaintext = .ok ciphertext →
      W.ageDecrypt identity ciphertext = .ok plaintext
  aead : ∀ key nonce plaintext aad ciphertext,
    W.aeadEncrypt key nonce plaintext aad = .ok ciphertext →
      W.aeadDecrypt key nonce ciphertext aad = .ok plaintext
  /-- The ciphertext ends with a tag. -/
  aeadTag : ∀ key nonce plaintext aad ciphertext,
    W.aeadEncrypt key nonce plaintext aad = .ok ciphertext → ciphertext ≠ []
  base64 : ∀ bytes, W.base64Decode (W.base64Encode bytes) = .ok bytes
  backup : ∀ payload bytes, W.encodeBackup payload = .ok bytes →
    W.decodeBackup bytes = .ok { payload with secrets := payload.secrets.map jsonSecret }
  argon2Params : ∀ params, W.argon2ParamsOfJson (W.argon2ParamsJson params) = .ok params

/-! ### A lawful world -/

/-- Four bytes, the lowest first. -/
def sampleBytes (n : UInt32) : List UInt8 :=
  [UInt8.ofNat n.toNat, UInt8.ofNat (n.toNat / 2 ^ 8), UInt8.ofNat (n.toNat / 2 ^ 16),
    UInt8.ofNat (n.toNat / 2 ^ 24)]

/-- A number of four bytes, the low one first. -/
def sampleNat (a b c d : UInt8) : UInt32 :=
  UInt32.ofNat (a.toNat + 2 ^ 8 * b.toNat + 2 ^ 16 * c.toNat + 2 ^ 24 * d.toNat)

theorem sampleNat_bytes (n : UInt32) : sampleNat (UInt8.ofNat n.toNat) (UInt8.ofNat (n.toNat / 2 ^ 8))
    (UInt8.ofNat (n.toNat / 2 ^ 16)) (UInt8.ofNat (n.toNat / 2 ^ 24)) = n := by
  have hlt := n.toNat_lt
  rw [← UInt32.toNat_inj]
  simp only [sampleNat, UInt8.toNat_ofNat', UInt32.toNat_ofNat']
  omega

/-- The costs and the salt as bytes. -/
def sampleParams (params : Argon2idParams) : List UInt8 :=
  sampleBytes params.mCost ++ (sampleBytes params.tCost ++ (sampleBytes params.pCost ++
    params.salt.toList))

theorem salt_size {salt : List UInt8} (h : salt.length = 16) : salt.toArray.size = 16 := by
  simp [h]

/-- The costs and the salt that the bytes stand for. -/
def sampleParamsOf : List UInt8 → Except String Argon2idParams
  | m₀ :: m₁ :: m₂ :: m₃ :: t₀ :: t₁ :: t₂ :: t₃ :: p₀ :: p₁ :: p₂ :: p₃ :: salt =>
    if h : salt.length = 16 then
      .ok ⟨sampleNat m₀ m₁ m₂ m₃, sampleNat t₀ t₁ t₂ t₃, sampleNat p₀ p₁ p₂ p₃,
        ⟨salt.toArray, salt_size h⟩⟩
    else .error "salt"
  | _ => .error "parameters"

/-- Ciphers that frame their plaintext, and codecs that know one payload. -/
def sampleWorld (payload : BackupPlaintext) : World where
  toEnv := { sampleEnv with
    decodeBackup := fun bytes =>
      if bytes = [0] then .ok { payload with secrets := payload.secrets.map jsonSecret }
      else .error "not a backup"
    argon2ParamsOfJson := sampleParamsOf }
  ageEncrypt _ _ plaintext := .ok plaintext
  ageDecrypt _ ciphertext := .ok ciphertext
  agePublic identity := String.ofList ("age1".toList ++ identity.toList)
  argon2id _ params := .ok ⟨(params.salt.toList ++ params.salt.toList).toArray, by simp⟩
  encodeBackup p :=
    if p.vrkRecoveryAge = payload.vrkRecoveryAge ∧ p.secrets = payload.secrets then .ok [0]
    else .error "unknown payload"
  argon2ParamsJson := sampleParams
  fromUtf8 bytes := .ok (String.ofList (bytes.map fun b => Char.ofNat b.toNat))

theorem sampleWorld_lawful (payload : BackupPlaintext) : (sampleWorld payload).Lawful where
  age seed recipients plaintext ciphertext identity _ h := by
    obtain rfl := Except.ok.inj h
    rfl
  aead key nonce plaintext aad ciphertext h := by
    obtain rfl := Except.ok.inj h
    change sampleDecrypt key nonce _ aad = .ok plaintext
    have hlen : 32 + (plaintext.length + 16) - 48 = plaintext.length := by omega
    have hle : 48 ≤ 32 + (plaintext.length + 16) := by omega
    simp [sampleDecrypt, hlen, hle]
  aeadTag key nonce plaintext aad ciphertext h := by
    obtain rfl := Except.ok.inj h
    simp
  base64 bytes := rfl
  backup p bytes h := by
    change (if _ then _ else _) = _ at h
    split_ifs at h with hp
    obtain rfl := Except.ok.inj h
    obtain ⟨hvrk, hsecrets⟩ := hp
    rw [hvrk, hsecrets]
    rfl
  argon2Params params := by
    change sampleParamsOf (sampleParams params) = .ok params
    have hsalt : params.salt.toList.length = 16 := by simp
    simp only [sampleParams, sampleBytes, List.cons_append, List.nil_append, sampleParamsOf,
      dif_pos hsalt, sampleNat_bytes]
    rfl

/-! ### Backups and restore plans -/

/-- A row of `backups`. -/
structure Backup where
  id : Uuid
  namespaceId : NamespaceId
  snapshotId : Uuid
  artifactPath : String
  hmac : HmacSignature
  sizeBytes : UInt64
  secretCount : UInt32
  createdAt : Rfc3339Timestamp
deriving DecidableEq

/-- What a restore does about a handle that is there already. -/
inductive ConflictResolution
  | newestWinsExisting | newestWinsBackup | halt | preserveBoth
deriving DecidableEq, Repr

/-- A handle of the backup that the vault has. -/
structure Conflict where
  handle : Handle
  resolution : ConflictResolution
deriving DecidableEq

/-- `RestorePlan`. -/
structure RestorePlan where
  id : Uuid
  sourceBackupId : Uuid
  targetNamespace : Option NamespaceId
  conflicts : List Conflict
  expiresAt : Rfc3339Timestamp
deriving DecidableEq

/-- `is_expired`, at a time. -/
def RestorePlan.isExpiredAt (plan : RestorePlan) (now : Rfc3339Timestamp) : Bool :=
  plan.expiresAt.lt now

/-- Some conflict is to be decided by the operator. -/
def RestorePlan.hasHaltConflict (plan : RestorePlan) : Bool :=
  plan.conflicts.any fun c => c.resolution = .halt

/-- A row of `restore_plans`. -/
structure RestorePlanRow where
  plan : RestorePlan
  appliedAt : Option Rfc3339Timestamp
deriving DecidableEq

/-! ### The state -/

/-- The vault on its host: keychain, files and what the agent keeps. -/
structure Node where
  app : AppState
  keychain : String × String → Option (List UInt8)
  files : String → Option (List UInt8)
  /-- `VaultIdentity::recovery_pubkey`, set when the agent starts. -/
  recoveryPubkey : String
  backups : List Backup
  restorePlans : List RestorePlanRow
  /-- `init_lock` is held. -/
  initLocked : Bool

/-- An item of the keychain is set or removed. -/
def Node.setKeychain (n : Node) (item : String × String) (value : Option (List UInt8)) : Node :=
  { n with keychain := Function.update n.keychain item value }

/-- A file is written or removed. -/
def Node.setFile (n : Node) (path : String) (contents : Option (List UInt8)) : Node :=
  { n with files := Function.update n.files path contents }

/-! ### Actions -/

/-- The actions that the context does not have. -/
inductive VaultOp : Type → Type
  | lockInit : VaultOp Unit
  | unlockInit : VaultOp Unit
  | randomBytes16 : VaultOp (Vector UInt8 16)
  /-- `age::x25519::Identity::generate`. -/
  | generateAgeIdentity : VaultOp String
  /-- The environment variable `MERKLE_MASTER_PASSPHRASE`. -/
  | masterPassphraseVar : VaultOp (Option String)
  /-- The first statement of `list_secrets`. -/
  | selectNamespaceRows (id : NamespaceId) : VaultOp (Except StorageError (List SecretRow))
  | getRestorePlan (id : Uuid) : VaultOp (Except StorageError (Option RestorePlan))
  | restorePlanAppliedAt (id : Uuid) : VaultOp (Except StorageError (Option Rfc3339Timestamp))
  | markRestorePlanApplied (id : Uuid) (appliedAt : Rfc3339Timestamp) :
      VaultOp (Except StorageError Unit)
  | listBackups (id : NamespaceId) : VaultOp (Except StorageError (List Backup))
  | putBackup (backup : Backup) : VaultOp (Except StorageError Unit)
  /-- `persist_artifact_atomically`: a new file, or none. -/
  | persistArtifact (path : String) (contents : List UInt8) : VaultOp (Except AppError Unit)
  /-- The section of `close_session_state` under the guard of `use_tokens`. -/
  | revokeUseTokens : VaultOp UInt32

/-- Actions of the application, and those of the agent. -/
inductive NodeOp : Type → Type 1
  | app {β : Type} (op : Op β) : NodeOp β
  | vault {β : Type} (op : VaultOp β) : NodeOp β

/-- Rows in the order of a time column; ties in any order. -/
def Ordered {α : Type} (le : α → α → Prop) (rows answer : List α) : Prop :=
  answer.Perm rows ∧ answer.Pairwise le

/-- `UPDATE restore_plans SET applied_at = ?2 WHERE id = ?1 AND applied_at IS NULL`. -/
def markApplied (rows : List RestorePlanRow) (id : Uuid) (appliedAt : Rfc3339Timestamp) :
    Except StorageError (List RestorePlanRow) :=
  if rows.any (fun r => r.plan.id = id && r.appliedAt.isNone) then
    .ok (rows.map fun r =>
      if r.plan.id = id ∧ r.appliedAt.isNone then { r with appliedAt := some appliedAt } else r)
  else if rows.any (fun r => r.plan.id = id) then
    .error (.conflict ("restore plan " ++ uuidText id ++ " already applied"))
  else .error .notFound

/-- What a call of a port may answer and leave; each may fail, a store or a delete of a keychain item also
after its effect. -/
def portExec (W : World) {β : Type} : Port β → Node → β → Node → Prop
  | .keychainRetrieve service account, n, r, n' => n' = n ∧
      (match n.keychain (service, account) with
        | some value => r = .ok value
        | none => r = .error .notFound) ∨ n' = n ∧ ∃ e, e ≠ .notFound ∧ r = .error e
  | .keychainStore service account value, n, r, n' =>
      tookEffect r = true ∧ n' = n.setKeychain (service, account) (some value) ∨
        tookEffect r = false ∧ n' = n
  | .keychainDelete service account, n, r, n' =>
      tookEffect r = true ∧ n' = n.setKeychain (service, account) none ∨
        tookEffect r = false ∧ n' = n
  | .masterKeyKeychainRef, n, r, n' => n' = n ∧ r = (keychainService, accountMasterKey)
  | .recoveryPubkey, n, r, n' => n' = n ∧ r = n.recoveryPubkey
  | .readFile path, n, r, n' => n' = n ∧ ((∃ contents, n.files path = some contents ∧
      r = .ok contents) ∨ ∃ e, r = .error e)
  | .removeFile path, n, r, n' =>
      r = .ok () ∧ n' = n.setFile path none ∨ n' = n ∧ ∃ e, r = .error e
  | .writeFile path contents, n, r, n' =>
      r = .ok () ∧ n' = n.setFile path (some contents) ∨ n' = n ∧ ∃ e, r = .error e
  | .ageEncrypt recipients plaintext, n, r, n' =>
      n' = n ∧ ∃ seed, r = W.ageEncrypt seed recipients plaintext
  | .ageDecrypt identity ciphertext, n, r, n' => n' = n ∧ r = W.ageDecrypt identity ciphertext
  | .argon2idDerive passphrase params, n, r, n' => n' = n ∧ r = W.argon2id passphrase params
  | _, n, _, n' => n' = n

/-- What an action of the context may answer and leave. -/
def appExec (W : World) {β : Type} : Op β → Node → β → Node → Prop
  | .port p, n, r, n' => portExec W p n r n'
  | op, n, r, n' => exec W.toCrates op n.app r n'.app ∧ n' = { n with app := n'.app }

/-- What one action of the agent does. -/
def vaultExec {β : Type} : VaultOp β → Node → β → Node → Prop
  | .lockInit, n, _, n' => n.initLocked = false ∧ n' = { n with initLocked := true }
  | .unlockInit, n, _, n' => n' = { n with initLocked := false }
  | .randomBytes16, n, _, n' => n' = n
  | .generateAgeIdentity, n, _, n' => n' = n
  | .masterPassphraseVar, n, _, n' => n' = n
  | .selectNamespaceRows id, n, r, n' => n' = n ∧ ∃ fault rows,
      Ordered (fun a b => b.createdAt.lt a.createdAt = false)
        (n.app.store.secrets.filter fun row => row.namespaceId = id) rows ∧ r = faulty fault (.ok rows)
  | .getRestorePlan id, n, r, n' => n' = n ∧ ∃ fault,
      r = faulty fault (.ok ((n.restorePlans.find? fun row => row.plan.id = id).map (·.plan)))
  | .restorePlanAppliedAt id, n, r, n' => n' = n ∧ ∃ fault,
      r = faulty fault (.ok ((n.restorePlans.find? fun row => row.plan.id = id).bind (·.appliedAt)))
  | .markRestorePlanApplied id appliedAt, n, r, n' => ∃ fault,
      match faulty fault (markApplied n.restorePlans id appliedAt) with
      | .ok rows => r = .ok () ∧ n' = { n with restorePlans := rows }
      | .error e => r = .error e ∧ n' = n
  | .listBackups id, n, r, n' => n' = n ∧ ∃ fault rows,
      Ordered (fun a b => a.createdAt.lt b.createdAt = false)
        (n.backups.filter fun b => b.namespaceId = id) rows ∧ r = faulty fault (.ok rows)
  | .putBackup backup, n, r, n' =>
      r = .ok () ∧ n' = { n with backups := n.backups.filter (fun b => b.id ≠ backup.id) ++ [backup] } ∨
        n' = n ∧ ∃ e, r = .error e
  | .persistArtifact path contents, n, r, n' =>
      n.files path = none ∧ r = .ok () ∧ n' = n.setFile path (some contents) ∨
        n' = n ∧ ∃ e, r = .error e
  | .revokeUseTokens, n, r, n' =>
      r = UInt32.ofNat (min n.app.useTokens.length (2 ^ 32 - 1)) ∧
        n' = { n with app := { n.app with useTokens := [] } }

/-- What one action does to the host. -/
def nodeExec (W : World) {β : Type} : NodeOp β → Node → β → Node → Prop
  | .app op, n, r, n' => appExec W op n r n'
  | .vault op, n, r, n' => vaultExec op n r n'

/-- Calls of ports change the keychain and the files. -/
theorem portExec_frame {W : World} {β : Type} {p : Port β} {n n' : Node} {r : β}
    (h : portExec W p n r n') : n' = { n with keychain := n'.keychain, files := n'.files } := by
  cases p with
  | keychainRetrieve service account =>
    rcases h with ⟨rfl, -⟩ | ⟨rfl, -⟩ <;> rfl
  | keychainStore service account value =>
    rcases h with ⟨-, rfl⟩ | ⟨-, rfl⟩ <;> rfl
  | keychainDelete service account =>
    rcases h with ⟨-, rfl⟩ | ⟨-, rfl⟩ <;> rfl
  | removeFile path =>
    rcases h with ⟨-, rfl⟩ | ⟨rfl, -⟩ <;> rfl
  | writeFile path contents =>
    rcases h with ⟨-, rfl⟩ | ⟨rfl, -⟩ <;> rfl
  | masterKeyKeychainRef => rw [h.1]
  | recoveryPubkey => rw [h.1]
  | readFile path => rw [h.1]
  | ageEncrypt recipients plaintext => rw [h.1]
  | ageDecrypt identity ciphertext => rw [h.1]
  | argon2idDerive passphrase params => rw [h.1]
  | _ =>
    obtain rfl : n' = n := h
    rfl

/-- Calls of ports leave the context. -/
theorem portExec_app {W : World} {β : Type} {p : Port β} {n n' : Node} {r : β}
    (h : portExec W p n r n') : n'.app = n.app := by
  rw [portExec_frame h]

/-- **The actions of the context** do to the context what they do alone. -/
theorem appExec_exec {W : World} {β : Type} {o : Op β} {n n' : Node} {r : β}
    (h : appExec W o n r n') : exec W.toCrates o n.app r n'.app := by
  cases o with
  | port p => exact portExec_app h
  | _ => exact h.1

/-- The action is a call of a port. -/
def isPort {β : Type} : Op β → Bool
  | .port _ => true
  | _ => false

/-- Actions that are no calls of ports leave everything else. -/
theorem appExec_frame {W : World} {β : Type} {o : Op β} {n n' : Node} {r : β}
    (hport : isPort o = false) (h : appExec W o n r n') : n' = { n with app := n'.app } := by
  cases o with
  | port p => cases hport
  | _ => exact h.2

theorem appExec_idle {W : World} {β : Type} {op : Op β} {n n' : Node} {r : β}
    (hport : isPort op = false) (hidle : n'.app = n.app) (h : appExec W op n r n') : n' = n := by
  rw [appExec_frame hport h, hidle]

/-! ### Handlers -/

/-- The errors of the agent's commands. -/
inductive NodeError
  | app (e : AppError)
  | backupIntegrity
  | restorePlanExpired
  | restorePlanAlreadyApplied
deriving DecidableEq

/-- What the handlers return. -/
inductive NodeReply
  | app (reply : Reply)
  | initialized (vaultId : Uuid) (recoveryKey masterKeyKeychainRef : String)
  | backedUp (backup : Backup)
  | restored (secretsRestored : UInt32) (namespaceId : NamespaceId)
  | sessionClosed (tokensRevoked : UInt32)
deriving DecidableEq

/-- A command of the agent. -/
abbrev NodeHandler (α : Type) := Cmd NodeOp NodeError α

/-- A handler of the context. -/
def runInContext {α : Type} (x : Handler α) : NodeHandler α := embedded NodeOp.app NodeError.app x

/-- One action of the agent. -/
def vaultCall {α : Type} (op : VaultOp α) : NodeHandler α := call (.vault op)

/-- A storage action. -/
def storageCall {α : Type} (op : VaultOp (Except StorageError α)) : NodeHandler α :=
  attempt (fun e => .app (.storage e)) (.vault op)

/-- One call of a port. -/
def portCall {α : Type} (p : Port α) : NodeHandler α := call (.app (.port p))

/-- The command ends with an error of the application. -/
def failWith {α : Type} (e : AppError) : NodeHandler α := throw (.app e)

/-- The second part of `list_secrets`: the versions of each row. -/
def loadSecrets : List SecretRow → Handler (List Secret)
  | [] => return []
  | row :: rows => do
    let versions ← query (.loadVersionsForSecret row.id)
    return secretOf row versions :: (← loadSecrets rows)

/-- `list_secrets` with the default filter. -/
def listSecrets (id : NamespaceId) : NodeHandler (List Secret) := do
  runInContext (loadSecrets (← storageCall (.selectNamespaceRows id)))

/-! ### Events -/

/-- What an event of a port shows. -/
def ofPort {γ : Type*} (d : γ) (f : ∀ {β : Type}, Port β → β → γ) {β : Type} : Op β → β → γ
  | .port p, r => f p r
  | _, _ => d

/-- What an event of the context shows. -/
def ofApp {γ : Type*} (d : γ) (f : ∀ {β : Type}, Op β → β → γ) {β : Type} : NodeOp β → β → γ
  | .app op, r => f op r
  | .vault _, _ => d

/-! ### The node -/

/-- The agent starts again, with what is stored. -/
def Node.rebooted (n : Node) : Node := { n with app := Context.rebooted n.app, initLocked := false }

/-- Clients run handlers over the node, any number at a time. -/
def nodeSystem (W : World) (starts : Prog NodeOp (Except NodeError NodeReply) → Prop)
    (restart : Node → Node → Prop) : System Node NodeOp (Except NodeError NodeReply) where
  exec := nodeExec W
  starts := starts
  restart := restart

/-- A handler of the context, with its reply. -/
def inReply (x : Handler Reply) : NodeHandler NodeReply := do
  return .app (← runInContext x)

end MerkleVault.App.Host
