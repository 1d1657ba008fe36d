import MerkleVault.Lib.Program
import MerkleVault.Sqlite.Tables

/-! # The Application Context

The state that all command handlers share, each part behind its own lock, and the atomic actions
that handlers are made of: a lock section, a storage statement or transaction, a call of a port.
`exec` says what an action may answer and do.  Storage may fail at any action; the ports answer
anything.  Identifiers are UUIDs drawn anew, so a draw differs from all earlier ones. -/

namespace MerkleVault.App.Context

open MerkleVault.Types MerkleVault.External MerkleVault.Lib.Program MerkleVault.Identity
open MerkleVault.Audit.Entry MerkleVault.Audit.Writer MerkleVault.Secrets.Aggregate
open MerkleVault.Sqlite.Tables

/-! ### Errors -/

/-- Errors of the keychain port. -/
inductive KeychainError
  | notFound
  | permissionDenied
  | persistenceFailed (service account : String)
  | backend (detail : String)
deriving DecidableEq, Repr

/-- A store or a delete that failed, and whether it took effect all the same, which its caller does not
see: the file keystore changes its entries before it writes the file, and the keychain of the system
has the item before its index. -/
structure KeychainFailure where
  error : KeychainError
  effective : Bool
deriving DecidableEq, Repr

/-- The item is as the call wanted it. -/
def tookEffect : Except KeychainFailure Unit → Bool
  | .ok () => true
  | .error failure => failure.effective

/-- Errors of the crypto port. -/
inductive CryptoError
  | aeadVerifyFailed
  | invalidKeyLength (expected got : Nat)
  | invalidArgon2idParams
  | eciesDecryptFailed
  | signatureVerifyFailed
  | age (detail : String)
  | backend (detail : String)
deriving DecidableEq, Repr

/-- Errors of the out-of-band port. -/
inductive OobError
  | unavailable
  | dispatchFailed (detail : String)
  | timeout
  | signatureFailed
  | backend (detail : String)
deriving DecidableEq, Repr

/-- Errors of the external service port. -/
inductive ExternalError
  | connectFailed (detail : String)
  | authFailed
  | operationFailed (detail : String)
  | backend (detail : String)
deriving DecidableEq, Repr

/-- What `AppError::Domain` prints: the error of an aggregate, or a text. -/
inductive DomainFault
  | identity (e : Identity.DomainError)
  | secret (e : Secrets.Aggregate.DomainError)
  | audit (e : Audit.Entry.DomainError)
  | text (detail : String)
deriving DecidableEq

/-- The errors that a command returns. -/
inductive AppError
  | vaultSealed
  | policyDenied (reason : String)
  | notFound
  | invalidInput (detail : String)
  | storage (e : StorageError)
  | crypto (e : CryptoError)
  | keychain (e : KeychainError)
  | oob (e : OobError)
  | external (e : ExternalError)
  | domain (fault : DomainFault)
deriving DecidableEq

/-- What the caller sees of a store or a delete that failed. -/
def keychainFault (failure : KeychainFailure) : AppError := .keychain failure.error

/-! ### Values that cross the ports -/

/-- Where a challenge is shown. -/
inductive OobChannel
  | desktopNotif | terminalPrompt | localhostConfirm
deriving DecidableEq, Repr

/-- What the operator is asked to confirm. -/
structure OobChallenge where
  challengeId : ChallengeId
  namespaceId : NamespaceId
  secretHandle : Handle
  sensitivity : Sensitivity
  oobChannel : OobChannel
  expiresAt : Rfc3339Timestamp
  requestNonce : Key
deriving DecidableEq

/-- How a challenge ended. -/
inductive OobChallengeOutcome
  | approved | denied | expired
deriving DecidableEq, Repr

/-- The answer to a challenge. -/
structure OobResolution where
  challengeId : ChallengeId
  outcome : OobChallengeOutcome
  authorizedAt : Option Rfc3339Timestamp
  deviceSignature : Option (Vector UInt8 64)
deriving DecidableEq

/-- `is_approved`. -/
def OobResolution.isApproved (r : OobResolution) : Bool := r.outcome = .approved

/-- The costs and the salt of a passphrase derivation. -/
structure Argon2idParams where
  mCost : UInt32
  tCost : UInt32
  pCost : UInt32
  salt : Vector UInt8 16
deriving DecidableEq

/-- What disaster recovery reads from a decrypted backup. -/
structure BackupPlaintext where
  vrkRecoveryAge : Option (List UInt8)
  secrets : List Secret

/-- A request that a `use` sends. -/
structure HttpRequestSpec where
  method : String
  url : String
  headers : List (String × String)
  body : Option (List UInt8)
deriving DecidableEq, Repr

/-- The credentials of a request. -/
inductive HttpAuth
  | bearer (token : String)
  | basic (user pass : String)
  | none
deriving DecidableEq, Repr

/-- What the service answers. -/
structure HttpResponse where
  status : UInt16
  headers : List (String × String)
  body : List UInt8
deriving DecidableEq, Repr

/-- The fields of a JWT header that are parsed. -/
structure JwtHeader where
  alg : String
  kid : String
deriving DecidableEq, Repr

/-- The claims of an attestation token that are read. -/
structure JwtPayload where
  aud : String
  exp : Int
  challengeId : Option String
deriving DecidableEq, Repr

/-- The functions of the ports and crates that the handlers call and that answer the same to the
same arguments. -/
structure Env extends Crates where
  aeadEncrypt : Key → Vector UInt8 24 → List UInt8 → List UInt8 → Except CryptoError (List UInt8)
  aeadDecrypt : Key → Vector UInt8 24 → List UInt8 → List UInt8 → Except CryptoError (List UInt8)
  ed25519Verify : Key → List UInt8 → Vector UInt8 64 → Except CryptoError Unit
  /-- `VerifyingKey::from_bytes` and `verify` of `ed25519_dalek`. -/
  dalekVerify : Key → List UInt8 → Vector UInt8 64 → Bool
  /-- `URL_SAFE_NO_PAD.decode`. -/
  base64UrlDecode : String → Option (List UInt8)
  /-- `URL_SAFE_NO_PAD.encode`. -/
  base64UrlEncode : List UInt8 → String
  /-- `serde_json::from_slice` of a JWT header and payload. -/
  jwtHeader : List UInt8 → Option JwtHeader
  jwtPayload : List UInt8 → Option JwtPayload
  /-- `BASE64.encode` and `.decode`. -/
  base64Encode : List UInt8 → List UInt8
  base64Decode : List UInt8 → Except String (List UInt8)
  /-- `BackupPlaintext::decode`. -/
  decodeBackup : List UInt8 → Except String BackupPlaintext
  /-- The stored Argon2id parameters, read from their JSON and checked. -/
  argon2ParamsOfJson : List UInt8 → Except String Argon2idParams

/-- `Crypto::blake3_keyed`: the bytes of the keyed hash. -/
def Env.blake3Keyed (E : Env) (key : Key) (data : List UInt8) : Key := (E.keyedHash key data).asBytes

/-! ### The shared state -/

/-- A token that stands for one use of a secret. -/
structure UseToken where
  secretId : SecretId
  sessionId : Uuid
  handle : Handle
  issuedAt : Rfc3339Timestamp
  expiresAt : Rfc3339Timestamp
  consumed : Bool
deriving DecidableEq

/-- The parts of `AppContext` that the modelled handlers read and write, and the identifiers drawn
so far. -/
structure AppState where
  identity : VaultIdentity
  hmacKey : Option Key
  auditLog : AuditLog
  useTokens : List (String × UseToken)
  store : Store
  issued : List Uuid

/-! ### Actions -/

/-- Sections under the write or read guard of `identity`. -/
inductive IdentityOp : Type → Type
  | isUnsealed : IdentityOp Bool
  /-- `UnsealVaultCommand::begin`; `true` when the vault is unsealed already. -/
  | beginUnseal (preconditions : UnsealPreconditions) : IdentityOp (Except Identity.DomainError Bool)
  /-- `complete_unseal`, and `revert_to_sealed` when it fails. -/
  | completeUnseal (vrk : Key) : IdentityOp (Except Identity.DomainError Unit)
  /-- The section of `rollback_to_sealed`. -/
  | rollbackUnsealing : IdentityOp Unit
  | sealVault : IdentityOp (Except Identity.DomainError Unit)
  /-- The section of `DisasterRecoverCommand`: seal if unsealed, then unseal with the key. -/
  | recover (vrk : Key) : IdentityOp (Except Identity.DomainError Unit)

/-- Single `SELECT` statements. -/
inductive Query : Type → Type
  | pinnedHead : Query (Option PinnedHead)
  | selectSecretRow (handle : Handle) : Query (Option SecretRow)
  | loadVersionsForSecret (id : SecretId) : Query (List SecretVersion)
  | getNamespaceByLabel (label : NamespaceLabel) : Query (Option Namespace)
  | getNamespaceById (id : NamespaceId) : Query (Option Namespace)
  | getNamespacePolicy (id : NamespaceId) : Query (Option NamespacePolicy)
  | listCompanionDevices : Query (List CompanionDevice)

/-- Transactions that write, the audit chain's apart. -/
inductive Write
  | putSecret (secret : Secret)
  | deleteSecret (id : SecretId)
  | putNamespace (ns : Namespace)
  | putNamespacePolicy (policy : NamespacePolicy)

/-- Calls of the clock, the random source, the keychain, the files, the notifier and the network. -/
inductive Port : Type → Type
  | now : Port Rfc3339Timestamp
  | randomBytes24 : Port (Vector UInt8 24)
  | randomBytes32 : Port Key
  | keychainRetrieve (service account : String) : Port (Except KeychainError (List UInt8))
  | keychainStore (service account : String) (value : List UInt8) : Port (Except KeychainFailure Unit)
  | keychainDelete (service account : String) : Port (Except KeychainFailure Unit)
  /-- Fields of the identity that never change. -/
  | masterKeyKeychainRef : Port (String × String)
  | recoveryPubkey : Port String
  | readFile (path : String) : Port (Except String (List UInt8))
  | writeFile (path : String) (contents : List UInt8) : Port (Except String Unit)
  | removeFile (path : String) : Port (Except String Unit)
  /-- Creation of a new file of mode 0600, and its flush after the write. -/
  | createFile (path : String) : Port (Except String Unit)
  | flushFile (path : String) : Port (Except String Unit)
  | mkfifo (path : String) : Port (Except String Unit)
  /-- The task that writes the contents when a reader opens the pipe, and then removes it. -/
  | spawnFifoWriter (path : String) (contents : List UInt8) : Port Unit
  | registerTempfile (token path : String) : Port Unit
  /-- The directory of temporary files, with its separator. -/
  | tempDir : Port String
  /-- The time a number of seconds from now, or why there is none. -/
  | expiry (seconds : Nat) : Port (Except String Rfc3339Timestamp)
  | ageEncrypt (recipients : List String) (plaintext : List UInt8) :
      Port (Except CryptoError (List UInt8))
  | ageDecrypt (identity : String) (ciphertext : List UInt8) :
      Port (Except CryptoError (List UInt8))
  | argon2idDerive (passphrase : String) (params : Argon2idParams) : Port (Except CryptoError Key)
  | oobDispatch (challenge : OobChallenge) (device : CompanionDevice) : Port (Except OobError Unit)
  | oobAwaitResolution (id : ChallengeId) (timeout : Nat) : Port (Except OobError OobResolution)
  | httpRequest (spec : HttpRequestSpec) (auth : HttpAuth) : Port (Except ExternalError HttpResponse)

/-- What a command does to the vault, each in one step. -/
inductive Op : Type → Type 1
  | identity {β : Type} (o : IdentityOp β) : Op β
  | readHmacKey : Op (Option Key)
  | writeHmacKey (key : Option Key) : Op Unit
  /-- The section of `audit_commit` under the write guard of `audit_log`. -/
  | auditCommit (params : AppendParams) (key : Key) : Op (Except AppError Unit)
  /-- The section of a seal: `audit_log` is rebuilt from a pinned head read before. -/
  | installHead (pinned : Option PinnedHead) : Op Unit
  | query {β : Type} (q : Query β) : Op (Except StorageError β)
  | write (w : Write) : Op (Except StorageError Unit)
  | newUuid : Op Uuid
  | registerUseToken (key : String) (token : UseToken) : Op Unit
  | consumeUseToken (key : String) (handle : Handle) : Op (Except AppError Unit)
  | port {β : Type} (p : Port β) : Op β

/-- Seal an unsealed identity and unseal it under the recovered key. -/
def recoverIdentity (i : VaultIdentity) (vrk : Key) :
    Except Identity.DomainError Unit × VaultIdentity :=
  match if i.isUnsealed then i.sealVault else .ok i with
  | .error e => (.error e, i)
  | .ok sealed =>
    match sealed.beginUnseal ⟨.balanced, true, true, true⟩ with
    | .error e => (.error e, sealed)
    | .ok unsealing =>
      match unsealing.completeUnseal vrk with
      | .error e => (.error e, unsealing)
      | .ok unsealed => (.ok (), unsealed)

/-- One method of the identity under its lock. -/
def IdentityOp.apply {β : Type} : IdentityOp β → VaultIdentity → β × VaultIdentity
  | .isUnsealed, i => (i.isUnsealed, i)
  | .beginUnseal p, i =>
    if i.isUnsealed then (.ok true, i)
    else match i.beginUnseal p with
      | .ok i' => (.ok false, i')
      | .error e => (.error e, i)
  | .completeUnseal vrk, i =>
    match i.completeUnseal vrk with
    | .ok i' => (.ok (), i')
    | .error e => (.error e, (i.revertToSealed).toOption.getD i)
  | .rollbackUnsealing, i =>
    if i.state = .unsealing then ((), (i.revertToSealed).toOption.getD i) else ((), i)
  | .sealVault, i =>
    match i.sealVault with
    | .ok i' => (.ok (), i')
    | .error e => (.error e, i)
  | .recover vrk, i => recoverIdentity i vrk

/-- What a query reads off the tables. -/
def Query.answer {β : Type} : Query β → Store → β
  | .pinnedHead, st => st.pinnedHead
  | .selectSecretRow handle, st => st.selectSecretRow handle
  | .loadVersionsForSecret id, st => st.loadVersionsForSecret id
  | .getNamespaceByLabel label, st => st.getNamespaceByLabel label
  | .getNamespaceById id, st => st.getNamespaceById id
  | .getNamespacePolicy id, st => st.getNamespacePolicy id
  | .listCompanionDevices, st => st.listCompanionDevices

/-- What a write leaves of the tables. -/
def Write.apply : Write → Store → Except StorageError Store
  | .putSecret s, st => st.putSecret s
  | .deleteSecret id, st => st.deleteSecret id
  | .putNamespace ns, st => st.putNamespace ns
  | .putNamespacePolicy p, st => st.putNamespacePolicy p

/-- A storage call that fails when there is a fault. -/
def faulty {β : Type} (fault : Option StorageError) (x : Except StorageError β) :
    Except StorageError β :=
  match fault with
  | some e => .error e
  | none => x

/-- The head of a log or of a seal: restored when there is one, else the empty log. -/
def rebuildLog (head : Option Blake3Hash) (headSeq : UInt64) : AuditLog :=
  match head with
  | some h => AuditLog.restoreHead h headSeq
  | none => AuditLog.new

/-- `restore_audit_chain`: the writer goes on from the pinned head. -/
def restoreAuditChain : Option PinnedHead → AuditLog
  | some p => AuditLog.restoreHead p.headHash p.headSeq
  | none => AuditLog.new

/-- `audit_commit`: append, persist, and roll the in-memory head back when that fails. -/
def auditCommitSection (K : Crates) (params : AppendParams) (key : Key) (draw : Draw)
    (fault : Option StorageError) (s : AppState) : Except AppError Unit × AppState :=
  match append K s.auditLog params key.toList draw with
  | .error e => (.error (.domain (.audit e)), s)
  | .ok (log, entry, pinned) =>
    match faulty fault (s.store.commitAuditEntry entry pinned) with
    | .error e =>
      (.error (.storage e), { s with auditLog := rebuildLog s.auditLog.head s.auditLog.headSeq })
    | .ok store => (.ok (), { s with auditLog := log, store := store })

/-- A write in its transaction: its own refusal, or an error of the store, leaves the tables. -/
def writeSection (w : Write) (fault : Option StorageError) (s : AppState) :
    Except StorageError Unit × AppState :=
  match faulty fault (w.apply s.store) with
  | .error e => (.error e, s)
  | .ok store => (.ok (), { s with store := store })

/-- `consume_use_token` at a given time. -/
def consumeUseTokenSection (key : String) (handle : Handle) (now : Rfc3339Timestamp)
    (s : AppState) : Except AppError Unit × AppState :=
  match s.useTokens.lookup key with
  | none => (.error (.invalidInput "unknown use-token"), s)
  | some token =>
    if token.handle ≠ handle then (.error (.invalidInput "use-token handle mismatch"), s)
    else if !now.lt token.expiresAt then (.error (.domain (.text "use-token expired")), s)
    else if token.consumed then (.error (.domain (.text "use-token already consumed")), s)
    else (.ok (), { s with useTokens := s.useTokens.map fun (k, t) =>
      if k = key then (k, { t with consumed := true }) else (k, t) })

/-- `HashMap::insert`. -/
def insertToken (key : String) (token : UseToken) (tokens : List (String × UseToken)) :
    List (String × UseToken) :=
  (key, token) :: tokens.filter fun p => p.1 ≠ key

/-- What an action may answer and leave. -/
def exec (K : Crates) {β : Type} : Op β → AppState → β → AppState → Prop
  | .identity o, s, r, s' => (r, s') = ((o.apply s.identity).1,
      { s with identity := (o.apply s.identity).2 })
  | .readHmacKey, s, r, s' => r = s.hmacKey ∧ s' = s
  | .writeHmacKey key, s, _, s' => s' = { s with hmacKey := key }
  | .auditCommit params key, s, r, s' =>
    ∃ draw fault, auditCommitSection K params key draw fault s = (r, s')
  | .installHead pinned, s, _, s' => s' = { s with auditLog := restoreAuditChain pinned }
  | .query q, s, r, s' => s' = s ∧ ∃ fault, r = faulty fault (.ok (q.answer s.store))
  | .write w, s, r, s' => ∃ fault, writeSection w fault s = (r, s')
  | .newUuid, s, r, s' => r ∉ s.issued ∧ s' = { s with issued := r :: s.issued }
  | .registerUseToken key token, s, _, s' =>
    s' = { s with useTokens := insertToken key token s.useTokens }
  | .consumeUseToken key handle, s, r, s' =>
    ∃ now, consumeUseTokenSection key handle now s = (r, s')
  | .port _, s, _, s' => s' = s

/-- The agent starts again: sealed, without key and tokens, on the persisted head. -/
def rebooted (s : AppState) : AppState where
  identity := VaultIdentity.new
  hmacKey := none
  auditLog := restoreAuditChain s.store.pinnedHead
  useTokens := []
  store := s.store
  issued := s.issued

/-! ### What actions leave alone -/

theorem faulty_ok {β : Type} {fault : Option StorageError} {x : Except StorageError β} {b : β}
    (h : faulty fault x = .ok b) : fault = none ∧ x = .ok b := by
  cases fault with
  | none => exact ⟨rfl, h⟩
  | some e => cases h

/-- Writes do not touch the audit chain. -/
theorem Write.apply_audit {w : Write} {st st' : Store} (h : w.apply st = .ok st') :
    st'.auditEntries = st.auditEntries ∧ st'.pinnedHead = st.pinnedHead := by
  cases w with
  | putSecret secret =>
    obtain ⟨st₁, vs, h₁, -, rfl⟩ := putSecret_ok h
    rw [upsertSecretRow_ok h₁]
    exact ⟨rfl, rfl⟩
  | deleteSecret id =>
    simp only [Write.apply, Store.deleteSecret] at h
    split_ifs at h
    obtain rfl := Except.ok.inj h
    exact ⟨rfl, rfl⟩
  | putNamespace ns =>
    simp only [Write.apply, Store.putNamespace] at h
    split_ifs at h <;> obtain rfl := Except.ok.inj h <;> exact ⟨rfl, rfl⟩
  | putNamespacePolicy policy =>
    simp only [Write.apply, Store.putNamespacePolicy] at h
    split_ifs at h <;> obtain rfl := Except.ok.inj h <;> exact ⟨rfl, rfl⟩

theorem writeSection_ok {w : Write} {s : AppState} {store : Store} (h : w.apply s.store = .ok store) :
    writeSection w none s = (.ok (), { s with store := store }) := by
  rw [writeSection, h]
  rfl

theorem writeSection_eq {w : Write} {fault : Option StorageError} {s s' : AppState}
    {r : Except StorageError Unit} (h : writeSection w fault s = (r, s')) :
    (r = .ok () ∧ ∃ store, w.apply s.store = .ok store ∧ s' = { s with store := store }) ∨
      ((∃ e, r = .error e) ∧ s' = s) := by
  unfold writeSection at h
  split at h
  · next e he =>
    obtain ⟨rfl, rfl⟩ := Prod.mk.inj h
    exact .inr ⟨⟨e, rfl⟩, rfl⟩
  · next store hs =>
    obtain ⟨rfl, rfl⟩ := Prod.mk.inj h
    exact .inl ⟨rfl, store, (faulty_ok hs).2, rfl⟩

/-- A commit writes to the audit chain only. -/
theorem auditCommitSection_eq {K : Crates} {params : AppendParams} {key : Key} {draw : Draw}
    {fault : Option StorageError} {s s' : AppState} {r : Except AppError Unit}
    (h : auditCommitSection K params key draw fault s = (r, s')) :
    s' = { s with
      auditLog := s'.auditLog
      store := { s.store with
        auditEntries := s'.store.auditEntries
        pinnedHead := s'.store.pinnedHead } } := by
  unfold auditCommitSection at h
  split at h
  · obtain ⟨-, rfl⟩ := Prod.mk.inj h
    rfl
  · split at h
    · obtain ⟨-, rfl⟩ := Prod.mk.inj h
      rfl
    · next store hstore =>
      obtain ⟨-, rfl⟩ := Prod.mk.inj h
      have hc := (faulty_ok hstore).2
      unfold Store.commitAuditEntry at hc
      simp only at hc
      split_ifs at hc
      rw [← Except.ok.inj hc]

theorem auditCommitSection_frame {K : Crates} {params : AppendParams} {key : Key} {draw : Draw}
    {fault : Option StorageError} {s s' : AppState} {r : Except AppError Unit}
    (h : auditCommitSection K params key draw fault s = (r, s')) :
    s'.identity = s.identity ∧ s'.hmacKey = s.hmacKey := by
  rw [auditCommitSection_eq h]
  exact ⟨rfl, rfl⟩

theorem consumeUseTokenSection_eq {key : String} {handle : Handle} {now : Rfc3339Timestamp}
    {s s' : AppState} {r : Except AppError Unit}
    (h : consumeUseTokenSection key handle now s = (r, s')) :
    s' = { s with useTokens := s'.useTokens } := by
  unfold consumeUseTokenSection at h
  split at h
  · obtain ⟨rfl, rfl⟩ := Prod.mk.inj h
    rfl
  · split_ifs at h <;> obtain ⟨rfl, rfl⟩ := Prod.mk.inj h <;> rfl

/-- The transaction of an action. -/
def writeOf {β : Type} : Op β → Option Write
  | .write w => some w
  | _ => none

/-- The identifier that an action draws. -/
def drawOf {β : Type} : Op β → β → Option Uuid
  | .newUuid, u => some u
  | _, _ => none

/-- **Secrets and versions change by transactions only, identifiers are issued by draws only.** -/
theorem exec_rows {K : Crates} {β : Type} {op : Op β} {s s' : AppState} {r : β}
    (hx : exec K op s r s') (hw : writeOf op = none) :
    s'.store.secrets = s.store.secrets ∧ s'.store.versions = s.store.versions ∧
      s'.issued = (drawOf op r).toList ++ s.issued := by
  cases op with
  | identity o =>
    obtain ⟨-, rfl⟩ := Prod.mk.inj hx
    exact ⟨rfl, rfl, rfl⟩
  | readHmacKey =>
    obtain ⟨-, rfl⟩ := hx
    exact ⟨rfl, rfl, rfl⟩
  | writeHmacKey key =>
    obtain rfl : s' = _ := hx
    exact ⟨rfl, rfl, rfl⟩
  | auditCommit params key =>
    obtain ⟨draw, fault, hx⟩ := hx
    rw [auditCommitSection_eq hx]
    exact ⟨rfl, rfl, rfl⟩
  | installHead p =>
    obtain rfl : s' = _ := hx
    exact ⟨rfl, rfl, rfl⟩
  | query q =>
    obtain ⟨rfl, -⟩ := hx
    exact ⟨rfl, rfl, rfl⟩
  | write w => cases hw
  | newUuid =>
    obtain ⟨-, rfl⟩ := hx
    exact ⟨rfl, rfl, rfl⟩
  | registerUseToken key token =>
    obtain rfl : s' = _ := hx
    exact ⟨rfl, rfl, rfl⟩
  | consumeUseToken key handle =>
    obtain ⟨now, hx⟩ := hx
    rw [consumeUseTokenSection_eq hx]
    exact ⟨rfl, rfl, rfl⟩
  | port p =>
    obtain rfl : s' = _ := hx
    exact ⟨rfl, rfl, rfl⟩

/-- Actions that write neither the secrets nor the audit key. -/
def quiet {β : Type} : Op β → Prop
  | .write _ => False
  | .writeHmacKey _ => False
  | _ => True

/-- What the data keys and the loaded secrets depend on. -/
structure SameVault (s s' : AppState) : Prop where
  secrets : s'.store.secrets = s.store.secrets
  versions : s'.store.versions = s.store.versions
  hmacKey : s'.hmacKey = s.hmacKey
  issued : s.issued ⊆ s'.issued

theorem SameVault.refl (s : AppState) : SameVault s s := ⟨rfl, rfl, rfl, List.Subset.refl _⟩

theorem SameVault.trans {s s' s'' : AppState} (h : SameVault s s') (h' : SameVault s' s'') :
    SameVault s s'' :=
  ⟨h'.secrets.trans h.secrets, h'.versions.trans h.versions, h'.hmacKey.trans h.hmacKey,
    List.Subset.trans h.issued h'.issued⟩

theorem auditCommitSection_same {K : Crates} {params : AppendParams} {key : Key} {draw : Draw}
    {fault : Option StorageError} {s s' : AppState} {r : Except AppError Unit}
    (h : auditCommitSection K params key draw fault s = (r, s')) : SameVault s s' := by
  rw [auditCommitSection_eq h]
  exact ⟨rfl, rfl, rfl, List.Subset.refl _⟩

theorem exec_quiet {K : Crates} {β : Type} {op : Op β} {s s' : AppState} {r : β} (hq : quiet op)
    (hx : exec K op s r s') : SameVault s s' := by
  have hw : writeOf op = none := by
    cases op with
    | write w => exact hq.elim
    | _ => rfl
  obtain ⟨hs, hv, hi⟩ := exec_rows hx hw
  refine ⟨hs, hv, ?_, by rw [hi]; exact List.subset_append_right _ _⟩
  cases op with
  | identity o =>
    obtain ⟨-, rfl⟩ := Prod.mk.inj hx
    rfl
  | readHmacKey =>
    obtain ⟨-, rfl⟩ := hx
    rfl
  | writeHmacKey key => exact hq.elim
  | auditCommit params key =>
    obtain ⟨draw, fault, hx⟩ := hx
    exact (auditCommitSection_frame hx).2
  | installHead p =>
    obtain rfl : s' = _ := hx
    rfl
  | query q =>
    obtain ⟨rfl, -⟩ := hx
    rfl
  | write w => exact hq.elim
  | newUuid =>
    obtain ⟨-, rfl⟩ := hx
    rfl
  | registerUseToken key token =>
    obtain rfl : s' = _ := hx
    rfl
  | consumeUseToken key handle =>
    obtain ⟨now, hx⟩ := hx
    rw [consumeUseTokenSection_eq hx]
  | port p =>
    obtain rfl : s' = _ := hx
    rfl

/-! ### What the handlers are made of -/

/-- Where the vault root key comes from. -/
inductive UnsealKeyMethod
  | keychain | argon2idPassphrase
deriving DecidableEq, Repr

/-- What the handlers return. -/
inductive Reply
  | unsealed (wasAlreadyUnsealed : Bool) (method : UnsealKeyMethod)
  | sealed
  | recovered (secretsRestored : UInt32)
  | audited
  | put (id : SecretId) (handle : Handle)
  | rotated (newVersionNo : UInt32)
  | rolledBack (activeVersion : UInt32)
  | deleted (handle : Handle)
  | bound (id : NamespaceId) (label : NamespaceLabel)
  | revealed (plaintext : List UInt8)
  | token (useToken : String) (expiresAt : Rfc3339Timestamp)
  | materialized (opaqueToken : String) (expiresAt : Rfc3339Timestamp)
  | httpResponse (response : HttpResponse)
  | transferred (status : UInt16) (bytes : Nat)
deriving DecidableEq

/-- A command of the application. -/
abbrev Handler (α : Type) := Cmd Op AppError α

/-- An error of the identity aggregate, as the application returns it. -/
def identityFault (e : Identity.DomainError) : AppError := .domain (.identity e)

/-- An error of the secret aggregate, as the application returns it. -/
def secretFault (e : Secrets.Aggregate.DomainError) : AppError := .domain (.secret e)

/-- An error of a value object, as the application returns it. -/
def textFault (detail : String) : AppError := .domain (.text detail)

/-- `require_unsealed`. -/
def requireUnsealed : Handler Unit := do
  if ← call (.identity .isUnsealed) then pure () else throw .vaultSealed

/-- `require_hmac_key`: there is none in a sealed vault. -/
def requireHmacKey : Handler Key := do
  orThrow .vaultSealed (← call .readHmacKey)

/-- `audit_commit`. -/
def auditCommit (params : AppendParams) (key : Key) : Handler Unit :=
  attempt id (.auditCommit params key)

/-- One read of the store. -/
def query {β : Type} (q : Query β) : Handler β := attempt .storage (.query q)

/-- One write of the store. -/
def write (w : Write) : Handler Unit := attempt .storage (.write w)

/-- A fresh namespace id. -/
def newNamespaceId : Handler NamespaceId := do
  return ⟨← call .newUuid⟩

/-- `get_secret_by_handle`: two statements. -/
def getSecretByHandle (handle : Handle) : Handler (Option Secret) := do
  match ← query (.selectSecretRow handle) with
  | none => return none
  | some row => return some (secretOf row (← query (.loadVersionsForSecret row.id)))

/-- The caller that the agent's own entries name. -/
def agent : Option String := some "merkle-agent"

/-! ### The agent -/

/-- Clients run handlers, any number at a time; the agent may start again. -/
def agentSystem (K : Crates) (starts : Prog Op (Except AppError Reply) → Prop) :
    System AppState Op (Except AppError Reply) where
  exec := exec K
  starts := starts
  restart s s' := s' = rebooted s

end MerkleVault.App.Context
