import MerkleVault.App.MergeRestore

/-! # Backup and Disaster Recovery

A backup artifact is the encryption, to the master and the recovery recipient, of the secrets of a
namespace and of the wrapped Vault Root Key.  Disaster recovery reads it with the recovery identity,
wraps the root key anew and puts each secret.  A secret refers to its namespace, which the artifact
does not hold and nothing creates: on a fresh database the first put fails.

* `triggerBackup_yields`: what a backup that returns has written;
* `readBackup_yields`: what disaster recovery reads of it;
* `recovery_on_fresh_database_fails`: disaster recovery on a fresh database. -/

namespace MerkleVault.App.Recovery

open MerkleVault.Types MerkleVault.Lib.Program MerkleVault.Secrets.Aggregate
open MerkleVault.Sqlite.Tables MerkleVault.Sqlite.Versions MerkleVault.App.Context
open MerkleVault.App.Lifecycle MerkleVault.App.Host MerkleVault.App.BackupCommands
open MerkleVault.App.Restore MerkleVault.App.MergeRestore MerkleVault.App.Reveal
open MerkleVault.App.AuditDurability MerkleVault.Audit.Writer MerkleVault.Audit.Integrity

variable {W : World} {n : Node}

/-! ### Making a backup -/

/-- The artifact holds the payload for the two recipients. -/
def ArtifactOf (W : World) (cmd : TriggerBackupCommand) (payload : BackupPlaintext)
    (ciphertext : List UInt8) : Prop :=
  ∃ seed plaintext, W.encodeBackup payload = .ok plaintext ∧
    W.ageEncrypt seed [cmd.masterPubkeyRecipient, cmd.recoveryPubkeyRecipient] plaintext =
      .ok ciphertext

theorem recoveryWrap_yields : Yields (nodeRules W) (TriggerBackupCommand.recoveryWrap W) n
    fun n' wrap => n' = n ∧ ∀ age, wrap = some age → ∃ blob,
      n.keychain (keychainService, accountVrkRecovery) = some blob ∧ W.base64Decode blob = .ok age := by
  refine yields_bind (yields_port fun r n' hx => ?_) (P := fun n' r => n' = n ∧
    ∀ blob, r = .ok blob → n.keychain (keychainService, accountVrkRecovery) = some blob) ?_
  · rcases hx with ⟨rfl, hr⟩ | ⟨rfl, e, -, rfl⟩
    · refine ⟨rfl, fun blob hblob => ?_⟩
      cases hitem : n'.keychain (keychainService, accountVrkRecovery) with
      | none =>
        rw [hitem] at hr
        rw [hr] at hblob
        cases hblob
      | some value =>
        rw [hitem] at hr
        rw [hr] at hblob
        rw [Except.ok.inj hblob]
    · exact ⟨rfl, fun _ h => nomatch h⟩
  rintro n' r ⟨rfl, hr⟩
  match r, hr with
  | .ok blob, hr =>
    refine yields_bind (yields_ofExcept fun age hage => ⟨rfl, hage⟩)
      (P := fun m age => m = n' ∧ W.base64Decode blob = .ok age) ?_
    rintro m age ⟨rfl, hage⟩
    refine yields_pure ⟨rfl, ?_⟩
    rintro _ ⟨⟩
    exact ⟨blob, hr blob rfl, hage⟩
  | .error .notFound, _ => exact yields_pure ⟨rfl, fun _ h => nomatch h⟩
  | .error .permissionDenied, _ => exact yields_throw _
  | .error (.persistenceFailed _ _), _ => exact yields_throw _
  | .error (.backend _), _ => exact yields_throw _

/-- Actions of the context that call no port leave the files. -/
theorem contextFiles {β : Type} {op : Op β} {n' : Node} {r : β} (hport : isPort op = false)
    (hx : appExec W op n r n') : n'.files = n.files := by
  rw [appExec_frame hport hx]

theorem persist_yields (cmd : TriggerBackupCommand) (count : UInt32) (ciphertext : List UInt8) :
    Yields (nodeRules W) (TriggerBackupCommand.persist W cmd count ciphertext) n fun n' _ =>
      n'.files cmd.outputPath = some ciphertext := by
  refine yields_bind (yields_any _) fun n₀ key _ => ?_
  by_cases hsize : 2 ^ 64 ≤ ciphertext.length
  · rw [if_pos hsize]
    exact yields_throw _
  rw [if_neg hsize]
  refine yields_bind (yields_attempt trivial fun _ n₁ hx => ?_)
    (P := fun n₁ _ => n₁.files cmd.outputPath = some ciphertext) ?_
  · rcases hx with ⟨-, -, rfl⟩ | ⟨-, e, he⟩
    · exact Function.update_self _ _ _
    · cases he
  intro n₁ _ h₁
  refine yields_bind (yields_app fun _ n₂ hx => ?_)
    (P := fun n₂ _ => n₂.files cmd.outputPath = some ciphertext) ?_
  · rw [contextFiles rfl hx]
    exact h₁
  intro n₂ snapshotId h₂
  refine yields_bind (yields_port fun _ n₃ hx => ?_)
    (P := fun n₃ _ => n₃.files cmd.outputPath = some ciphertext) ?_
  · obtain rfl : n₃ = n₂ := hx
    exact h₂
  intro n₃ createdAt h₃
  refine yields_bind (yields_app fun _ n₄ hx => ?_)
    (P := fun n₄ _ => n₄.files cmd.outputPath = some ciphertext) ?_
  · rw [contextFiles rfl hx]
    exact h₃
  intro n₄ id h₄
  refine yields_bind (yields_vault fun r n₅ hx => ?_)
    (P := fun n₅ _ => n₅.files cmd.outputPath = some ciphertext) ?_
  · rcases hx with ⟨-, rfl⟩ | ⟨rfl, -⟩
    · exact h₄
    · exact h₄
  intro n₅ r h₅
  cases r with
  | error e => exact yields_bind (yields_any _) fun _ _ _ => yields_throw _
  | ok u =>
    refine yields_bind (yields_embedded (yields_attemptContext fun _ n₆ hx => ?_))
      (P := fun n₆ _ => n₆.files cmd.outputPath = some ciphertext) ?_
    · rw [contextFiles rfl hx]
      exact h₅
    · exact fun n₆ _ h₆ => yields_pure h₆

/-- **What a backup that returns has written**: the secrets of its namespace, at least one. -/
theorem triggerBackup_yields (cmd : TriggerBackupCommand) :
    Yields (nodeRules W) (cmd.execute W) n fun n' _ => ∃ payload ciphertext,
      ArtifactOf W cmd payload ciphertext ∧ n'.files cmd.outputPath = some ciphertext ∧
      payload.secrets ≠ [] ∧
      (∃ rows : List SecretRow,
        rows.Perm (n.app.store.secrets.filter fun row => row.namespaceId = cmd.namespaceId) ∧
        payload.secrets = rows.map (loaded n.app.store)) ∧
      ∀ age, payload.vrkRecoveryAge = some age → ∃ blob,
        n.keychain (keychainService, accountVrkRecovery) = some blob ∧ W.base64Decode blob = .ok age := by
  refine yields_bind (yields_embedded requireUnsealed_yields) ?_
  rintro n' _ ⟨rfl, -⟩
  split_ifs with hempty hsame
  · exact yields_throw _
  · exact yields_throw _
  refine yields_bind (listSecrets_yields cmd.namespaceId) ?_
  rintro m secrets ⟨rfl, hsecrets⟩
  split_ifs with hcount hzero
  · exact yields_throw _
  · exact yields_throw _
  refine yields_bind recoveryWrap_yields ?_
  rintro m' wrap ⟨rfl, hwrap⟩
  refine yields_bind (yields_ofExcept fun plaintext hplain => ⟨rfl, hplain⟩) (P := fun m plaintext =>
    m = m' ∧ W.encodeBackup ⟨wrap, secrets⟩ = .ok plaintext) ?_
  rintro m plaintext ⟨rfl, hplain⟩
  refine yields_bind (yields_attemptPort fun ciphertext m' hx => ?_) (P := fun m' ciphertext =>
    ArtifactOf W cmd ⟨wrap, secrets⟩ ciphertext) ?_
  · obtain ⟨-, seed, hseed⟩ := hx
    exact ⟨seed, plaintext, hplain, hseed.symm⟩
  intro m' ciphertext hartifact
  refine (persist_yields cmd _ ciphertext).mono fun m'' _ hfile => ?_
  refine ⟨⟨wrap, secrets⟩, ciphertext, hartifact, hfile, ?_, hsecrets, hwrap⟩
  rintro rfl
  exact hzero rfl

/-! ### Reading a backup -/

theorem recoveryIdentityMatches_yields (identity storedPubkey : String) :
    Yields (contextRules W) (recoveryIdentityMatches identity storedPubkey) n fun n' _ => n' = n := by
  refine yields_bind (yields_attemptContext fun _ n' hx => hx.1) (P := fun n' _ => n' = n) ?_
  rintro n' ciphertext rfl
  refine yields_bind (yields_context fun _ m hx => hx.1) (P := fun m _ => m = n') ?_
  rintro m r rfl
  cases r with
  | ok _ => exact yields_pure rfl
  | error _ => exact yields_pure rfl

/-- What disaster recovery reads of its backup file. -/
structure ReadFrom (W : World) (n : Node) (cmd : DisasterRecoverCommand) (vrk : Key)
    (secrets : List Secret) (ciphertext : List UInt8) (payload : BackupPlaintext) : Prop where
  file : n.files cmd.backupPath = some ciphertext
  decoded : ∃ plaintext, W.ageDecrypt cmd.recoveryIdentity ciphertext = .ok plaintext ∧
    W.decodeBackup plaintext = .ok payload
  rootKey : ∃ age bytes, payload.vrkRecoveryAge = some age ∧
    W.ageDecrypt cmd.recoveryIdentity age = .ok bytes ∧ keyOfSlice bytes = some vrk
  secrets : payload.secrets = secrets

theorem readBackup_yields (cmd : DisasterRecoverCommand) :
    Yields (contextRules W) (readBackup W.toEnv cmd) n fun n' result => n' = n ∧
      ∃ ciphertext payload, ReadFrom W n cmd result.1 result.2 ciphertext payload := by
  refine yields_bind (yields_attemptContext fun ciphertext n' hx => ?_)
    (P := fun n' ciphertext => n' = n ∧ n.files cmd.backupPath = some ciphertext) ?_
  · obtain ⟨rfl, ⟨contents, hfile, hr⟩ | ⟨e, he⟩⟩ := hx
    · exact ⟨rfl, by rw [hfile, Except.ok.inj hr]⟩
    · cases he
  rintro n' ciphertext ⟨rfl, hfile⟩
  refine yields_bind (yields_attemptContext fun plaintext m hx => ⟨hx.1, hx.2.symm⟩)
    (P := fun m plaintext => m = n' ∧
      W.ageDecrypt cmd.recoveryIdentity ciphertext = .ok plaintext) ?_
  rintro m plaintext ⟨rfl, hplain⟩
  refine yields_bind (yields_ofExcept fun payload hpayload => ⟨rfl, hpayload⟩)
    (P := fun m' payload => m' = m ∧ W.decodeBackup plaintext = .ok payload) ?_
  rintro m' payload ⟨rfl, hpayload⟩
  refine yields_bind (yields_orThrow fun age hage => ⟨rfl, hage⟩)
    (P := fun m age => m = m' ∧ payload.vrkRecoveryAge = some age) ?_
  rintro m age ⟨rfl, hage⟩
  refine yields_bind (yields_attemptContext fun bytes m' hx => ⟨hx.1, hx.2.symm⟩)
    (P := fun m' bytes => m' = m ∧ W.ageDecrypt cmd.recoveryIdentity age = .ok bytes) ?_
  rintro m' bytes ⟨rfl, hbytes⟩
  refine yields_bind (yields_orThrow fun vrk hvrk => ⟨rfl, hvrk⟩)
    (P := fun m vrk => m = m' ∧ keyOfSlice bytes = some vrk) ?_
  rintro m vrk ⟨rfl, hvrk⟩
  exact yields_pure ⟨rfl, ciphertext, payload, hfile, ⟨plaintext, hplain, hpayload⟩,
    ⟨age, bytes, hage, hbytes, hvrk⟩, rfl⟩

/-! ### Wrapping the root key anew -/

theorem storeOrUndo_yields (account : String) (value : List UInt8) (undo : List String) :
    Yields (contextRules W) (storeOrUndo account value undo) n fun n' _ =>
      n' = n.setKeychain (keychainService, account) (some value) := by
  refine yields_bind (yields_context fun r n' hx => ?_) (P := fun n' r => r = .ok () →
    n' = n.setKeychain (keychainService, account) (some value)) ?_
  · rintro rfl
    rcases hx with ⟨-, rfl⟩ | ⟨htook, -⟩
    · rfl
    · cases htook
  intro n' r h
  cases r with
  | ok u => exact yields_pure (h rfl)
  | error e => exact yields_bind (yields_anyContext _) fun _ _ _ => yields_throw _

/-- The keychain after the root key is wrapped anew under a master key. -/
def rewrapped (W : World) (n : Node) (master : Key) (nonce : Vector UInt8 24)
    (wrapped forRecovery : List UInt8) : Node :=
  ((n.setKeychain (keychainService, accountMasterKey) (some master.toList)).setKeychain
    (keychainService, accountVrkMaster) (some (W.base64Encode (nonce.toList ++ wrapped)))).setKeychain
    (keychainService, accountVrkRecovery) (some (W.base64Encode forRecovery))

theorem rewrap_yields (vrk : Key) (storedPubkey : String) :
    Yields (contextRules W) (rewrap W.toEnv vrk storedPubkey) n fun n' _ =>
      ∃ master nonce wrapped forRecovery seed, n' = rewrapped W n master nonce wrapped forRecovery ∧
        W.aeadEncrypt master nonce vrk.toList vrkMasterAad = .ok wrapped ∧
        W.ageEncrypt seed [storedPubkey] vrk.toList = .ok forRecovery := by
  refine yields_bind (yields_context fun _ n' hx => hx) (P := fun n' _ => n' = n) ?_
  rintro n' master rfl
  refine yields_bind (yields_attemptContext fun _ m hx => ?_) (P := fun m _ =>
    m = n'.setKeychain (keychainService, accountMasterKey) (some master.toList)) ?_
  · rcases hx with ⟨-, rfl⟩ | ⟨htook, -⟩
    · rfl
    · cases htook
  rintro _ _ rfl
  refine yields_bind (yields_context fun _ m hx => hx) (P := fun m _ =>
    m = n'.setKeychain (keychainService, accountMasterKey) (some master.toList)) ?_
  rintro _ nonce rfl
  refine yields_bind (yields_ofExcept fun wrapped hwrapped => ⟨rfl, hwrapped⟩) (P := fun m wrapped =>
    m = n'.setKeychain (keychainService, accountMasterKey) (some master.toList) ∧
      W.aeadEncrypt master nonce vrk.toList vrkMasterAad = .ok wrapped) ?_
  rintro _ wrapped ⟨rfl, hwrapped⟩
  refine yields_bind (storeOrUndo_yields accountVrkMaster _ _) ?_
  rintro m _ hm
  refine yields_bind (yields_attemptContext fun forRecovery m' hx => ⟨hx.1, hx.2⟩)
    (P := fun m' forRecovery => m' = m ∧
      ∃ seed, .ok forRecovery = W.ageEncrypt seed [storedPubkey] vrk.toList) ?_
  rintro m' forRecovery ⟨rfl, seed, hseed⟩
  refine (storeOrUndo_yields accountVrkRecovery _ _).mono ?_
  rintro m'' _ rfl
  exact ⟨master, nonce, wrapped, forRecovery, seed, by rw [hm]; rfl, hwrapped, hseed.symm⟩

/-! ### A fresh database -/

/-- Nothing is stored, and no namespace is there to store under. -/
structure FreshDatabase (st : Store) : Prop where
  namespaces : st.namespaces = []
  secrets : st.secrets = []

theorem FreshDatabase.put_fails {st : Store} (h : FreshDatabase st) (s : Secret) :
    st.putSecret s = .error foreignKeyViolation := by
  have hrow : upsertSecretRow st s = .error foreignKeyViolation := by
    unfold upsertSecretRow
    rw [h.secrets, h.namespaces]
    rfl
  unfold Store.putSecret
  rw [hrow]
  rfl

theorem rehydrate_yields (hfresh : FreshDatabase n.app.store) {secrets : List Secret} (hne : secrets ≠ [])
    (count : UInt32) : Yields (contextRules W) (rehydrate secrets count) n fun _ _ => False := by
  cases secrets with
  | nil => exact absurd rfl hne
  | cons s rest =>
    refine yields_bind (write_yields (.putSecret s)) ?_
    rintro n' _ ⟨store, hput, -⟩
    rw [show (Write.putSecret s).apply n.app.store = .error foreignKeyViolation from
      hfresh.put_fails s] at hput
    cases hput

/-- Disaster recovery from a payload with secrets does not return on a fresh database. -/
theorem disasterRecover_yields (cmd : DisasterRecoverCommand) (hfresh : FreshDatabase n.app.store)
    (hread : ∀ vrk secrets ciphertext payload, ReadFrom W n cmd vrk secrets ciphertext payload →
      payload.secrets ≠ []) :
    Yields (contextRules W) (cmd.execute W.toEnv) n fun _ _ => False := by
  unfold DisasterRecoverCommand.execute
  split_ifs with hidentity hpath
  · exact yields_throw _
  · exact yields_throw _
  refine yields_bind (yields_context fun _ n' hx => hx.1) (P := fun n' _ => n' = n) ?_
  rintro n' storedPubkey rfl
  refine yields_bind (recoveryIdentityMatches_yields _ _) ?_
  rintro m matched rfl
  cases matched with
  | false => exact yields_bind (yields_anyContext _) fun _ _ _ => yields_throw _
  | true =>
    refine yields_bind (readBackup_yields cmd) ?_
    rintro m' ⟨vrk, secrets⟩ ⟨rfl, ciphertext, payload, hfrom⟩
    have hne := hread vrk secrets ciphertext payload hfrom
    rw [hfrom.secrets] at hne
    refine yields_bind (rewrap_yields vrk storedPubkey) ?_
    rintro _ _ ⟨master, nonce, wrapped, forRecovery, seed, rfl, -⟩
    have hfresh' : FreshDatabase (rewrapped W m' master nonce wrapped forRecovery).app.store := hfresh
    refine yields_bind (rehydrate_yields hfresh' hne 0) ?_
    rintro _ _ ⟨⟩

/-- **Disaster recovery on a fresh database fails**, for every vault that a backup was made of: no run
of it returns. -/
theorem recovery_on_fresh_database_fails (W : World) (hW : W.Lawful) (n n' m m' : Node)
    (backup : TriggerBackupCommand) (made : NodeReply) (hist hist' : List (Event NodeOp))
    (hbackup : Runs (nodeExec W) (backup.execute W).run n hist (.ok made) n')
    (recover : DisasterRecoverCommand) (hfresh : FreshDatabase m.app.store)
    (hfile : m.files recover.backupPath = n'.files backup.outputPath)
    (hidentity : W.agePublic recover.recoveryIdentity = backup.recoveryPubkeyRecipient)
    (result : Except NodeError Reply)
    (hrecover : Runs (nodeExec W) (runInContext (recover.execute W.toEnv)).run m hist' result m') :
    ∃ e, result = .error e := by
  obtain ⟨payload, ciphertext, ⟨seed, plaintext, hencode, hencrypt⟩, hwritten, hne, -, -⟩ :=
    wp_runs (triggerBackup_yields backup) hbackup made rfl
  have hdecrypt := hW.age seed _ plaintext ciphertext recover.recoveryIdentity
    (by rw [hidentity]; simp) hencrypt
  have hdecode := hW.backup payload plaintext hencode
  have hread : ∀ vrk secrets ciphertext payload,
      ReadFrom W m recover vrk secrets ciphertext payload → payload.secrets ≠ [] := by
    rintro vrk secrets read payload' ⟨hread, ⟨plaintext', hplain, hpayload⟩, -, -⟩
    obtain rfl : ciphertext = read := by
      rw [hfile, hwritten] at hread
      exact Option.some.inj hread
    obtain rfl := Except.ok.inj (hdecrypt.symm.trans hplain)
    obtain rfl := Except.ok.inj (hdecode.symm.trans hpayload)
    simpa using hne
  cases result with
  | error e => exact ⟨e, rfl⟩
  | ok reply =>
    exact (wp_runs (yields_embedded (disasterRecover_yields recover hfresh hread)) hrecover reply
      rfl).elim

/-! ### A backup and its recovery -/

/-- One secret and the wrapped root key. -/
def sampleWrapped : BackupPlaintext :=
  { samplePayload 2 1 with vrkRecoveryAge := some sampleKey.toList }

/-- A backup of the sample namespace. -/
def sampleTrigger : TriggerBackupCommand where
  namespaceId := ⟨sampleUuid 1⟩
  masterPubkeyRecipient := "age1m"
  recoveryPubkeyRecipient := "age1r"
  outputPath := "vault.age"

/-- A vault with that secret, and the wrapped root key in the keychain. -/
def sampleHeld : Node where
  app := { sampleState with store := sampleStoreOf 2 1 }
  keychain _ := some sampleKey.toList
  files _ := none
  recoveryPubkey := "age1r"
  backups := []
  restorePlans := []
  initLocked := false

/-- Another machine: no keys, nothing stored, and the artifact. -/
def sampleNewMachine : Node := { sampleHeld with
  app := rebooted { sampleState with store := Store.empty }
  keychain := fun _ => none
  files := fun _ => some [0] }

/-- A recovery from it. -/
def sampleRecover : DisasterRecoverCommand := ⟨"r", "vault.age"⟩

theorem sampleTrigger_runs : ∃ made n', n'.files "vault.age" = some [0] ∧ ∃ hist,
    Runs (nodeExec (sampleWorld sampleWrapped)) (sampleTrigger.execute (sampleWorld sampleWrapped)).run
      sampleHeld hist (.ok made) n' := by
  let n := sampleHeld
  let s₁ : AppState := { n.app with issued := [sampleUuid 20] }
  let s₂ : AppState := { n.app with issued := [sampleUuid 21, sampleUuid 20] }
  let n₁ := n.setFile "vault.age" (some [0])
  let backup : Backup := ⟨sampleUuid 21, ⟨sampleUuid 1⟩, sampleUuid 20, "vault.age",
    backupHmac (sampleWorld sampleWrapped) sampleKey [0], 1, 1, epoch⟩
  have hversions : n.app.store.loadVersionsForSecret (sampleRowOf 2 1).id = [sampleVersionOf 2 1] :=
    congrArg Secret.versions (sampleStoreOf_loaded 2 1)
  obtain ⟨s₃, hx, -⟩ := first_commit (sampleWorld sampleWrapped).toCrates
    { op := .backup, outcome := .allow, namespaceId := ⟨sampleUuid 1⟩, callerProgram := agent }
    sampleKey (sampleCall 1).draw s₂ rfl
  refine ⟨.backedUp backup, { n₁ with app := s₃, backups := [backup] }, rfl, ?_⟩
  refine exists_runs_act rfl true n ⟨rfl, rfl⟩ ?_
  refine exists_runs_act rfl (.ok [sampleRowOf 2 1]) n
    ⟨rfl, none, _, ⟨List.Perm.refl _, List.pairwise_singleton _ _⟩, rfl⟩ ?_
  refine exists_runs_act rfl (.ok [sampleVersionOf 2 1]) n
    ⟨⟨rfl, none, by rw [← hversions]; rfl⟩, rfl⟩ ?_
  refine exists_runs_act rfl (.ok sampleKey.toList) n (.inl ⟨rfl, rfl⟩) ?_
  refine exists_runs_act rfl (.ok [0]) n ⟨rfl, 0, rfl⟩ ?_
  refine exists_runs_act rfl (some sampleKey) n ⟨⟨rfl, rfl⟩, rfl⟩ ?_
  refine exists_runs_act rfl (.ok ()) n₁ (.inl ⟨rfl, rfl, rfl⟩) ?_
  refine exists_runs_act rfl (sampleUuid 20) { n₁ with app := s₁ } ⟨⟨by decide, rfl⟩, rfl⟩ ?_
  refine exists_runs_act rfl epoch { n₁ with app := s₁ } rfl ?_
  refine exists_runs_act rfl (sampleUuid 21) { n₁ with app := s₂ } ⟨⟨by decide, rfl⟩, rfl⟩ ?_
  refine exists_runs_act rfl (.ok ()) { n₁ with app := s₂, backups := [backup] } (.inl ⟨rfl, rfl⟩) ?_
  refine exists_runs_act rfl (.ok ()) { n₁ with app := s₃, backups := [backup] } ⟨⟨_, _, hx⟩, rfl⟩ ?_
  exact exists_runs_ret rfl

theorem sampleRecover_runs : ∃ m' hist,
    Runs (nodeExec (sampleWorld sampleWrapped))
      (runInContext (sampleRecover.execute (sampleWorld sampleWrapped).toEnv)).run sampleNewMachine hist
      (.error (.app (.storage foreignKeyViolation))) m' := by
  let m := sampleNewMachine
  let m₁ := m.setKeychain (keychainService, accountMasterKey) (some sampleKey.toList)
  let m₂ := m₁.setKeychain (keychainService, accountVrkMaster)
    (some (List.replicate 24 0 ++ (sampleKey.toList ++ sampleKey.toList ++ List.replicate 16 0)))
  let m₃ := m₂.setKeychain (keychainService, accountVrkRecovery) (some sampleKey.toList)
  refine ⟨m₃, ?_⟩
  refine exists_runs_act rfl "age1r" m ⟨rfl, rfl⟩ ?_
  refine exists_runs_act rfl (.ok sentinel) m ⟨rfl, 0, rfl⟩ ?_
  refine exists_runs_act rfl (.ok sentinel) m ⟨rfl, rfl⟩ ?_
  refine exists_runs_act rfl (.ok [0]) m ⟨rfl, .inl ⟨_, rfl, rfl⟩⟩ ?_
  refine exists_runs_act rfl (.ok [0]) m ⟨rfl, rfl⟩ ?_
  refine exists_runs_act rfl (.ok sampleKey.toList) m ⟨rfl, rfl⟩ ?_
  refine exists_runs_act rfl sampleKey m rfl ?_
  refine exists_runs_act rfl (.ok ()) m₁ (.inl ⟨rfl, rfl⟩) ?_
  refine exists_runs_act rfl (Vector.replicate 24 0) m₁ rfl ?_
  refine exists_runs_act rfl (.ok ()) m₂ (.inl ⟨rfl, rfl⟩) ?_
  refine exists_runs_act rfl (.ok sampleKey.toList) m₂ ⟨rfl, 0, rfl⟩ ?_
  refine exists_runs_act rfl (.ok ()) m₃ (.inl ⟨rfl, rfl⟩) ?_
  refine exists_runs_act rfl (.error foreignKeyViolation) m₃ ⟨⟨none, rfl⟩, rfl⟩ ?_
  exact exists_runs_ret rfl

theorem sampleNewMachine_fresh : FreshDatabase sampleNewMachine.app.store := ⟨rfl, rfl⟩

/-- A recovery of a backup with one secret. -/
theorem sample_recovery_fails : ∃ hist result m',
    Runs (nodeExec (sampleWorld sampleWrapped))
      (runInContext (sampleRecover.execute (sampleWorld sampleWrapped).toEnv)).run sampleNewMachine hist
      result m' ∧ ∃ e, result = .error e := by
  obtain ⟨made, n', hfile, hist', hbackup⟩ := sampleTrigger_runs
  obtain ⟨m', hist, hrun⟩ := sampleRecover_runs
  exact ⟨hist, _, m', hrun, recovery_on_fresh_database_fails _ (sampleWorld_lawful _) _ n' _ m' _ made
    hist' hist hbackup sampleRecover sampleNewMachine_fresh hfile.symm (by decide) _ hrun⟩

/-- **The round trip fails without any fault**: the backup goes through, and the recovery with its
identity ends at the foreign key of the first secret. -/
theorem recovery_stops_at_foreign_key : (sampleWorld sampleWrapped).Lawful ∧
    FreshDatabase sampleNewMachine.app.store ∧
    (∃ made n', n'.files "vault.age" = sampleNewMachine.files "vault.age" ∧ ∃ hist,
      Runs (nodeExec (sampleWorld sampleWrapped))
        (sampleTrigger.execute (sampleWorld sampleWrapped)).run sampleHeld hist (.ok made) n') ∧
    ∃ m' hist, Runs (nodeExec (sampleWorld sampleWrapped))
      (runInContext (sampleRecover.execute (sampleWorld sampleWrapped).toEnv)).run sampleNewMachine hist
      (.error (.app (.storage foreignKeyViolation))) m' :=
  ⟨sampleWorld_lawful _, sampleNewMachine_fresh, sampleTrigger_runs, sampleRecover_runs⟩

end MerkleVault.App.Recovery
