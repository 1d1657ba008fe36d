import MerkleVault.App.UnsealRoutes
import MerkleVault.App.InitVault
import MerkleVault.App.Rebaseline

/-! # What a Recovery Leaves in the Keychain

Disaster recovery draws a fresh master key and stores it over the old one, wraps the root key of the
backup under it and stores that, and then the wrap for the recovery recipient.  A step that fails
deletes what was stored before and does not bring back what was there; steps that fail later, and the
passphrase that wraps the old master key, are left as they are.

* `rewrap_leaves`: the ways in which the wrapping ends;
* `recovery_keeps_routes_iff`: both routes to unseal work after a recovery exactly when it drew the
  master key that the passphrase wraps. -/

namespace MerkleVault.App.RecoveryOutcome

open MerkleVault.Types MerkleVault.Lib.Program MerkleVault.Identity MerkleVault.App.Context
open MerkleVault.App.Lifecycle MerkleVault.App.Host MerkleVault.App.Restore
open MerkleVault.App.IdentitySections MerkleVault.App.KeyMaterial MerkleVault.App.Recovery
open MerkleVault.App.UnsealRoutes MerkleVault.App.InitVault MerkleVault.Audit.Writer
open MerkleVault.App.AuditDurability MerkleVault.App.MergeRestore MerkleVault.App.Rebaseline
open MerkleVault.App.Reveal MerkleVault.Audit.Integrity MerkleVault.Sqlite.Tables

/-! ### What is drawn and stored -/

/-- A key that a call of a port draws. -/
def drawsPort {β : Type} : Port β → β → Option Key
  | .randomBytes32, key => some key
  | _, _ => none

/-- The keys that were drawn. -/
def drawn (hist : List (Event Op)) : List Key := collect (ofPort none drawsPort) hist

/-- An item that was to be stored, whether it then was there, and whether the store failed. -/
structure Attempt where
  account : String
  stored : Bool
  failed : Bool
deriving DecidableEq

/-- The store of an item went through. -/
def stored (account : String) : Attempt := ⟨account, true, false⟩

/-- The store of an item failed, before or after it took effect. -/
def refused (account : String) (late : Bool) : Attempt := ⟨account, late, true⟩

/-- A store that a call of a port attempts. -/
def storesPort {β : Type} : Port β → β → Option Attempt
  | .keychainStore _ account _, r => some ⟨account, tookEffect r, !r.isOk⟩
  | _, _ => none

/-- The stores that were attempted. -/
def attempts (hist : List (Event Op)) : List Attempt := collect (ofPort none storesPort) hist

/-- The node, and what was drawn and stored so far. -/
structure At (n : Node) (keys : List Key) (stores : List Attempt) (m : Node × List (Event Op)) :
    Prop where
  node : m.1 = n
  keys : drawn m.2 = keys
  stores : attempts m.2 = stores

/-- The node with a master key. -/
def withMaster (n : Node) (master : Key) : Node :=
  n.setKeychain (keychainService, accountMasterKey) (some master.toList)

/-- The node with a master key and the root key wrapped under it. -/
def withWrapped (W : World) (n : Node) (master : Key) (nonce : Vector UInt8 24)
    (wrapped : List UInt8) : Node :=
  (withMaster n master).setKeychain (keychainService, accountVrkMaster)
    (some (wrapBlob W nonce wrapped))

/-- The node after the store of an item that failed, before or after it took effect. -/
def afterRefused (n : Node) (account : String) (value : List UInt8) (late : Bool) : Node :=
  if late then n.setKeychain (keychainService, account) (some value) else n

/-- How the wrapping of a root key under a fresh master key ends; `undone` says what the deletes
leave. -/
inductive Rewraps (W : World) (n : Node) (vrk : Key) (storedPubkey : String) (master : Key)
    (undone : List String → Node → Node → Prop) :
    List Attempt → Node → Except AppError Unit → Prop
  | masterRefused (late : Bool) (e : AppError) :
      Rewraps W n vrk storedPubkey master undone [refused accountMasterKey late]
        (afterRefused n accountMasterKey master.toList late) (.error e)
  | wrapFails (e : AppError) :
      Rewraps W n vrk storedPubkey master undone [stored accountMasterKey] (withMaster n master)
        (.error e)
  | vrkRefused (late : Bool) (blob : List UInt8) (n' : Node) (e : AppError)
      (h : undone [accountMasterKey]
        (afterRefused (withMaster n master) accountVrkMaster blob late) n') :
      Rewraps W n vrk storedPubkey master undone
        [stored accountMasterKey, refused accountVrkMaster late] n' (.error e)
  | recoveryWrapFails (nonce : Vector UInt8 24) (wrapped : List UInt8) (e : AppError)
      (h : W.aeadEncrypt master nonce vrk.toList vrkMasterAad = .ok wrapped) :
      Rewraps W n vrk storedPubkey master undone
        [stored accountMasterKey, stored accountVrkMaster] (withWrapped W n master nonce wrapped)
        (.error e)
  | recoveryRefused (nonce : Vector UInt8 24) (wrapped : List UInt8) (late : Bool)
      (blob : List UInt8) (n' : Node) (e : AppError)
      (h : undone [accountMasterKey, accountVrkMaster]
        (afterRefused (withWrapped W n master nonce wrapped) accountVrkRecovery blob late) n') :
      Rewraps W n vrk storedPubkey master undone
        [stored accountMasterKey, stored accountVrkMaster, refused accountVrkRecovery late] n'
        (.error e)
  | done (nonce : Vector UInt8 24) (wrapped forRecovery : List UInt8) (seed : Nat)
      (h : W.aeadEncrypt master nonce vrk.toList vrkMasterAad = .ok wrapped)
      (hage : W.ageEncrypt seed [storedPubkey] vrk.toList = .ok forRecovery) :
      Rewraps W n vrk storedPubkey master undone
        [stored accountMasterKey, stored accountVrkMaster, stored accountVrkRecovery]
        ((withWrapped W n master nonce wrapped).setKeychain (keychainService, accountVrkRecovery)
          (some (W.base64Encode forRecovery))) (.ok ())

section Steps

variable {W : World} {E : Event Op → Prop} {n : Node} {keys : List Key} {stores : List Attempt}
  {m m' : Node × List (Event Op)}

/-- A call that draws no key and stores nothing. -/
def idlePort {β : Type} : Port β → Prop
  | .randomBytes32 => False
  | .keychainStore _ _ _ => False
  | _ => True

theorem At.idle (h : At n keys stores m) {β : Type} {p : Port β} (hp : idlePort p) (n' : Node) {r : β} :
    At n' keys stores (n', m.2 ++ [⟨.port p, r⟩]) := by
  have hkey : ofPort none drawsPort (.port p) r = none := by
    cases p with
    | randomBytes32 => exact hp.elim
    | _ => rfl
  have hstore : ofPort none storesPort (.port p) r = none := by
    cases p with
    | keychainStore service account value => exact hp.elim
    | _ => rfl
  refine ⟨rfl, ?_, ?_⟩
  · unfold drawn
    rw [collect_concat, hkey]
    exact (List.append_nil _).trans h.keys
  · unfold attempts
    rw [collect_concat, hstore]
    exact (List.append_nil _).trans h.stores

theorem At.draw (h : At n keys stores m) (key : Key) :
    At n (keys ++ [key]) stores (n, m.2 ++ [⟨.port .randomBytes32, key⟩]) := by
  refine ⟨rfl, ?_, ?_⟩
  · unfold drawn
    rw [collect_concat]
    exact congrArg (· ++ [key]) h.keys
  · unfold attempts
    rw [collect_concat]
    exact (List.append_nil _).trans h.stores

theorem At.store (h : At n keys stores m) (account : String) (value : List UInt8)
    {r : Except KeychainFailure Unit}
    (hx : portExec W (.keychainStore keychainService account value) m.1 r m'.1)
    (hh : m'.2 = m.2 ++ [⟨.port (.keychainStore keychainService account value), r⟩]) :
    r = .ok () ∧ At (n.setKeychain (keychainService, account) (some value)) keys
        (stores ++ [stored account]) m' ∨
      ∃ failure, r = .error failure ∧ At (afterRefused n account value failure.effective) keys
        (stores ++ [refused account failure.effective]) m' := by
  have hkeys : drawn m'.2 = keys := by
    unfold drawn
    rw [hh, collect_concat]
    exact (List.append_nil _).trans h.keys
  have hstores : attempts m'.2 = stores ++ [⟨account, tookEffect r, !r.isOk⟩] := by
    unfold attempts
    rw [hh, collect_concat]
    exact congrArg (· ++ [_]) h.stores
  cases r with
  | ok _ =>
    obtain ⟨-, hn⟩ | ⟨htook, -⟩ := hx
    · exact .inl ⟨rfl, by rw [hn, h.node], hkeys, hstores⟩
    · cases htook
  | error failure =>
    refine .inr ⟨failure, rfl, ?_, hkeys, hstores⟩
    unfold afterRefused
    obtain ⟨htook, hn⟩ | ⟨htook, hn⟩ := hx
    · rw [hn, h.node]
      exact (if_pos htook).symm
    · rw [hn, h.node]
      exact (if_neg (Bool.eq_false_iff.mp htook)).symm

/-- What the deletes of items leave. -/
def Undoes (W : World) (E : Event Op → Prop) (undone : List String → Node → Node → Prop) : Prop :=
  ∀ accounts n keys stores m, At n keys stores m →
    Wp (tracedRules (appExec W) E) (deleteItems accounts).run m fun m' r =>
      r = .ok () ∧ ∃ n', undone accounts n n' ∧ At n' keys stores m'

variable {undone : List String → Node → Node → Prop}

theorem storeOrUndo_at (hundo : Undoes W E undone) (h : At n keys stores m) (account : String)
    (value : List UInt8) (undo : List String)
    {Q : Node × List (Event Op) → Except AppError Unit → Prop}
    (hok : ∀ m', At (n.setKeychain (keychainService, account) (some value)) keys
      (stores ++ [stored account]) m' → Q m' (.ok ()))
    (herr : ∀ m' n' late e, undone undo (afterRefused n account value late) n' →
      At n' keys (stores ++ [refused account late]) m' → Q m' (.error e)) :
    Wp (tracedRules (appExec W) E) (storeOrUndo account value undo).run m Q := by
  refine wp_except_bind.mpr (wp_call.mpr ⟨trivial, ?_⟩)
  rintro r m' ⟨hx, -, hh⟩
  obtain ⟨rfl, hm'⟩ | ⟨failure, rfl, hm'⟩ := h.store (W := W) account value hx hh
  · exact hok m' hm'
  · refine wp_except_bind.mpr ((hundo undo _ _ _ _ hm').mono ?_)
    rintro m'' _ ⟨rfl, n', hn', hm''⟩
    exact herr m'' n' _ _ hn' hm''

/-- **The ways in which the wrapping ends.** -/
theorem rewrap_leaves (hundo : Undoes W E undone) (h : At n [] [] m) (vrk : Key)
    (storedPubkey : String) :
    Wp (tracedRules (appExec W) E) (rewrap W.toEnv vrk storedPubkey).run m fun m' r =>
      ∃ master stores n', At n' [master] stores m' ∧
        Rewraps W n vrk storedPubkey master undone stores n' r := by
  refine wp_except_bind.mpr (wp_call.mpr ⟨trivial, ?_⟩)
  rintro master ⟨n₁, _⟩ ⟨hn₁, -, rfl⟩
  obtain rfl : n₁ = n := Eq.trans hn₁ h.node
  have h₁ := h.draw master
  refine wp_except_bind.mpr (wp_attempt.mpr ⟨trivial, ?_⟩)
  rintro r m₂ ⟨hx, -, hh⟩
  obtain ⟨rfl, h₂⟩ | ⟨failure, rfl, h₂⟩ := h₁.store (W := W) accountMasterKey master.toList hx hh
  swap
  · exact ⟨master, _, _, h₂, .masterRefused _ _⟩
  refine wp_except_bind.mpr (wp_call.mpr ⟨trivial, ?_⟩)
  rintro nonce ⟨n₃, _⟩ ⟨hn₃, -, rfl⟩
  obtain rfl : n₃ = withMaster n₁ master := Eq.trans hn₃ h₂.node
  have h₃ : At (withMaster n₁ master) [master] [stored accountMasterKey] (withMaster n₁ master, _) :=
    h₂.idle (p := .randomBytes24) trivial _ (r := nonce)
  refine wp_except_bind.mpr (wp_ofExcept.mpr ⟨fun wrapped hwrapped => ?_, fun e _ => ?_⟩)
  swap
  · exact ⟨master, _, _, h₃, .wrapFails _⟩
  refine wp_except_bind.mpr (storeOrUndo_at hundo h₃ accountVrkMaster _ _ (fun m₄ h₄ => ?_)
    fun m' n' late e hn' hm' => ⟨master, _, n', hm', .vrkRefused late _ n' e hn'⟩)
  refine wp_except_bind.mpr (wp_attempt.mpr ⟨trivial, ?_⟩)
  rintro r ⟨n₅, _⟩ ⟨⟨hn₅, seed, hseed⟩, -, rfl⟩
  obtain rfl : n₅ = withWrapped W n₁ master nonce wrapped := Eq.trans hn₅ h₄.node
  have h₅ : At (withWrapped W n₁ master nonce wrapped) [master]
      [stored accountMasterKey, stored accountVrkMaster] (withWrapped W n₁ master nonce wrapped, _) :=
    h₄.idle (p := .ageEncrypt [storedPubkey] vrk.toList) trivial _ (r := r)
  cases r with
  | error e => exact ⟨master, _, _, h₅, .recoveryWrapFails nonce wrapped _ hwrapped⟩
  | ok forRecovery =>
    refine storeOrUndo_at hundo h₅ accountVrkRecovery _ _ (fun m₆ h₆ => ?_)
      fun m' n' late e hn' hm' => ⟨master, _, n', hm', .recoveryRefused nonce wrapped late _ n' e hn'⟩
    exact ⟨master, _, _, h₆, .done nonce wrapped forRecovery seed hwrapped hseed.symm⟩

end Steps

/-! ### The whole command -/

/-- The root key that a backup file holds for an identity. -/
def backupKey (W : World) (n : Node) (cmd : DisasterRecoverCommand) : Option Key := do
  let plaintext ← (W.ageDecrypt cmd.recoveryIdentity (← n.files cmd.backupPath)).toOption
  let payload ← (W.decodeBackup plaintext).toOption
  let bytes ← (W.ageDecrypt cmd.recoveryIdentity (← payload.vrkRecoveryAge)).toOption
  keyOfSlice bytes

/-- The keychain and the lifecycle state, and what was drawn and stored so far. -/
structure After (K : Keychain) (i : VaultIdentity) (keys : List Key) (stores : List Attempt)
    (m : Node × List (Event Op)) : Prop where
  keychain : m.1.keychain = K
  identity : m.1.app.identity = i
  keys : drawn m.2 = keys
  stores : attempts m.2 = stores

/-- How a recovery ends. -/
inductive Recovers (W : World) (n : Node) (cmd : DisasterRecoverCommand)
    (undone : List String → Node → Node → Prop) :
    Node × List (Event Op) → Except AppError Reply → Prop
  /-- Before anything is stored. -/
  | early (m : Node × List (Event Op)) (e : AppError)
      (h : After n.keychain n.app.identity [] [] m) : Recovers W n cmd undone m (.error e)
  /-- While the root key is wrapped. -/
  | unwrapped (m : Node × List (Event Op)) (e : AppError) {vrk master : Key} {storedPubkey : String}
      {stores : List Attempt} {n' : Node} {e' : AppError} (hkey : backupKey W n cmd = some vrk)
      (hends : Rewraps W n vrk storedPubkey master undone stores n' (.error e'))
      (h : After n'.keychain n'.app.identity [master] stores m) : Recovers W n cmd undone m (.error e)
  /-- After the root key is wrapped, before or after the vault is unsealed with it. -/
  | wrapped (m : Node × List (Event Op)) (r : Except AppError Reply) {vrk master : Key}
      {storedPubkey : String} {stores : List Attempt} {n' : Node} {i : VaultIdentity}
      (hkey : backupKey W n cmd = some vrk)
      (hends : Rewraps W n vrk storedPubkey master undone stores n' (.ok ()))
      (hi : i = n.app.identity ∧ r.isOk = false ∨ i = (recoverIdentity n.app.identity vrk).2)
      (hok : r.isOk = true → (recoverIdentity n.app.identity vrk).1.isOk = true)
      (h : After n'.keychain i [master] stores m) : Recovers W n cmd undone m r

section Command

variable {W : World} {E : Event Op → Prop} {n : Node} {K : Keychain} {i : VaultIdentity}
  {keys : List Key} {stores : List Attempt} {m m' : Node × List (Event Op)}
  {undone : List String → Node → Node → Prop}

theorem backupKey_of_readFrom {cmd : DisasterRecoverCommand} {vrk : Key}
    {secrets : List Secrets.Aggregate.Secret} {ciphertext : List UInt8} {payload : BackupPlaintext}
    (h : ReadFrom W n cmd vrk secrets ciphertext payload) : backupKey W n cmd = some vrk := by
  obtain ⟨hfile, ⟨plaintext, hplain, hpayload⟩, ⟨age, bytes, hage, hbytes, hvrk⟩, -⟩ := h
  unfold backupKey
  simp only [hfile, hplain, hpayload, hage, hbytes, hvrk, Except.toOption, Option.bind_eq_bind,
    Option.bind_some]

theorem At.after (h : At n keys stores m) : After n.keychain n.app.identity keys stores m :=
  ⟨by rw [h.node], by rw [h.node], h.keys, h.stores⟩

/-- A call of a port that a recovery makes before its stores. -/
def apartPort {β : Type} : Port β → Prop
  | .recoveryPubkey => True
  | .ageEncrypt _ _ => True
  | .ageDecrypt _ _ => True
  | .readFile _ => True
  | _ => False

/-- The calls that read a backup. -/
def readsBackup {β : Type} : Op β → Prop
  | .port p => apartPort p
  | _ => False

/-- Actions that leave the keychain and the lifecycle state, draw no key and store nothing. -/
def apart {β : Type} : Op β → Prop
  | .port p => apartPort p
  | op => leavesIdentity op

/-- Draws of identifiers, reads of the audit key, commits of entries and writes of rows. -/
def records {β : Type} : Op β → Prop
  | .newUuid => True
  | .readHmacKey => True
  | .auditCommit _ _ => True
  | .write _ => True
  | _ => False

theorem apart_of_records {β : Type} {op : Op β} (h : records op) : apart op := by
  cases op with
  | port p => exact h.elim
  | writeHmacKey key => exact h.elim
  | _ => exact h

theorem apart_silent {β : Type} {op : Op β} (hop : apart op) (r : β) :
    ofPort none drawsPort op r = none ∧ ofPort none storesPort op r = none := by
  cases op with
  | port p =>
    cases p with
    | randomBytes32 => exact hop.elim
    | keychainStore service account value => exact hop.elim
    | _ => exact ⟨rfl, rfl⟩
  | _ => exact ⟨rfl, rfl⟩

theorem apart_leaves {β : Type} {op : Op β} (hop : apart op) (hport : isPort op = false) :
    leavesIdentity op := by
  cases op with
  | port p => cases hport
  | _ => exact hop

theorem readsBackup_same {β : Type} {o : Op β} (hop : readsBackup o) {n' : Node} {r : β}
    (hx : appExec W o n r n') : n' = n := by
  cases o with
  | port p =>
    cases p with
    | recoveryPubkey => exact hx.1
    | ageEncrypt recipients plaintext => exact hx.1
    | ageDecrypt identity ciphertext => exact hx.1
    | readFile path => exact hx.1
    | _ => exact hop.elim
  | _ => exact hop.elim

theorem apart_same {β : Type} {op : Op β} (hop : apart op) {n' : Node} {r : β}
    (hx : appExec W op n r n') :
    n'.keychain = n.keychain ∧ n'.app.identity = n.app.identity := by
  cases op with
  | port p =>
    rw [readsBackup_same (o := .port p) hop hx]
    exact ⟨rfl, rfl⟩
  | _ => exact ⟨by rw [appExec_frame rfl hx], leavesIdentity_same (apart_leaves hop rfl) hx⟩

theorem After.apart (h : After K i keys stores m) {β : Type} {o : Op β} (hop : apart o) {r : β}
    (hx : appExec W o m.1 r m'.1) (hh : m'.2 = m.2 ++ [⟨o, r⟩]) : After K i keys stores m' := by
  obtain ⟨hkeychain, hidentity⟩ := apart_same hop hx
  obtain ⟨hkey, hstore⟩ := apart_silent hop r
  refine ⟨hkeychain.trans h.keychain, hidentity.trans h.identity, ?_, ?_⟩
  · unfold drawn
    rw [hh, collect_concat, hkey]
    exact (List.append_nil _).trans h.keys
  · unfold attempts
    rw [hh, collect_concat, hstore]
    exact (List.append_nil _).trans h.stores

/-- A program of such actions. -/
theorem After.only (h : After K i keys stores m) {α : Type} {p : Prog Op α}
    (hp : Only RecoveryOutcome.apart p) :
    Wp (tracedRules (appExec W) E) p m fun m' _ => After K i keys stores m' :=
  wp_of_only (fun _ _ => trivial) (fun hop hm hx => hm.apart hop hx.1 hx.2.2) hp h

theorem apart_of_readsBackup {β : Type} {op : Op β} (hop : readsBackup op) : apart op := by
  cases op with
  | port p => exact hop
  | _ => exact hop.elim

/-- A program that reads a backup leaves the node. -/
theorem At.only (h : At n keys stores m) {α : Type} {p : Prog Op α} (hp : Only readsBackup p) :
    Wp (tracedRules (appExec W) E) p m fun m' _ => At n keys stores m' := by
  refine wp_of_only (fun _ _ => trivial) (fun hop hm hx => ?_) hp h
  have hafter := hm.after.apart (apart_of_readsBackup hop) hx.1 hx.2.2
  exact ⟨(readsBackup_same hop hx.1).trans hm.node, hafter.keys, hafter.stores⟩

theorem only_readBackup {E : Env} (cmd : DisasterRecoverCommand) :
    Only readsBackup (readBackup E cmd).run := by
  refine only_except_bind (only_attempt trivial) fun ciphertext => ?_
  refine only_except_bind (only_attempt trivial) fun plaintext => ?_
  refine only_except_bind (only_ofExcept _ _) fun payload => ?_
  refine only_except_bind (only_orThrow _ _) fun vrkAge => ?_
  refine only_except_bind (only_attempt trivial) fun vrkVec => ?_
  exact only_except_bind (only_orThrow _ _) fun _ => only_pure _

theorem only_recoveryIdentityMatches (identity storedPubkey : String) :
    Only readsBackup (recoveryIdentityMatches identity storedPubkey).run := by
  refine only_except_bind (only_attempt trivial) fun ciphertext => ?_
  refine only_except_bind (only_call trivial) fun r => ?_
  cases r with
  | ok _ => exact only_pure _
  | error e => exact only_pure _

theorem only_auditFingerprintMismatch : Only records auditFingerprintMismatch.run := by
  refine only_except_bind (only_call trivial) fun key => ?_
  cases key with
  | none => exact only_pure _
  | some key =>
    refine only_except_bind (only_except_bind (only_call trivial) fun _ => only_pure _) fun ns => ?_
    exact only_except_bind (only_resultOf (only_attempt trivial)) fun _ => only_pure _

theorem only_rehydrate : ∀ (secrets : List Secrets.Aggregate.Secret) (count : UInt32),
    Only records (rehydrate secrets count).run
  | [], _ => only_pure _
  | _ :: secrets, _ => only_except_bind (only_attempt trivial) fun _ => only_rehydrate secrets _

/-- The end of a recovery, from the secrets on. -/
theorem finish_leaves {cmd : DisasterRecoverCommand} {vrk master : Key} {storedPubkey : String}
    {n' : Node} (hkey : backupKey W n cmd = some vrk)
    (hends : Rewraps W n vrk storedPubkey master undone stores n' (.ok ()))
    (h : After n'.keychain n.app.identity [master] stores m)
    (secrets : List Secrets.Aggregate.Secret) :
    Wp (tracedRules (appExec W) E) (do
      let restored ← rehydrate secrets 0
      call (.writeHmacKey (some (deriveAuditHmacKey W.toEnv vrk)))
      attempt identityFault (.identity (.recover vrk))
      let ns ← newNamespaceId
      auditCommit
        { op := .disasterRecovery, outcome := .allow, namespaceId := ns, callerProgram := agent }
        (deriveAuditHmacKey W.toEnv vrk)
      return .recovered restored : Handler Reply).run m (Recovers W n cmd undone) := by
  refine wp_except_bind.mpr ((h.only ((only_rehydrate secrets 0).mono apart_of_records)).mono ?_)
  intro m₁ r h₁
  cases r with
  | error e => exact .wrapped m₁ _ hkey hends (.inl ⟨rfl, rfl⟩) (fun h => nomatch h) h₁
  | ok restored =>
    refine wp_except_bind.mpr (wp_call.mpr ⟨trivial, ?_⟩)
    rintro _ m₂ ⟨hx₂, -, hh₂⟩
    have h₂ := h₁.apart (o := .writeHmacKey (some (deriveAuditHmacKey W.toEnv vrk))) trivial hx₂ hh₂
    refine wp_except_bind.mpr (wp_attempt.mpr ⟨trivial, ?_⟩)
    rintro r m₃ ⟨hx₃, -, hh₃⟩
    change appExec W (.identity (.recover vrk)) m₂.1 r m₃.1 at hx₃
    obtain ⟨hr, happ⟩ := Prod.mk.inj (appExec_exec hx₃)
    have h₃ : After n'.keychain (recoverIdentity n.app.identity vrk).2 [master] stores m₃ := by
      refine ⟨?_, ?_, ?_, ?_⟩
      · rw [appExec_frame rfl hx₃]
        exact h₂.keychain
      · rw [happ, ← h₂.identity]
        rfl
      · unfold drawn
        rw [hh₃, collect_concat]
        exact (List.append_nil _).trans h₂.keys
      · unfold attempts
        rw [hh₃, collect_concat]
        exact (List.append_nil _).trans h₂.stores
    have hrecovered : r = (recoverIdentity n.app.identity vrk).1 := by
      rw [hr, ← h₂.identity]
      rfl
    cases r with
    | error e => exact .wrapped m₃ _ hkey hends (.inr rfl) (fun h => nomatch h) h₃
    | ok _ =>
      have hok : (recoverIdentity n.app.identity vrk).1.isOk = true := by
        rw [← hrecovered]
        rfl
      have hrest : Only apart (do
          let ns ← newNamespaceId
          auditCommit { op := .disasterRecovery, outcome := .allow, namespaceId := ns
                        callerProgram := agent } (deriveAuditHmacKey W.toEnv vrk)
          return .recovered restored : Handler Reply).run :=
        only_except_bind (only_except_bind (only_call trivial) fun _ => only_pure _) fun _ =>
          only_except_bind (only_attempt trivial) fun _ => only_pure _
      exact (h₃.only hrest).mono fun m₄ r h₄ => .wrapped m₄ r hkey hends (.inr rfl) (fun _ => hok) h₄

theorem Rewraps.identity {vrk master : Key} {storedPubkey : String} {n' : Node}
    (h : Rewraps W n vrk storedPubkey master undone stores n' (.ok ())) :
    n'.app.identity = n.app.identity := by
  cases h with
  | done nonce wrapped forRecovery seed h hage => rfl

/-- **A recovery**, step by step. -/
theorem recover_leaves (hundo : Undoes W E undone) (cmd : DisasterRecoverCommand) :
    Wp (tracedRules (appExec W) E) (cmd.execute W.toEnv).run (n, []) (Recovers W n cmd undone) := by
  have h₀ : After n.keychain n.app.identity [] [] (n, []) := ⟨rfl, rfl, rfl, rfl⟩
  unfold DisasterRecoverCommand.execute
  split_ifs with hidentity hpath
  · exact .early _ _ h₀
  · exact .early _ _ h₀
  refine wp_except_bind.mpr (wp_call.mpr ⟨trivial, ?_⟩)
  rintro storedPubkey ⟨n₁, _⟩ ⟨⟨hn₁, -⟩, -, rfl⟩
  obtain rfl : n₁ = n := hn₁
  have h₁ : At n₁ [] [] (n₁, [] ++ [⟨.port .recoveryPubkey, storedPubkey⟩]) := ⟨rfl, rfl, rfl⟩
  refine wp_except_bind.mpr
    ((h₁.only (only_recoveryIdentityMatches cmd.recoveryIdentity storedPubkey)).mono ?_)
  intro m₂ r h₂
  match r with
  | .error e => exact .early _ _ h₂.after
  | .ok false =>
    refine wp_except_bind.mpr ((h₂.after.only (only_auditFingerprintMismatch.mono apart_of_records)).mono
      fun m₃ r h₃ => ?_)
    cases r with
    | error e => exact .early _ _ h₃
    | ok _ => exact .early _ _ h₃
  | .ok true =>
    obtain ⟨n₂, hist₂⟩ := m₂
    obtain rfl : n₂ = n₁ := h₂.node
    have hread : Wp (execRules (appExec W)) (readBackup W.toEnv cmd).run n₂ fun _ r => ∀ result,
        r = .ok result → _ := readBackup_yields (W := W) cmd
    refine wp_except_bind.mpr (((h₂.only (only_readBackup cmd)).and
      (hread.traced (m := (n₂, hist₂)))).mono ?_)
    rintro m₃ r ⟨h₃, hfrom⟩
    cases r with
    | error e => exact .early _ _ h₃.after
    | ok result =>
      obtain ⟨vrk, secrets⟩ := result
      obtain ⟨-, ciphertext, payload, hfrom⟩ := hfrom _ rfl
      have hkey := backupKey_of_readFrom hfrom
      refine wp_except_bind.mpr ((rewrap_leaves hundo h₃ vrk storedPubkey).mono ?_)
      rintro m₄ r ⟨master, stores, n', h₄, hends⟩
      cases r with
      | error e => exact .unwrapped _ _ hkey hends h₄.after
      | ok _ =>
        have h₄' := h₄.after
        rw [hends.identity] at h₄'
        exact finish_leaves hkey hends h₄' secrets

end Command

/-! ### The routes after a recovery -/

/-- A ciphertext opens under the key it was made with only. -/
def KeyBound (W : World) : Prop :=
  ∀ key key' nonce plaintext aad ciphertext bytes,
    W.aeadEncrypt key nonce plaintext aad = .ok ciphertext →
      W.aeadDecrypt key' nonce ciphertext aad = .ok bytes → key' = key

section Routes

variable {W : World} {n n' : Node} {vrk master : Key} {storedPubkey : String}
  {undone : List String → Node → Node → Prop} {stores : List Attempt}

/-- A wrapped key is opened by its own key only. -/
theorem openKey_wrapBlob_iff (hW : W.Lawful) (hbound : KeyBound W) {key key' value : Key}
    {nonce : Vector UInt8 24} {aad ciphertext : List UInt8}
    (h : W.aeadEncrypt key nonce value.toList aad = .ok ciphertext) :
    openKey W key' aad (wrapBlob W nonce ciphertext) = some value ↔ key' = key := by
  constructor
  · intro hopen
    obtain ⟨wrapped, nonce', ciphertext', bytes, hwrapped, hsplit, hbytes, -⟩ := openKey_eq_some hopen
    obtain rfl := Except.ok.inj ((hW.base64 _).symm.trans hwrapped)
    obtain ⟨rfl, rfl⟩ := Prod.mk.inj
      (Option.some.inj ((splitNonce_append nonce (hW.aeadTag _ _ _ _ _ h)).symm.trans hsplit))
    exact hbound _ _ _ _ _ _ _ h hbytes
  · rintro rfl
    exact openKey_wrapBlob hW h

/-- The keychain after the wrapping: the fresh master key, the root key wrapped under it, and all
other items as they were. -/
structure Wrapped (W : World) (n n' : Node) (vrk master : Key) : Prop where
  masterItem : n'.keychain (keychainService, accountMasterKey) = some master.toList
  vrkItem : ∃ nonce wrapped, W.aeadEncrypt master nonce vrk.toList vrkMasterAad = .ok wrapped ∧
    n'.keychain (keychainService, accountVrkMaster) = some (wrapBlob W nonce wrapped)
  others : ∀ account, account ∉ [accountMasterKey, accountVrkMaster, accountVrkRecovery] →
    n'.keychain (keychainService, account) = n.keychain (keychainService, account)

theorem setKeychain_other (n : Node) {account account' : String} (value : Option (List UInt8))
    (h : account ≠ account') :
    (n.setKeychain (keychainService, account') value).keychain (keychainService, account) =
      n.keychain (keychainService, account) :=
  Function.update_of_ne (fun hp => h (Prod.mk.inj hp).2) _ _

theorem setKeychain_same (n : Node) (account : String) (value : Option (List UInt8)) :
    (n.setKeychain (keychainService, account) value).keychain (keychainService, account) = value :=
  Function.update_self _ _ _

theorem withWrapped_wrapped {nonce : Vector UInt8 24} {wrapped : List UInt8}
    (h : W.aeadEncrypt master nonce vrk.toList vrkMasterAad = .ok wrapped) :
    Wrapped W n (withWrapped W n master nonce wrapped) vrk master where
  masterItem := by
    rw [withWrapped, setKeychain_other _ _ (by decide), withMaster, setKeychain_same]
  vrkItem := ⟨nonce, wrapped, h, setKeychain_same _ _ _⟩
  others account hnot := by
    simp only [List.mem_cons, List.not_mem_nil, or_false, not_or] at hnot
    rw [withWrapped, setKeychain_other _ _ hnot.2.1, withMaster, setKeychain_other _ _ hnot.1]

theorem Rewraps.wrapped (h : Rewraps W n vrk storedPubkey master undone stores n' (.ok ())) :
    Wrapped W n n' vrk master := by
  cases h with
  | done nonce wrapped forRecovery seed h hage =>
    have hwrapped := withWrapped_wrapped (n := n) h
    refine ⟨?_, ?_, fun account hnot => ?_⟩
    · rw [setKeychain_other _ _ (by decide)]
      exact hwrapped.masterItem
    · rw [setKeychain_other _ _ (by decide)]
      exact hwrapped.vrkItem
    · rw [setKeychain_other _ _ fun h => hnot (by rw [h]; decide)]
      exact hwrapped.others account hnot

theorem Wrapped.rootKey (hW : W.Lawful) (h : Wrapped W n n' vrk master) :
    rootKey W n'.keychain none = some vrk := by
  obtain ⟨nonce, wrapped, hwrap, hblob⟩ := h.vrkItem
  exact rootKey_keychain hW h.masterItem hblob hwrap

theorem Wrapped.enrolled (h : Wrapped W n n' vrk master) {passphrase : String} {old : Key}
    (henrolled : Enrolled W n.keychain passphrase old) :
    Enrolled W n'.keychain passphrase old := by
  obtain ⟨params, kdfKey, nonce, ciphertext, hkdf, hwrap, hparams, hblob⟩ := henrolled.wrap
  refine ⟨henrolled.nonempty, params, kdfKey, nonce, ciphertext, hkdf, hwrap, ?_, ?_⟩
  · rw [h.others _ (by decide), hparams]
  · rw [h.others _ (by decide), hblob]

/-- The passphrase yields the root key exactly when it wraps the fresh master key. -/
theorem Wrapped.passphrase_iff (hW : W.Lawful) (hbound : KeyBound W) (h : Wrapped W n n' vrk master)
    {passphrase : String} {old : Key} (henrolled : Enrolled W n.keychain passphrase old) :
    KeyMaterial.rootKey W n'.keychain (some passphrase) = some vrk ↔ old = master := by
  obtain ⟨nonce, wrapped, hwrap, hblob⟩ := h.vrkItem
  have hmaster : masterKey W n'.keychain (some passphrase) = some old :=
    (h.enrolled henrolled).master hW
  unfold KeyMaterial.rootKey
  rw [hmaster, hblob]
  exact openKey_wrapBlob_iff hW hbound hwrap

theorem undoes_any (W : World) : Undoes W (fun _ => True) fun _ _ _ => True := by
  intro accounts
  induction accounts with
  | nil => exact fun n keys stores m h => ⟨rfl, n, trivial, h⟩
  | cons account accounts ih =>
    intro n keys stores m h
    refine wp_except_bind.mpr (wp_except_bind.mpr (wp_call.mpr ⟨trivial, ?_⟩))
    rintro r ⟨n', _⟩ ⟨hx, -, rfl⟩
    have h' := h.idle (p := .keychainDelete keychainService account) trivial n' (r := r)
    refine (ih n' keys stores _ h').mono ?_
    rintro m'' r ⟨rfl, n'', -, hm''⟩
    exact ⟨rfl, n'', trivial, hm''⟩

/-- A seal leaves the keychain. -/
theorem seal_leaves : Wp (contextRules W) sealVaultExecute.run n fun n' r =>
    n'.keychain = n.keychain ∧ ∀ reply, r = .ok reply → n'.app.identity = ⟨.sealed, none⟩ := by
  have hseal : Only (fun {_} op => isPort op = false) sealVaultExecute.run := by
    refine only_except_bind (only_except_bind (only_call rfl) fun b => ?_) fun _ => ?_
    · cases b with
      | true => exact only_pure _
      | false => exact only_throw _
    refine only_except_bind (only_call rfl) fun key => only_except_bind ?_ fun _ => ?_
    · cases key with
      | none => exact only_pure _
      | some key =>
        refine only_except_bind (only_except_bind (only_call rfl) fun _ => only_pure _) fun ns => ?_
        exact only_except_bind (only_resultOf (only_attempt rfl)) fun _ => only_pure _
    refine only_except_bind (only_call rfl) fun _ => ?_
    refine only_except_bind (only_attempt rfl) fun pinned => ?_
    refine only_except_bind (only_call rfl) fun _ => ?_
    exact only_except_bind (only_attempt rfl) fun _ => only_pure _
  have hkeychain := wp_of_only (R := contextRules W) (I := fun m => m.keychain = n.keychain)
    (fun _ _ => trivial) (fun hop hm hx => by rw [appExec_frame hop hx]; exact hm) hseal rfl
  refine hkeychain.and ?_
  refine yields_bind (yields_anyContext _) fun _ _ _ => ?_
  refine yields_bind (yields_anyContext _) fun _ key _ => ?_
  refine yields_bind (yields_anyContext _) fun _ _ _ => ?_
  refine yields_bind (yields_anyContext _) fun _ _ _ => ?_
  refine yields_bind (yields_anyContext _) fun _ pinned _ => ?_
  refine yields_bind (yields_anyContext _) fun n₁ _ _ => ?_
  refine yields_bind (yields_attemptContext fun _ n₂ hx => ?_)
    (P := fun n₂ _ => n₂.app.identity = ⟨.sealed, none⟩) fun _ _ h => yields_pure h
  obtain ⟨hr, happ⟩ := Prod.mk.inj (appExec_exec hx)
  rw [happ]
  show (IdentityOp.sealVault.apply n₁.app.identity).2 = _
  simp only [IdentityOp.apply] at hr ⊢
  split at hr
  · next i' hi' => exact sealVault_ok hi'
  · cases hr

/-- The routes after a recovery and a seal. -/
theorem recovered_routes (hW : W.Lawful) (hbound : KeyBound W) {cmd : DisasterRecoverCommand}
    (pre : UnsealPreconditions) (hpre : pre.validate = .ok ()) {passphrase : String} {enrolled : Key}
    {n₁ n₂ : Node} {hist hist' : List (Event Op)}
    (henrolled : Enrolled W n.keychain passphrase enrolled) {recovered sealedReply : Reply}
    (hrecover : Runs (appExec W) (cmd.execute W.toEnv).run n hist (.ok recovered) n₁)
    (hseal : Runs (appExec W) sealVaultExecute.run n₁ hist' (.ok sealedReply) n₂) :
    ∃ vrk master, n₁.app.identity.vaultRootKey = some vrk ∧ drawn hist = [master] ∧
      Unseals W n₂ ⟨pre, none⟩ vrk ∧ (Unseals W n₂ ⟨pre, some passphrase⟩ vrk ↔ enrolled = master) := by
  have hends := wp_traced_runs (recover_leaves (undoes_any W) cmd) hrecover fun _ _ => trivial
  have hsealWp : Wp (execRules (appExec W)) sealVaultExecute.run n₁ fun n' r =>
    n'.keychain = n₁.keychain ∧ ∀ reply, r = .ok reply → n'.app.identity = ⟨.sealed, none⟩ := seal_leaves
  obtain ⟨hkeychain, hsealed⟩ := wp_runs hsealWp hseal
  have hunseals := fun route vrk => unseals_iff (W := W) ⟨pre, route⟩ (hsealed _ rfl) hpre vrk
  cases hends with
  | @wrapped _ vrk master _ _ n' i hkey hwraps hi hok h =>
    have hi' : i = ⟨.unsealed, some vrk⟩ := by
      rcases recoverIdentity_cases n.app.identity vrk with ⟨-, hid⟩ | ⟨hfails, -⟩
      · exact (hi.resolve_left fun hl => nomatch hl.2).trans hid
      · rw [hok rfl] at hfails
        cases hfails
    have hfinal : n₂.keychain = n'.keychain := hkeychain.trans h.keychain
    refine ⟨vrk, master, by rw [h.identity, hi'], h.keys, (hunseals none vrk).mpr ?_, ?_⟩
    · rw [hfinal]
      exact hwraps.wrapped.rootKey hW
    · rw [hunseals (some passphrase) vrk, hfinal]
      exact hwraps.wrapped.passphrase_iff hW hbound henrolled

end Routes

/-- **After a recovery and a seal** the vault can be unsealed both by the keychain and by the
passphrase, with the recovered key, exactly when the recovery drew the master key that the passphrase
wraps. -/
theorem recovery_keeps_routes_iff (W : World) (hW : W.Lawful) (hbound : KeyBound W)
    (cmd : DisasterRecoverCommand) (pre : UnsealPreconditions) (hpre : pre.validate = .ok ())
    (passphrase : String) (enrolled : Key) (n n₁ n₂ : Node) (hist hist' : List (Event Op))
    (henrolled : Enrolled W n.keychain passphrase enrolled) (recovered sealedReply : Reply)
    (hrecover : Runs (appExec W) (cmd.execute W.toEnv).run n hist (.ok recovered) n₁)
    (hseal : Runs (appExec W) sealVaultExecute.run n₁ hist' (.ok sealedReply) n₂) :
    (∃ vrk, n₁.app.identity.vaultRootKey = some vrk ∧ Unseals W n₂ ⟨pre, none⟩ vrk ∧
      Unseals W n₂ ⟨pre, some passphrase⟩ vrk) ↔ drawn hist = [enrolled] := by
  obtain ⟨vrk, master, hvrk, hdrawn, hkeychain, hiff⟩ :=
    recovered_routes hW hbound pre hpre henrolled hrecover hseal
  rw [hdrawn]
  constructor
  · rintro ⟨key, hkey, -, hpassphrase⟩
    obtain rfl := Option.some.inj (hvrk.symm.trans hkey)
    rw [hiff.mp hpassphrase]
  · intro hsame
    exact ⟨vrk, hvrk, hkeychain, hiff.mpr (List.cons.inj hsame).1.symm⟩

/-! ### Two recoveries -/

/-- The master key `sampleKey`, wrapped under a passphrase. -/
def samplePassphraseWrap (item : String × String) : Option (List UInt8) :=
  if item = (keychainService, accountArgon2Params) then
    some (Host.sampleParams ⟨65536, 3, 1, Vector.replicate 16 5⟩)
  else if item = (keychainService, accountMasterPassphraseWrap) then
    some (List.replicate 24 0 ++ (List.replicate 32 5 ++ sampleKey.toList ++ List.replicate 16 0))
  else none

/-- A sealed vault with one secret and an enrolled passphrase, and its backup. -/
def sampleLost : Node := { sampleHeld with
  app := rebooted { sampleState with store := sampleStoreOf 2 1 }
  keychain := samplePassphraseWrap
  files := fun _ => some [0] }

theorem sampleWorld_keyBound (payload : BackupPlaintext) : KeyBound (sampleWorld payload) := by
  intro key key' nonce plaintext aad ciphertext bytes henc hdec
  obtain rfl := Except.ok.inj henc
  change sampleDecrypt key' nonce _ aad = .ok bytes at hdec
  unfold sampleDecrypt at hdec
  split_ifs at hdec with h
  have hlen : key.toList.length = 32 := by simp
  rw [List.append_assoc, List.take_left' hlen] at h
  exact (Vector.toList_inj.mp h.1).symm

theorem sampleLost_enrolled :
    Enrolled (sampleWorld sampleWrapped) sampleLost.keychain "correct horse" sampleKey where
  nonempty := by decide
  wrap := ⟨⟨65536, 3, 1, Vector.replicate 16 5⟩, Vector.replicate 32 5, Vector.replicate 24 0,
    List.replicate 32 5 ++ sampleKey.toList ++ List.replicate 16 0, rfl, rfl, rfl, rfl⟩

/-- The root key as it is wrapped under a master key. -/
def sampleWrapUnder (master : Key) : List UInt8 :=
  List.replicate 24 0 ++ (master.toList ++ sampleKey.toList ++ List.replicate 16 0)

/-- The keychain of that vault with a fresh master key. -/
def sampleRewrapped (master : Key) : Node :=
  ((sampleLost.setKeychain (keychainService, accountMasterKey) (some master.toList)).setKeychain
    (keychainService, accountVrkMaster) (some (sampleWrapUnder master))).setKeychain
    (keychainService, accountVrkRecovery) (some sampleKey.toList)

/-- The entry of the recovery. -/
def sampleRecoveryEntry : AppendParams :=
  { op := .disasterRecovery, outcome := .allow, namespaceId := ⟨sampleUuid 20⟩, callerProgram := agent }

/-- The entry of the seal. -/
def sampleSealEntry : AppendParams :=
  { op := .seal, outcome := .allow, namespaceId := ⟨sampleUuid 22⟩, callerProgram := agent }

/-- An unsealed vault whose next commit goes through. -/
structure SampleUnsealed (s : AppState) : Prop where
  identity : s.identity = ⟨.unsealed, some sampleKey⟩
  hmacKey : s.hmacKey = some sampleKey
  issued : s.issued = [sampleUuid 20]
  commit : ∃ s', auditCommitSection sampleCrates sampleSealEntry sampleKey ⟨⟨sampleUuid 23⟩, epoch⟩ none
    { s with issued := [sampleUuid 22, sampleUuid 20] } = (.ok (), s')

theorem sampleCommit (s : AppState) (hlog : s.auditLog = AuditLog.new)
    (hentries : s.store.auditEntries = []) (hidentity : s.identity = ⟨.unsealed, some sampleKey⟩)
    (hkey : s.hmacKey = some sampleKey) (hissued : s.issued = [sampleUuid 20]) : ∃ s',
      auditCommitSection sampleCrates sampleRecoveryEntry sampleKey ⟨⟨sampleUuid 21⟩, epoch⟩ none s =
        (.ok (), s') ∧ SampleUnsealed s' := by
  obtain ⟨s', e, hx, hs', hei, heop, hes, heh⟩ := commit_fresh sampleRecoveryEntry ⟨sampleUuid 21⟩ s 0
    ⟨Vector.replicate 32 1⟩ (by rw [hlog]; rfl) (by decide) (by rw [hlog]; rfl)
    fun f hf => absurd (hentries ▸ hf) List.not_mem_nil
  rw [hentries] at hs'
  obtain ⟨s'', -, hx', -⟩ := commit_fresh sampleSealEntry ⟨sampleUuid 23⟩
    { s' with issued := [sampleUuid 22, sampleUuid 20] } 1 ⟨Vector.replicate 32 2⟩
    (by rw [hs']; show e.seq + 1 = 1; rw [hes]; rfl) (by decide)
    (by rw [hs']; show (if e.currentHash = genesis then _ else _) = _; rw [heh]; rfl)
    (by
      rw [hs']
      intro g hg
      obtain rfl : g = e := List.mem_singleton.mp hg
      rw [hei, hes, heh]
      exact ⟨by decide, by decide, by decide⟩)
  refine ⟨s', hx, ?_, ?_, ?_, s'', hx'⟩
  · rw [hs', hidentity]
  · rw [hs', hkey]
  · rw [hs', hissued]

/-- A recovery of that vault, whatever master key it draws. -/
theorem sampleLost_recovers (master : Key) : ∃ s : AppState, SampleUnsealed s ∧
    ∃ hist, Runs (appExec (sampleWorld sampleWrapped))
      (sampleRecover.execute (sampleWorld sampleWrapped).toEnv).run sampleLost hist
      (.ok (.recovered 1)) { sampleRewrapped master with app := s } ∧ drawn hist = [master] := by
  obtain ⟨st, hput, haudit⟩ : ∃ st, (sampleStoreOf 2 1).putSecret
      (jsonSecret (secretOf (sampleRowOf 2 1) [sampleVersionOf 2 1])) = .ok st ∧
      st.auditEntries = [] := ⟨_, rfl, rfl⟩
  let n := sampleLost
  let m₁ := n.setKeychain (keychainService, accountMasterKey) (some master.toList)
  let m₂ := m₁.setKeychain (keychainService, accountVrkMaster) (some (sampleWrapUnder master))
  let s₁ : AppState := { sampleLost.app with store := st }
  let s₂ : AppState := { s₁ with hmacKey := some sampleKey }
  let s₃ : AppState := { s₂ with identity := ⟨.unsealed, some sampleKey⟩ }
  let s₄ : AppState := { s₃ with issued := [sampleUuid 20] }
  obtain ⟨s₅, hx, hs₅⟩ := sampleCommit s₄ rfl haudit rfl rfl rfl
  refine ⟨s₅, hs₅, ?_⟩
  refine exists_runs_act_with rfl "age1r" n ⟨rfl, rfl⟩ ?_
  refine exists_runs_act_with rfl (.ok sentinel) n ⟨rfl, 0, rfl⟩ ?_
  refine exists_runs_act_with rfl (.ok sentinel) n ⟨rfl, rfl⟩ ?_
  refine exists_runs_act_with rfl (.ok [0]) n ⟨rfl, .inl ⟨_, rfl, rfl⟩⟩ ?_
  refine exists_runs_act_with rfl (.ok [0]) n ⟨rfl, rfl⟩ ?_
  refine exists_runs_act_with rfl (.ok sampleKey.toList) n ⟨rfl, rfl⟩ ?_
  refine exists_runs_act_with rfl master n rfl ?_
  refine exists_runs_act_with rfl (.ok ()) m₁ (.inl ⟨rfl, rfl⟩) ?_
  refine exists_runs_act_with rfl (Vector.replicate 24 0) m₁ rfl ?_
  refine exists_runs_act_with rfl (.ok ()) m₂ (.inl ⟨rfl, rfl⟩) ?_
  refine exists_runs_act_with rfl (.ok sampleKey.toList) m₂ ⟨rfl, 0, rfl⟩ ?_
  refine exists_runs_act_with rfl (.ok ()) (sampleRewrapped master) (.inl ⟨rfl, rfl⟩) ?_
  refine exists_runs_act_with rfl (.ok ()) { sampleRewrapped master with app := s₁ } ⟨⟨none, ?_⟩, rfl⟩ ?_
  · show writeSection (.putSecret (jsonSecret (secretOf (sampleRowOf 2 1) [sampleVersionOf 2 1]))) none
      sampleLost.app = _
    have hput' : (sampleLost.app.store).putSecret
      (jsonSecret (secretOf (sampleRowOf 2 1) [sampleVersionOf 2 1])) = .ok st := hput
    simp only [writeSection, faulty, Write.apply, hput']
    rfl
  refine exists_runs_act_with rfl () { sampleRewrapped master with app := s₂ } ⟨rfl, rfl⟩ ?_
  refine exists_runs_act_with rfl (.ok ()) { sampleRewrapped master with app := s₃ } ⟨rfl, rfl⟩ ?_
  refine exists_runs_act_with rfl (sampleUuid 20) { sampleRewrapped master with app := s₄ }
    ⟨⟨List.not_mem_nil, rfl⟩, rfl⟩ ?_
  refine exists_runs_act_with rfl (.ok ()) { sampleRewrapped master with app := s₅ } ⟨⟨_, _, hx⟩, rfl⟩ ?_
  exact exists_runs_ret_with rfl rfl

/-- The seal after it. -/
theorem sampleUnsealed_seals {n : Node} (h : SampleUnsealed n.app) : ∃ n' hist,
    Runs (appExec (sampleWorld sampleWrapped)) sealVaultExecute.run n hist (.ok .sealed) n' := by
  obtain ⟨s, hx⟩ := h.commit
  let s₁ : AppState := { n.app with issued := [sampleUuid 22, sampleUuid 20] }
  let s₂ : AppState := { s with hmacKey := none }
  let s₃ : AppState := { s₂ with auditLog := restoreAuditChain s.store.pinnedHead }
  let s₄ : AppState := { s₃ with identity := ⟨.sealed, none⟩ }
  have hunsealed : n.app.identity.isUnsealed = true := by
    rw [h.identity]
    rfl
  have hseal : IdentityOp.sealVault.apply s.identity = (.ok (), ⟨.sealed, none⟩) := by
    rw [(auditCommitSection_frame hx).1.trans h.identity]
    rfl
  refine ⟨{ n with app := s₄ }, ?_⟩
  refine exists_runs_act rfl true n ⟨Prod.ext hunsealed.symm rfl, rfl⟩ ?_
  refine exists_runs_act rfl (some sampleKey) n ⟨⟨h.hmacKey.symm, rfl⟩, rfl⟩ ?_
  refine exists_runs_act rfl (sampleUuid 22) { n with app := s₁ } ⟨⟨?_, ?_⟩, rfl⟩ ?_
  · rw [h.issued]
    decide
  · rw [h.issued]
  refine exists_runs_act rfl (.ok ()) { n with app := s } ⟨⟨_, _, hx⟩, rfl⟩ ?_
  refine exists_runs_act rfl () { n with app := s₂ } ⟨rfl, rfl⟩ ?_
  refine exists_runs_act rfl (.ok s.store.pinnedHead) { n with app := s₂ } ⟨⟨rfl, none, rfl⟩, rfl⟩ ?_
  refine exists_runs_act rfl () { n with app := s₃ } ⟨rfl, rfl⟩ ?_
  refine exists_runs_act rfl (.ok ()) { n with app := s₄ } ⟨?_, rfl⟩ (exists_runs_ret rfl)
  show (_, _) = ((IdentityOp.sealVault.apply s.identity).1, _)
  rw [show IdentityOp.sealVault.apply s₃.identity = _ from hseal]

/-- The recovery draws the master key that the passphrase wraps. -/
theorem same_master_keeps_routes : ∃ n₂ vrk,
    Unseals (sampleWorld sampleWrapped) n₂ ⟨sampleUnseal.preconditions, none⟩ vrk ∧
    Unseals (sampleWorld sampleWrapped) n₂ ⟨sampleUnseal.preconditions, some "correct horse"⟩ vrk := by
  obtain ⟨s, hs, hist, hrun, hdrawn⟩ := sampleLost_recovers sampleKey
  obtain ⟨n₂, hist', hseal⟩ := sampleUnsealed_seals (n := { sampleRewrapped sampleKey with app := s }) hs
  obtain ⟨vrk, -, hkeychain, hpassphrase⟩ := (recovery_keeps_routes_iff _ (sampleWorld_lawful _)
    (sampleWorld_keyBound _) _ sampleUnseal.preconditions rfl _ _ _ _ n₂ hist hist' sampleLost_enrolled
    _ _ hrun hseal).mpr hdrawn
  exact ⟨n₂, vrk, hkeychain, hpassphrase⟩

/-- **The passphrase no longer unseals the vault** after a recovery that drew another master key. -/
theorem passphrase_fails_after_recovery : ¬ ∀ (W : World), W.Lawful → KeyBound W →
    ∀ (cmd : DisasterRecoverCommand) (pre : UnsealPreconditions), pre.validate = .ok () →
    ∀ (passphrase : String) (enrolled : Key) (n n₁ n₂ : Node) (hist hist' : List (Event Op)),
      Enrolled W n.keychain passphrase enrolled → ∀ recovered sealedReply : Reply,
      Runs (appExec W) (cmd.execute W.toEnv).run n hist (.ok recovered) n₁ →
      Runs (appExec W) sealVaultExecute.run n₁ hist' (.ok sealedReply) n₂ →
      ∃ vrk, n₁.app.identity.vaultRootKey = some vrk ∧ Unseals W n₂ ⟨pre, none⟩ vrk ∧
        Unseals W n₂ ⟨pre, some passphrase⟩ vrk := by
  intro hclaim
  let master : Key := Vector.replicate 32 9
  obtain ⟨s, hs, hist, hrun, hdrawn⟩ := sampleLost_recovers master
  obtain ⟨n₂, hist', hseal⟩ := sampleUnsealed_seals (n := { sampleRewrapped master with app := s }) hs
  obtain ⟨vrk, hvrk, -, hpassphrase⟩ := hclaim _ (sampleWorld_lawful _) (sampleWorld_keyBound _) _
    sampleUnseal.preconditions rfl _ _ _ _ n₂ hist hist' sampleLost_enrolled _ _ hrun hseal
  obtain ⟨vrk', master', hvrk', hdrawn', -, hiff⟩ := recovered_routes (sampleWorld_lawful _)
    (sampleWorld_keyBound _) sampleUnseal.preconditions rfl sampleLost_enrolled hrun hseal
  obtain rfl := Option.some.inj (hvrk.symm.trans hvrk')
  obtain ⟨rfl, -⟩ := List.cons.inj (hdrawn'.symm.trans hdrawn)
  exact absurd (hiff.mp hpassphrase) (by decide)

/-! ### Recoveries that fail -/

/-- The deletes of keychain items succeed. -/
def undoSucceeds (e : Event Op) : Prop := ofPort True deleteSucceeds e.op e.res

/-- The items are gone, and nothing else of the context changed. -/
structure Deleted (accounts : List String) (n n' : Node) : Prop where
  app : n'.app = n.app
  gone : ∀ account, n.keychain (keychainService, account) = none ∨ account ∈ accounts →
    n'.keychain (keychainService, account) = none

theorem undoes_deleted (W : World) : Undoes W undoSucceeds Deleted := by
  intro accounts
  induction accounts with
  | nil =>
    intro n keys stores m h
    exact ⟨rfl, n, ⟨rfl, fun _ ha => ha.resolve_right List.not_mem_nil⟩, h⟩
  | cons account accounts ih =>
    intro n keys stores m h
    refine wp_except_bind.mpr (wp_except_bind.mpr (wp_call.mpr ⟨trivial, ?_⟩))
    rintro r ⟨n', _⟩ ⟨hx, hdel, rfl⟩
    obtain rfl : r = .ok () := hdel
    obtain ⟨-, hn'⟩ | ⟨htook, -⟩ := hx
    swap
    · cases htook
    have h' := h.idle (p := .keychainDelete keychainService account) trivial n' (r := .ok ())
    refine (ih n' keys stores _ h').mono ?_
    rintro m'' r ⟨rfl, n'', hdeleted, hm''⟩
    obtain rfl : n' = n.setKeychain (keychainService, account) none := by rw [← h.node]; exact hn'
    refine ⟨rfl, n'', ⟨hdeleted.app, fun a ha => hdeleted.gone a ?_⟩, hm''⟩
    by_cases hk : a = account
    · rw [hk]
      exact .inl (setKeychain_same _ _ _)
    · rw [setKeychain_other _ _ hk]
      exact ha.imp_right fun hmem => (List.mem_cons.mp hmem).resolve_left hk

/-- The invariant of the aggregate: the root key is there only while the vault is unsealed. -/
def Coherent (i : VaultIdentity) : Prop := i.vaultRootKey.isSome = true → i.state = .unsealed

theorem coherent_new : Coherent VaultIdentity.new := fun h => nomatch h

/-- An unsealed vault may hold a key, every other one holds none. -/
theorem Coherent.key {i : VaultIdentity} (h : Coherent i) (hstate : i.state ≠ .unsealed) :
    i.vaultRootKey = none := by
  cases hvrk : i.vaultRootKey with
  | none => rfl
  | some vrk => exact absurd (h (by rw [hvrk]; rfl)) hstate

theorem coherent_of_none {i : VaultIdentity} (h : i.vaultRootKey = none) : Coherent i := by
  intro hsome
  rw [h] at hsome
  cases hsome

theorem Coherent.beginUnseal {i i' : VaultIdentity} {p : UnsealPreconditions} (h : Coherent i)
    (hb : i.beginUnseal p = .ok i') : i'.vaultRootKey = none := by
  have hstate : i.state ≠ .unsealed := by
    unfold VaultIdentity.beginUnseal at hb
    split_ifs at hb with hstate
    exact hstate
  rw [beginUnseal_ok hb]
  exact h.key hstate

theorem Coherent.revert {i : VaultIdentity} (h : Coherent i) :
    Coherent (i.revertToSealed.toOption.getD i) := by
  rcases revertToSealed_getD i with hr | hr
  · rw [hr]
    exact coherent_of_none rfl
  · rw [hr]
    exact h

/-- A recovery that fails leaves the vault as it was or sealed; one that ends does not leave it
halfway. -/
theorem Coherent.recover {i : VaultIdentity} (h : Coherent i) (vrk : Key) :
    Coherent (recoverIdentity i vrk).2 ∧
      ((recoverIdentity i vrk).2.state = .unsealing ↔ i.state = .unsealing) := by
  obtain ⟨state, key⟩ := i
  cases state with
  | unsealed => exact ⟨fun _ => rfl, iff_of_false (fun h => nomatch h) fun h => nomatch h⟩
  | sealed =>
    obtain rfl : key = none := h.key (fun h => nomatch h)
    exact ⟨fun _ => rfl, iff_of_false (fun h => nomatch h) fun h => nomatch h⟩
  | unsealing => exact ⟨h, iff_of_true rfl rfl⟩
  | shuttingDown => exact ⟨h, iff_of_false (fun h => nomatch h) fun h => nomatch h⟩

/-- **Every transition of the lifecycle keeps the invariant.** -/
theorem Coherent.apply {i : VaultIdentity} (h : Coherent i) {β : Type} (o : IdentityOp β) :
    Coherent (o.apply i).2 := by
  cases o with
  | isUnsealed => exact h
  | beginUnseal p =>
    simp only [IdentityOp.apply]
    split_ifs
    · exact h
    · split
      · next i' hb => exact coherent_of_none (h.beginUnseal hb)
      · exact h
  | completeUnseal vrk =>
    simp only [IdentityOp.apply]
    split
    · next i' hc =>
      show Coherent i'
      rw [completeUnseal_ok hc]
      exact fun _ => rfl
    · exact h.revert
  | rollbackUnsealing =>
    simp only [IdentityOp.apply]
    split_ifs
    · exact h.revert
    · exact h
  | sealVault =>
    simp only [IdentityOp.apply]
    split
    · next i' hs =>
      show Coherent i'
      rw [sealVault_ok hs]
      exact coherent_of_none rfl
    · exact h
  | recover vrk => exact (h.recover vrk).1

/-- The keychain still unseals to the root key, and the vault is not left halfway. -/
structure Unharmed (W : World) (vrk : Key) (n : Node) : Prop where
  key : rootKey W n.keychain none = some vrk
  state : n.app.identity.state ≠ .unsealing

/-- What was stored and drawn does no harm: no fresh master key was stored; or the root key was stored
under it, no store failed, and the backup holds the root key of the vault; or nothing was stored after
it, and it opens what the old one wrapped. -/
def Harmless (W : World) (n : Node) (vrk recovered master : Key) (stores : List Attempt) : Prop :=
  (∀ failed, ⟨accountMasterKey, true, failed⟩ ∉ stores) ∨
    stored accountVrkMaster ∈ stores ∧ (∀ a ∈ stores, a.failed = false) ∧ recovered = vrk ∨
    (∃ failed, stores = [⟨accountMasterKey, true, failed⟩]) ∧
      ∃ blob, n.keychain (keychainService, accountVrkMaster) = some blob ∧
        openKey W master vrkMasterAad blob = some vrk

section Failed

variable {W : World} {n n' : Node} {vrk recovered master : Key} {storedPubkey : String}
  {stores : List Attempt}

theorem rootKey_of_none {K : Keychain} (h : K (keychainService, accountMasterKey) = none) :
    rootKey W K none = none := by
  unfold rootKey masterKey
  rw [h]
  rfl

/-- The fresh master key and the old wrap. -/
theorem rootKey_withMaster {blob : List UInt8}
    (h : n.keychain (keychainService, accountVrkMaster) = some blob) :
    rootKey W (withMaster n master).keychain none = openKey W master vrkMasterAad blob := by
  unfold rootKey masterKey
  rw [withMaster, setKeychain_same, setKeychain_other _ _ (by decide), h, Option.bind_some,
    keyOfSlice_toList]
  rfl

theorem rootKey_blob {K : Keychain} (h : rootKey W K none = some vrk) :
    ∃ blob, K (keychainService, accountVrkMaster) = some blob := by
  obtain ⟨_, -, h⟩ := Option.bind_eq_some_iff.mp h
  obtain ⟨blob, hblob, -⟩ := Option.bind_eq_some_iff.mp h
  exact ⟨blob, hblob⟩

/-- Only the fresh master key was stored. -/
theorem rootKey_withMaster_iff (hkey : rootKey W n.keychain none = some vrk) (failed : Bool) :
    rootKey W (withMaster n master).keychain none = some vrk ↔
      Harmless W n vrk recovered master [⟨accountMasterKey, true, failed⟩] := by
  obtain ⟨blob, hblob⟩ := rootKey_blob hkey
  rw [rootKey_withMaster hblob]
  constructor
  · exact fun hopen => .inr (.inr ⟨⟨failed, rfl⟩, blob, hblob, hopen⟩)
  · rintro (hnot | ⟨hmem, -⟩ | ⟨-, blob', hblob', hopen⟩)
    · exact absurd (List.mem_singleton.mpr rfl) (hnot failed)
    · exact absurd (congrArg Attempt.account (List.mem_singleton.mp hmem))
        (by decide : _ ≠ accountMasterKey)
    · rw [Option.some.inj (hblob.symm.trans hblob')]
      exact hopen

/-- A store after that of the fresh master key failed. -/
theorem not_harmless {a : Attempt} {rest : List Attempt} (ha : a ∈ rest) (hfailed : a.failed = true) :
    ¬ Harmless W n vrk recovered master (stored accountMasterKey :: rest) := by
  rintro (hnot | ⟨-, hall, -⟩ | ⟨⟨failed, hsame⟩, -⟩)
  · exact hnot false List.mem_cons_self
  · rw [hall a (List.mem_cons_of_mem _ ha)] at hfailed
    cases hfailed
  · rw [(List.cons.inj hsame).2] at ha
    cases ha

theorem afterRefused_app {account : String} {value : List UInt8} {late : Bool} :
    (afterRefused n account value late).app = n.app := by
  unfold afterRefused
  split_ifs <;> rfl

/-- A wrapping that fails. -/
theorem Rewraps.harmless_iff (hW : W.Lawful) (hkey : rootKey W n.keychain none = some vrk)
    {e : AppError} (h : Rewraps W n recovered storedPubkey master Deleted stores n' (.error e)) :
    n'.app.identity = n.app.identity ∧
      (rootKey W n'.keychain none = some vrk ↔ Harmless W n vrk recovered master stores) := by
  cases h with
  | masterRefused late =>
    cases late with
    | true => exact ⟨rfl, rootKey_withMaster_iff hkey true⟩
    | false =>
      refine ⟨rfl, iff_of_true hkey (.inl fun failed hmem => ?_)⟩
      cases List.mem_singleton.mp hmem
  | wrapFails => exact ⟨rfl, rootKey_withMaster_iff hkey false⟩
  | vrkRefused late blob _ _ h =>
    have hgone := h.gone accountMasterKey (.inr (List.mem_singleton.mpr rfl))
    refine ⟨by rw [h.app, afterRefused_app]; rfl, ?_⟩
    rw [rootKey_of_none hgone]
    exact iff_of_false (fun h => nomatch h) (not_harmless List.mem_cons_self rfl)
  | recoveryWrapFails nonce wrapped _ h =>
    refine ⟨rfl, ?_⟩
    rw [(withWrapped_wrapped h).rootKey hW]
    constructor
    · intro hsame
      exact .inr (.inl ⟨by decide, by decide, Option.some.inj hsame⟩)
    · rintro (hnot | ⟨-, -, rfl⟩ | ⟨⟨failed, hsame⟩, -⟩)
      · exact absurd List.mem_cons_self (hnot false)
      · rfl
      · cases hsame
  | recoveryRefused nonce wrapped late blob _ _ h =>
    have hgone := h.gone accountMasterKey (.inr List.mem_cons_self)
    refine ⟨by rw [h.app, afterRefused_app]; rfl, ?_⟩
    rw [rootKey_of_none hgone]
    exact iff_of_false (fun h => nomatch h)
      (not_harmless (List.mem_cons_of_mem _ List.mem_cons_self) rfl)

end Failed

/-- **A recovery that fails does no harm** to a vault that its keychain unseals exactly when the vault
was not halfway before and what was stored and drawn does no harm. -/
theorem failed_recovery_unharmed_iff (W : World) (hW : W.Lawful) (cmd : DisasterRecoverCommand)
    (n n' : Node) (hist : List (Event Op)) (e : AppError) (vrk : Key)
    (hkey : rootKey W n.keychain none = some vrk) (hcoherent : Coherent n.app.identity)
    (hrun : Runs (appExec W) (cmd.execute W.toEnv).run n hist (.error e) n')
    (hundo : ∀ e ∈ hist, undoSucceeds e) :
    Unharmed W vrk n' ↔ n.app.identity.state ≠ .unsealing ∧
      ∀ recovered master, backupKey W n cmd = some recovered → drawn hist = [master] →
        Harmless W n vrk recovered master (attempts hist) := by
  have hends := wp_traced_runs (recover_leaves (undoes_deleted W) cmd) hrun hundo
  rw [List.nil_append] at hends
  cases hends with
  | early _ h =>
    constructor
    · rintro ⟨-, hstate⟩
      rw [h.identity] at hstate
      refine ⟨hstate, fun _ master _ hdrawn => ?_⟩
      cases h.keys.symm.trans hdrawn
    · rintro ⟨hstate, -⟩
      exact ⟨by rw [h.keychain, hkey], by rw [h.identity]; exact hstate⟩
  | @unwrapped _ recovered master _ stores m e' hbackup hends h =>
    obtain ⟨hidentity, hiff⟩ := hends.harmless_iff hW hkey
    rw [hidentity] at h
    constructor
    · rintro ⟨hroot, hstate⟩
      rw [h.identity] at hstate
      rw [h.keychain] at hroot
      refine ⟨hstate, fun recovered' master' hbackup' hdrawn => ?_⟩
      obtain rfl := Option.some.inj (hbackup.symm.trans hbackup')
      obtain ⟨rfl, -⟩ := List.cons.inj (h.keys.symm.trans hdrawn)
      rw [h.stores]
      exact hiff.mp hroot
    · rintro ⟨hstate, hharmless⟩
      have hall := hharmless recovered master hbackup h.keys
      rw [h.stores] at hall
      exact ⟨by rw [h.keychain]; exact hiff.mpr hall, by rw [h.identity]; exact hstate⟩
  | @wrapped _ recovered master _ stores m i hbackup hends hi hok h =>
    have hstate : i.state = .unsealing ↔ n.app.identity.state = .unsealing := by
      rcases hi with ⟨rfl, -⟩ | rfl
      · exact Iff.rfl
      · exact (hcoherent.recover recovered).2
    have hroot : rootKey W n'.keychain none = some recovered := by
      rw [h.keychain]
      exact hends.wrapped.rootKey hW
    have hstores : stores =
        [stored accountMasterKey, stored accountVrkMaster, stored accountVrkRecovery] := by
      cases hends with
      | done => rfl
    have hfinal := h.stores.trans hstores
    constructor
    · rintro ⟨hsame, hnot⟩
      rw [h.identity] at hnot
      refine ⟨fun hu => hnot (hstate.mpr hu), fun recovered' master' hbackup' _ => .inr (.inl ?_)⟩
      obtain rfl := Option.some.inj (hbackup.symm.trans hbackup')
      rw [hfinal]
      exact ⟨by decide, by decide, Option.some.inj (hroot.symm.trans hsame)⟩
    · rintro ⟨hnot, hharmless⟩
      refine ⟨?_, by rw [h.identity]; exact fun hu => hnot (hstate.mp hu)⟩
      have hall := hharmless recovered master hbackup h.keys
      rw [hfinal] at hall
      rcases hall with hnot | ⟨-, -, rfl⟩ | ⟨⟨failed, hsame⟩, -⟩
      · exact absurd List.mem_cons_self (hnot false)
      · exact hroot
      · cases hsame

/-- That vault with its keys. -/
def sampleKept : Node := sampleRewrapped sampleKey

theorem sampleKept_key :
    rootKey (sampleWorld sampleWrapped) sampleKept.keychain none = some sampleKey := by
  have hwrap : (sampleWorld sampleWrapped).aeadEncrypt sampleKey (Vector.replicate 24 0) sampleKey.toList
      vrkMasterAad = .ok (sampleKey.toList ++ sampleKey.toList ++ List.replicate 16 0) := rfl
  refine rootKey_keychain (sampleWorld_lawful _) ?_ ?_ hwrap
  · rfl
  · rfl

theorem sampleKept_coherent : Coherent sampleKept.app.identity := coherent_new

/-- The backup file cannot be read. -/
theorem unread_backup_does_no_harm : ∃ n' : Node, Unharmed (sampleWorld sampleWrapped) sampleKey n' := by
  have hrun : ∃ hist, Runs (appExec (sampleWorld sampleWrapped))
      (sampleRecover.execute (sampleWorld sampleWrapped).toEnv).run sampleKept hist
      (.error (textFault "failed to read backup: permission denied")) sampleKept ∧
      (∀ e ∈ hist, undoSucceeds e) ∧ drawn hist = [] := by
    refine exists_runs_act_with rfl "age1r" sampleKept ⟨rfl, rfl⟩ ?_
    refine exists_runs_act_with rfl (.ok sentinel) sampleKept ⟨rfl, 0, rfl⟩ ?_
    refine exists_runs_act_with rfl (.ok sentinel) sampleKept ⟨rfl, rfl⟩ ?_
    refine exists_runs_act_with rfl (.error "permission denied") sampleKept ⟨rfl, .inr ⟨_, rfl⟩⟩ ?_
    refine exists_runs_ret_with rfl ⟨?_, rfl⟩
    simp [undoSucceeds, ofPort, deleteSucceeds]
  obtain ⟨hist, hrun, hundo, hdrawn⟩ := hrun
  refine ⟨sampleKept, (failed_recovery_unharmed_iff _ (sampleWorld_lawful _) _ _ _ hist _ _ sampleKept_key
    sampleKept_coherent hrun hundo).mpr ⟨(fun h => nomatch h), fun _ _ _ h => ?_⟩⟩
  rw [hdrawn] at h
  cases h

/-- **A refused store locks the vault**: the fresh master key, stored over the old one, is deleted. -/
theorem refused_store_locks_vault : ¬ ∀ (W : World), W.Lawful → ∀ (cmd : DisasterRecoverCommand)
    (n n' : Node) (hist : List (Event Op)) (e : AppError) (vrk : Key),
      rootKey W n.keychain none = some vrk → Coherent n.app.identity →
      n.app.identity.state = .sealed →
      Runs (appExec W) (cmd.execute W.toEnv).run n hist (.error e) n' →
      (∀ e ∈ hist, undoSucceeds e) → Unharmed W vrk n' := by
  intro hclaim
  let n := sampleKept
  let master : Key := Vector.replicate 32 9
  let n₁ := n.setKeychain (keychainService, accountMasterKey) (some master.toList)
  let n₂ := n₁.setKeychain (keychainService, accountMasterKey) none
  have hrun : ∃ hist, Runs (appExec (sampleWorld sampleWrapped))
      (sampleRecover.execute (sampleWorld sampleWrapped).toEnv).run n hist
      (.error (.keychain (.backend "disk full"))) n₂ ∧ ∀ e ∈ hist, undoSucceeds e := by
    refine exists_runs_act_with rfl "age1r" n ⟨rfl, rfl⟩ ?_
    refine exists_runs_act_with rfl (.ok sentinel) n ⟨rfl, 0, rfl⟩ ?_
    refine exists_runs_act_with rfl (.ok sentinel) n ⟨rfl, rfl⟩ ?_
    refine exists_runs_act_with rfl (.ok [0]) n ⟨rfl, .inl ⟨_, rfl, rfl⟩⟩ ?_
    refine exists_runs_act_with rfl (.ok [0]) n ⟨rfl, rfl⟩ ?_
    refine exists_runs_act_with rfl (.ok sampleKey.toList) n ⟨rfl, rfl⟩ ?_
    refine exists_runs_act_with rfl master n rfl ?_
    refine exists_runs_act_with rfl (.ok ()) n₁ (.inl ⟨rfl, rfl⟩) ?_
    refine exists_runs_act_with rfl (Vector.replicate 24 0) n₁ rfl ?_
    refine exists_runs_act_with rfl (.error ⟨.backend "disk full", false⟩) n₁ (.inr ⟨rfl, rfl⟩) ?_
    refine exists_runs_act_with rfl (.ok ()) n₂ (.inl ⟨rfl, rfl⟩) ?_
    refine exists_runs_ret_with rfl ?_
    simp [undoSucceeds, ofPort, deleteSucceeds]
  obtain ⟨hist, hrun, hundo⟩ := hrun
  have hharm := hclaim _ (sampleWorld_lawful _) _ _ _ hist _ _ sampleKept_key sampleKept_coherent rfl
    hrun hundo
  cases (rootKey_of_none (setKeychain_same _ _ _)).symm.trans hharm.key

end MerkleVault.App.RecoveryOutcome
