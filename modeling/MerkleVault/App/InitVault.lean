import MerkleVault.App.KeyMaterial
import MerkleVault.App.AuditCoverage

/-! # The Init Ceremony

`InitVaultCommand` draws a master key and a Vault Root Key, stores the master key and the root key
wrapped under it and for the recovery recipient, and commits the first entry of the audit chain.  It
starts only when no master key is stored; a step that fails deletes what was stored before, all but
the last.

* `storeKeys_leaves`: the keys are stored, or no master key is;
* `init_retryable_iff`: a ceremony can be tried again exactly when its last step, the entry, did not
  fail. -/

namespace MerkleVault.App.InitVault

open MerkleVault.Types MerkleVault.External MerkleVault.Lib.Program MerkleVault.Audit.Writer
open MerkleVault.App.Context MerkleVault.App.Lifecycle MerkleVault.App.Host MerkleVault.App.Restore
open MerkleVault.App.KeyMaterial MerkleVault.App.AuditCoverage MerkleVault.App.Recovery
open MerkleVault.App.Reveal MerkleVault.App.AuditDurability
open MerkleVault.Audit.Integrity MerkleVault.Sqlite.Tables

variable (W : World)

/-! ### The command -/

/-- Where the master key is kept. -/
def keychainRef : String := "dev.fapp.merkle/master-v1"

/-- Delete the items; failures are ignored. -/
def deleteItems (accounts : List String) : Handler Unit :=
  accounts.forM fun account => do
    let _ ← call (.port (.keychainDelete keychainService account))
    return ()

/-- The result of a step of the ceremony; when it is an error, the items are deleted first. -/
def orDelete {α : Type} (accounts : List String) : Except CryptoError α → Handler α
  | .ok a => return a
  | .error e => do
    deleteItems accounts
    throw (.crypto e)

/-- Steps 2 to 7: the keys are drawn, wrapped and stored. -/
def storeKeys : Handler (Key × Key × String) := do
  let master ← call (.port .randomBytes32)
  attempt keychainFault (.port (.keychainStore keychainService accountMasterKey master.toList))
  let recoveryRecipient ← call (.port .recoveryPubkey)
  let vrk ← call (.port .randomBytes32)
  let nonce ← call (.port .randomBytes24)
  let wrapped ← orDelete [accountMasterKey] (W.aeadEncrypt master nonce vrk.toList vrkMasterAad)
  let forRecovery ← orDelete [accountMasterKey]
    (← call (.port (.ageEncrypt [recoveryRecipient] vrk.toList)))
  storeOrUndo accountVrkMaster (W.base64Encode (nonce.toList ++ wrapped)) [accountMasterKey]
  storeOrUndo accountVrkRecovery (W.base64Encode forRecovery) [accountMasterKey, accountVrkMaster]
  return (master, vrk, recoveryRecipient)

/-- The master key, wrapped under a key derived from the passphrase. -/
def enrollPassphraseFallback (master : Key) (passphrase : String) : NodeHandler Unit := do
  if passphrase.isEmpty then failWith (.invalidInput "passphrase must not be empty") else
  let salt ← vaultCall .randomBytes16
  let params : Argon2idParams := ⟨65536, 3, 1, salt⟩
  let kdfKey ← attempt (fun e => .app (.crypto e)) (.app (.port (.argon2idDerive passphrase params)))
  let nonce ← portCall .randomBytes24
  let ciphertext ← ofExcept (fun e => .app (.crypto e))
    (W.aeadEncrypt kdfKey nonce master.toList masterPassphraseAad)
  attempt (fun e => .app (keychainFault e)) (.app (.port (.keychainStore keychainService
    accountArgon2Params (W.argon2ParamsJson params))))
  attempt (fun e => .app (keychainFault e)) (.app (.port (.keychainStore keychainService
    accountMasterPassphraseWrap (W.base64Encode (nonce.toList ++ ciphertext)))))

/-- `InitVaultCommand`. -/
structure InitVaultCommand where
  passphrase : Option String

namespace InitVaultCommand

/-- The field, or the environment variable when there is none; an empty passphrase counts as none. -/
def resolvePassphrase (cmd : InitVaultCommand) : NodeHandler (Option String) := do
  match cmd.passphrase with
  | some passphrase => return (some passphrase).filter fun p => !p.isEmpty
  | none => return (← vaultCall .masterPassphraseVar).filter fun p => !p.isEmpty

/-- The entry of the ceremony, committed under the audit key that unseals derive again. -/
def recordInit (vrk : Key) : Handler Uuid := do
  let namespaceId ← newNamespaceId
  let vaultId ← call .newUuid
  auditCommit { op := .init, outcome := .allow, namespaceId := namespaceId, callerProgram := agent }
    (deriveAuditHmacKey W.toEnv vrk)
  return vaultId

/-- The enrollment of a passphrase; a failure is not fatal. -/
def enroll (cmd : InitVaultCommand) (master : Key) : NodeHandler Unit := do
  match ← cmd.resolvePassphrase with
  | some passphrase =>
    let _ ← resultOf (enrollPassphraseFallback W master passphrase)
    return ()
  | none => return ()

/-- The ceremony under the lock: an initialized vault is left alone. -/
def ceremony (cmd : InitVaultCommand) : NodeHandler NodeReply := do
  match ← portCall (.keychainRetrieve keychainService accountMasterKey) with
  | .ok _ => failWith (.policyDenied "already_initialized")
  | .error .notFound =>
    let (master, vrk, recoveryRecipient) ← runInContext (storeKeys W)
    let vaultId ← runInContext (recordInit W vrk)
    cmd.enroll W master
    return .initialized vaultId recoveryRecipient keychainRef
  | .error e => failWith (.keychain e)

/-- The ceremony under `init_lock`. -/
def execute (cmd : InitVaultCommand) : NodeHandler NodeReply := do
  vaultCall .lockInit
  let result ← resultOf (cmd.ceremony W)
  vaultCall .unlockInit
  ofExcept id result

end InitVaultCommand

/-! ### Failures -/

/-- The entry was not written. -/
def commitFails {β : Type} : Op β → β → Bool
  | .auditCommit _ _, .error _ => true
  | _, _ => false

/-- The commit of an audit entry fails. -/
def failedCommit (e : Event NodeOp) : Bool := ofApp false commitFails e.op e.res

/-- A read of the keychain failed, other than for a missing item. -/
def readFails {β : Type} : Port β → β → Bool
  | .keychainRetrieve _ _, .error e => e ≠ .notFound
  | _, _ => false

/-- A read of the keychain fails, other than for want of the item. -/
def failedRead (e : Event NodeOp) : Bool := ofApp false (ofPort false readFails) e.op e.res

/-- The store of the master key took effect and failed. -/
def landsLate {β : Type} : Port β → β → Bool
  | .keychainStore service account _, r =>
    !r.isOk && tookEffect r && (service, account) = (keychainService, accountMasterKey)
  | _, _ => false

theorem landsLate_iff {service account : String} {value : List UInt8}
    {r : Except KeychainFailure Unit} :
    landsLate (.keychainStore service account value) r = true ↔
      r.isOk = false ∧ tookEffect r = true ∧
        (service, account) = (keychainService, accountMasterKey) := by
  unfold landsLate
  rw [Bool.and_eq_true, Bool.and_eq_true, Bool.not_eq_true', decide_eq_true_iff, and_assoc]

/-- The store of a master key fails after its effect. -/
def lateMaster (e : Event NodeOp) : Bool := ofApp false (ofPort false landsLate) e.op e.res

theorem not_lateMaster {service account : String} {value : List UInt8}
    {r : Except KeychainFailure Unit} (h : r.isOk = true ∨ tookEffect r = false ∨
      (service, account) ≠ (keychainService, accountMasterKey)) :
    lateMaster ⟨.app (.port (.keychainStore service account value)), r⟩ = false := by
  show landsLate (.keychainStore service account value) r = false
  rw [Bool.eq_false_iff, ne_eq, landsLate_iff]
  rintro ⟨hfails, htook, hitem⟩
  rcases h with h | h | h
  · exact Bool.false_ne_true (hfails.symm.trans h)
  · exact Bool.false_ne_true (h.symm.trans htook)
  · exact h hitem

/-- Deletes of the keychain succeed. -/
def deleteSucceeds {β : Type} : Port β → β → Prop
  | .keychainDelete _ _, r => r = .ok ()
  | _, _ => True

/-- A delete of a keychain item succeeds. -/
def deletesSucceed (e : Event NodeOp) : Prop := ofApp True (ofPort True deleteSucceeds) e.op e.res

/-- After an error other than `already_initialized` there is no master key; after a success all keys
and the entry of the ceremony are there. -/
structure Retryable (n n' : Node) (result : Except NodeError NodeReply) : Prop where
  failed : ∀ e, result = .error e → e ≠ .app (.policyDenied "already_initialized") →
    n'.keychain (keychainService, accountMasterKey) = none
  succeeded : ∀ reply, result = .ok reply →
    (∀ account ∈ [accountMasterKey, accountVrkMaster, accountVrkRecovery],
      (n'.keychain (keychainService, account)).isSome = true) ∧
    ∃ entry namespaceId, Records entry
        { op := .init, outcome := .allow, namespaceId := namespaceId, callerProgram := agent } ∧
      n'.app.store.auditEntries = n.app.store.auditEntries ++ [entry]

/-! ### The stages of a ceremony -/

variable {W}

/-- The actions of a ceremony whose deletes succeed. -/
abbrev ceremonyRules (W : World) : Rules NodeOp (Node × List (Event NodeOp)) :=
  tracedRules (nodeExec W) deletesSucceed

/-- No failure that a ceremony does not undo. -/
structure Undoable (e : Event NodeOp) : Prop where
  commit : failedCommit e = false
  read : failedRead e = false
  store : lateMaster e = false

/-- Every event can be undone. -/
def Clean (hist : List (Event NodeOp)) : Prop := ∀ e ∈ hist, Undoable e

theorem Clean.concat {hist : List (Event NodeOp)} {e : Event NodeOp} (h : Clean hist)
    (he : Undoable e) : Clean (hist ++ [e]) := by
  intro e' he'
  rcases List.mem_append.mp he' with he' | he'
  · exact h e' he'
  · rw [List.mem_singleton.mp he']
    exact he

/-- The accounts that are stored; without it there is no master key. -/
structure Stage (n : Node) (stored : List String) (m : Node × List (Event NodeOp)) : Prop where
  app : m.1.app = n.app
  present : ∀ account ∈ stored, (m.1.keychain (keychainService, account)).isSome = true
  absent : accountMasterKey ∉ stored → m.1.keychain (keychainService, accountMasterKey) = none
  clean : Clean m.2

/-- There is no master key. -/
structure Undone (m : Node × List (Event NodeOp)) : Prop where
  absent : m.1.keychain (keychainService, accountMasterKey) = none
  clean : Clean m.2

/-- A failure that is not undone has left a master key. -/
structure Stranded (m : Node × List (Event NodeOp)) : Prop where
  fault : ∃ e ∈ m.2, failedCommit e = true ∨ lateMaster e = true
  present : (m.1.keychain (keychainService, accountMasterKey)).isSome = true

section Stages

variable {n : Node} {stored : List String} {m m' : Node × List (Event NodeOp)}

/-- A call of a port that changes and reads no item. -/
def plain {β : Type} : Port β → Prop
  | .keychainStore _ _ _ => False
  | .keychainDelete _ _ => False
  | .keychainRetrieve _ _ => False
  | _ => True

theorem undoable_port {β : Type} {p : Port β} (hp : plain p) (r : β) :
    Undoable ⟨.app (.port p), r⟩ := by
  cases p with
  | keychainStore service account value => exact hp.elim
  | keychainRetrieve service account => exact hp.elim
  | _ => exact ⟨rfl, rfl, rfl⟩

/-- A store that returns, that fails without effect, or that is of another item. -/
theorem undoable_store {account : String} (value : List UInt8) {r : Except KeychainFailure Unit}
    (h : r = .ok () ∨ tookEffect r = false ∨ account ≠ accountMasterKey) :
    Undoable ⟨.app (.port (.keychainStore keychainService account value)), r⟩ := by
  refine ⟨rfl, rfl, not_lateMaster ?_⟩
  rcases h with rfl | h | h
  · exact .inl rfl
  · exact .inr (.inl h)
  · exact .inr (.inr fun hitem => h (Prod.mk.inj hitem).2)

/-- A call of a port that leaves the node. -/
theorem Stage.idle (h : Stage n stored m) {β : Type} {p : Port β} (hp : plain p) {r : β}
    (hn : m'.1 = m.1) (hh : m'.2 = m.2 ++ [⟨.app (.port p), r⟩]) : Stage n stored m' := by
  obtain ⟨n', hist'⟩ := m'
  obtain rfl : n' = m.1 := hn
  obtain rfl : hist' = _ := hh
  exact ⟨h.app, h.present, h.absent, h.clean.concat (undoable_port hp r)⟩

/-- An item that is stored. -/
theorem Stage.add (h : Stage n stored m) (account : String) (value : List UInt8)
    (hn : m'.1 = m.1.setKeychain (keychainService, account) (some value)) (hclean : Clean m'.2) :
    Stage n (account :: stored) m' := by
  refine ⟨?_, fun a ha => ?_, fun hnot => ?_, hclean⟩
  · rw [hn]
    exact h.app
  · rw [hn]
    show (Function.update m.1.keychain (keychainService, account) (some value) _).isSome = true
    by_cases hk : a = account
    · rw [hk, Function.update_self]
      rfl
    · rw [Function.update_of_ne fun hp => hk (Prod.mk.inj hp).2]
      exact h.present a ((List.mem_cons.mp ha).resolve_left hk)
  · rw [List.mem_cons, not_or] at hnot
    obtain ⟨hne, hnot⟩ := hnot
    rw [hn]
    show Function.update m.1.keychain (keychainService, account) (some value) _ = none
    rw [Function.update_of_ne fun hp => hne (Prod.mk.inj hp).2]
    exact h.absent hnot

/-- A master key that is stored, or not, or stored by a call that fails. -/
theorem Stage.storeMaster (h : Stage n [] m) (value : List UInt8) {r : Except KeychainFailure Unit}
    (hx : portExec W (.keychainStore keychainService accountMasterKey value) m.1 r m'.1)
    (hh : m'.2 = m.2 ++ [⟨.app (.port (.keychainStore keychainService accountMasterKey value)), r⟩]) :
    r = .ok () ∧ Stage n [accountMasterKey] m' ∨
      ∃ failure, r = .error failure ∧ (Undone m' ∨ Stranded m') := by
  rcases hx with ⟨htook, hn⟩ | ⟨htook, hn⟩
  · cases r with
    | ok u =>
      refine .inl ⟨rfl, h.add _ value hn ?_⟩
      rw [hh]
      exact h.clean.concat (undoable_store value (.inl rfl))
    | error failure =>
      have hlate : lateMaster ⟨.app (.port (.keychainStore keychainService accountMasterKey value)),
          .error failure⟩ = true := by
        show (true && tookEffect (.error failure) && decide _) = true
        rw [htook]
        rfl
      refine .inr ⟨failure, rfl, .inr ⟨⟨_, ?_, .inr hlate⟩, ?_⟩⟩
      · rw [hh]
        exact List.mem_append_right _ (List.mem_singleton.mpr rfl)
      · rw [hn]
        simp [Node.setKeychain]
  · cases r with
    | ok u => cases htook
    | error failure =>
      refine .inr ⟨failure, rfl, .inl ⟨?_, ?_⟩⟩
      · rw [hn]
        exact h.absent List.not_mem_nil
      · rw [hh]
        exact h.clean.concat (undoable_store value (.inr (.inl htook)))

/-- **The items are deleted.** -/
theorem deleteItems_leaves {accounts : List String} (hclean : Clean m.2)
    (h : m.1.keychain (keychainService, accountMasterKey) = none ∨ accountMasterKey ∈ accounts) :
    Wp ((ceremonyRules W).pull NodeOp.app) (deleteItems accounts).run m fun m' r =>
      r = .ok () ∧ Undone m' := by
  induction accounts generalizing m with
  | nil => exact ⟨rfl, h.resolve_right List.not_mem_nil, hclean⟩
  | cons account accounts ih =>
    show Wp _ ((call (.port (.keychainDelete keychainService account)) : Handler _) >>= fun _ =>
      deleteItems accounts).run m _
    rw [wp_except_bind, wp_call]
    refine ⟨trivial, ?_⟩
    rintro r ⟨n', _⟩ ⟨hx, hdel, rfl⟩
    obtain rfl : r = .ok () := hdel
    obtain ⟨-, rfl⟩ | ⟨htook, -⟩ := hx
    · refine ih (hclean.concat ⟨rfl, rfl, rfl⟩) ?_
      show Function.update m.1.keychain (keychainService, account) none _ = none ∨ _
      by_cases hk : accountMasterKey = account
      · rw [hk, Function.update_self]
        exact .inl rfl
      · rw [Function.update_of_ne fun hp => hk (Prod.mk.inj hp).2]
        exact h.imp_right fun hmem => (List.mem_cons.mp hmem).resolve_left hk
    · cases htook

/-- A step that fails is undone. -/
theorem orDelete_leaves {α : Type} {x : Except CryptoError α} (h : Stage n stored m)
    {Q : Node × List (Event NodeOp) → Except AppError α → Prop} (hok : ∀ a, x = .ok a → Q m (.ok a))
    (herr : ∀ m' e, Undone m' → Q m' (.error e)) :
    Wp ((ceremonyRules W).pull NodeOp.app) (orDelete [accountMasterKey] x).run m Q := by
  cases x with
  | ok a => exact hok a rfl
  | error e =>
    show Wp _ (deleteItems [accountMasterKey] >>= fun _ => throw (.crypto e)).run m Q
    rw [wp_except_bind]
    refine (deleteItems_leaves h.clean (.inr (List.mem_singleton.mpr rfl))).mono ?_
    rintro m' _ ⟨rfl, hm'⟩
    exact herr m' _ hm'

theorem storeOrUndo_leaves (h : Stage n stored m) {account : String} (hne : account ≠ accountMasterKey)
    (value : List UInt8) {undo : List String} (hundo : accountMasterKey ∈ undo)
    {Q : Node × List (Event NodeOp) → Except AppError Unit → Prop}
    (hok : ∀ m', Stage n (account :: stored) m' → Q m' (.ok ()))
    (herr : ∀ m' e, Undone m' → Q m' (.error e)) :
    Wp ((ceremonyRules W).pull NodeOp.app) (storeOrUndo account value undo).run m Q := by
  unfold storeOrUndo
  rw [wp_except_bind, wp_call]
  refine ⟨trivial, ?_⟩
  rintro r m' ⟨hx, -, hh⟩
  have hclean : Clean m'.2 := by
    rw [hh]
    exact h.clean.concat (undoable_store value (.inr (.inr hne)))
  cases r with
  | ok u =>
    rcases hx with ⟨-, hn⟩ | ⟨htook, -⟩
    · exact hok m' (h.add account value hn hclean)
    · cases htook
  | error failure =>
    show Wp _ (deleteItems undo >>= fun _ => throw (keychainFault failure)).run m' Q
    rw [wp_except_bind]
    refine (deleteItems_leaves hclean (.inr hundo)).mono ?_
    rintro m'' _ ⟨rfl, hm''⟩
    exact herr m'' _ hm''

/-- A call of a port that leaves the node, and what goes on. -/
theorem wp_idle_port {α β : Type} (h : Stage n stored m) (p : Port β) (hp : plain p)
    (hidle : ∀ r n n', portExec W p n r n' → n' = n) {f : β → Handler α}
    {Q : Node × List (Event NodeOp) → Except AppError α → Prop}
    (hf : ∀ r m', Stage n stored m' →
      Wp ((ceremonyRules W).pull NodeOp.app) (f r).run m' Q) :
    Wp ((ceremonyRules W).pull NodeOp.app) (call (.port p) >>= f : Handler α).run m Q := by
  rw [wp_except_bind, wp_call]
  refine ⟨trivial, ?_⟩
  rintro r m' ⟨hx, -, hh⟩
  exact hf r m' (h.idle hp (hidle r _ _ hx) hh)

/-- **The keys are stored, or no master key is**, unless its store failed after its effect. -/
theorem storeKeys_leaves (h : Stage n [] m) :
    Wp ((ceremonyRules W).pull NodeOp.app) (storeKeys W).run m fun m' r =>
      (∃ keys, r = .ok keys ∧
        Stage n [accountVrkRecovery, accountVrkMaster, accountMasterKey] m') ∨
      ∃ e, r = .error e ∧ (Undone m' ∨ Stranded m' ∧ ∀ reason, e ≠ .policyDenied reason) := by
  unfold storeKeys
  refine wp_idle_port h .randomBytes32 trivial (fun _ _ _ hx => hx) fun master m₁ h₁ => ?_
  rw [wp_except_bind, wp_attempt]
  refine ⟨trivial, ?_⟩
  rintro r m₂ ⟨hx, -, hh⟩
  obtain ⟨rfl, h₂⟩ | ⟨failure, rfl, h₂⟩ := h₁.storeMaster (W := W) master.toList hx hh
  swap
  · exact .inr ⟨_, rfl, h₂.imp_right fun h => ⟨h, fun _ he => nomatch he⟩⟩
  have herr : ∀ (m' : Node × List (Event NodeOp)) (e : AppError), Undone m' →
      (∃ keys, (.error e : Except AppError (Key × Key × String)) = .ok keys ∧
        Stage n [accountVrkRecovery, accountVrkMaster, accountMasterKey] m') ∨
      ∃ e', (.error e : Except AppError (Key × Key × String)) = .error e' ∧
        (Undone m' ∨ Stranded m' ∧ ∀ reason, e' ≠ .policyDenied reason) :=
    fun m' e hm' => .inr ⟨e, rfl, .inl hm'⟩
  refine wp_idle_port h₂ .recoveryPubkey trivial (fun _ _ _ hx => hx.1) fun recoveryRecipient m₃ h₃ => ?_
  refine wp_idle_port h₃ .randomBytes32 trivial (fun _ _ _ hx => hx) fun vrk m₄ h₄ => ?_
  refine wp_idle_port h₄ .randomBytes24 trivial (fun _ _ _ hx => hx) fun nonce m₅ h₅ => ?_
  refine wp_except_bind.mpr (orDelete_leaves h₅ (fun wrapped _ => ?_) herr)
  refine wp_idle_port h₅ (.ageEncrypt [recoveryRecipient] vrk.toList) trivial
    (fun _ _ _ hx => hx.1) fun encrypted m₆ h₆ => ?_
  refine wp_except_bind.mpr (orDelete_leaves h₆ (fun forRecovery _ => ?_) herr)
  refine wp_except_bind.mpr
    (storeOrUndo_leaves h₆ (by decide) _ (List.mem_singleton.mpr rfl) (fun m₇ h₇ => ?_) herr)
  refine wp_except_bind.mpr
    (storeOrUndo_leaves h₇ (by decide) _ List.mem_cons_self (fun m₈ h₈ => ?_) herr)
  exact .inl ⟨_, rfl, h₈⟩

/-- All keys are stored and the entry of the ceremony is committed. -/
structure Complete (n : Node) (m : Node × List (Event NodeOp)) : Prop where
  present : ∀ account ∈ [accountMasterKey, accountVrkMaster, accountVrkRecovery],
    (m.1.keychain (keychainService, account)).isSome = true
  entry : ∃ entry namespaceId, Records entry
      { op := .init, outcome := .allow, namespaceId := namespaceId, callerProgram := agent } ∧
    m.1.app.store.auditEntries = n.app.store.auditEntries ++ [entry]
  clean : Clean m.2

theorem auditCommitSection_refuses {K : Crates} {params : AppendParams} {key : Key} {draw : Draw}
    {fault : Option StorageError} {s s' : AppState} {e : AppError}
    (h : auditCommitSection K params key draw fault s = (.error e, s')) (reason : String) :
    e ≠ .policyDenied reason := by
  unfold auditCommitSection at h
  split at h
  · rw [← Except.error.inj (Prod.mk.inj h).1]
    exact fun h => nomatch h
  · split at h
    · rw [← Except.error.inj (Prod.mk.inj h).1]
      exact fun h => nomatch h
    · cases (Prod.mk.inj h).1

/-- **The entry is committed, or its commit fails** and the keys stay. -/
theorem recordInit_leaves
    (h : Stage n [accountVrkRecovery, accountVrkMaster, accountMasterKey] m) (vrk : Key) :
    Wp ((ceremonyRules W).pull NodeOp.app) (InitVaultCommand.recordInit W vrk).run m fun m' r =>
      (∃ vaultId, r = .ok vaultId ∧ Complete n m') ∨
      ∃ e, r = .error e ∧ Stranded m' ∧ ∀ reason, e ≠ .policyDenied reason := by
  refine wp_except_bind.mpr (wp_except_bind.mpr (wp_call.mpr ⟨trivial, ?_⟩))
  rintro namespaceId ⟨n₁, h₁⟩ ⟨hx₁, -, rfl⟩
  change appExec W .newUuid m.1 namespaceId n₁ at hx₁
  refine wp_except_bind.mpr (wp_call.mpr ⟨trivial, ?_⟩)
  rintro vaultId ⟨n₂, h₂⟩ ⟨hx₂, -, rfl⟩
  change appExec W .newUuid n₁ vaultId n₂ at hx₂
  refine wp_except_bind.mpr (wp_attempt.mpr ⟨trivial, ?_⟩)
  rintro r ⟨n₃, h₃⟩ ⟨hx₃, -, rfl⟩
  change appExec W (.auditCommit { op := .init, outcome := .allow, namespaceId := ⟨namespaceId⟩
                                   callerProgram := agent } (deriveAuditHmacKey W.toEnv vrk))
    n₂ r n₃ at hx₃
  have happ : n₂.app.store = n.app.store := by
    rw [(appExec_exec hx₂).2, (appExec_exec hx₁).2, h.app]
  have hkeychain : n₃.keychain = m.1.keychain := by
    rw [appExec_frame rfl hx₃, appExec_frame rfl hx₂, appExec_frame rfl hx₁]
  have hpresent : ∀ account ∈ [accountMasterKey, accountVrkMaster, accountVrkRecovery],
      (n₃.keychain (keychainService, account)).isSome = true := by
    intro account haccount
    rw [hkeychain]
    refine h.present account ?_
    simpa [or_comm, or_assoc, or_left_comm] using haccount
  obtain ⟨draw, fault, hcommit⟩ := appExec_exec hx₃
  have hclean := (h.clean.concat (e := ⟨.app .newUuid, namespaceId⟩) ⟨rfl, rfl, rfl⟩).concat
    (e := ⟨.app .newUuid, vaultId⟩) ⟨rfl, rfl, rfl⟩
  cases r with
  | error e =>
    exact .inr ⟨e, rfl, ⟨⟨_, List.mem_append_right _ (List.mem_singleton.mpr rfl), .inl rfl⟩,
      hpresent _ List.mem_cons_self⟩, auditCommitSection_refuses hcommit⟩
  | ok _ =>
    rcases auditCommitSection_entries hcommit with ⟨entry, hentry, hes⟩ | ⟨hno, -⟩
    · refine .inl ⟨vaultId, rfl, hpresent, ⟨entry, _, hentry, ?_⟩, hclean.concat ⟨rfl, rfl, rfl⟩⟩
      rw [hes, happ]
    · cases hno

/-! ### Enrollment -/

/-- A call of the passphrase enrollment. -/
def enrollsPort {β : Type} : Port β → Prop
  | .keychainStore _ account _ =>
    account = accountArgon2Params ∨ account = accountMasterPassphraseWrap
  | .randomBytes24 => True
  | .argon2idDerive _ _ => True
  | _ => False

/-- An action of the passphrase enrollment. -/
def enrollsOp {β : Type} : Op β → Prop
  | .port p => enrollsPort p
  | _ => False

/-- An action of the agent that the enrollment takes. -/
def enrollsVault {β : Type} : VaultOp β → Prop
  | .randomBytes16 => True
  | .masterPassphraseVar => True
  | _ => False

/-- An action of the enrollment. -/
def enrolls {β : Type} : NodeOp β → Prop
  | .app op => enrollsOp op
  | .vault op => enrollsVault op

/-- Enrollment stores other items. -/
theorem Complete.enrolls (h : Complete n m) {β : Type} {o : NodeOp β} {r : β} (hop : enrolls o)
    (hx : nodeExec W o m.1 r m'.1) (hh : m'.2 = m.2 ++ [⟨o, r⟩]) : Complete n m' := by
  obtain ⟨n', hist'⟩ := m'
  obtain rfl : hist' = _ := hh
  cases o with
  | vault op =>
    cases op with
    | randomBytes16 =>
      obtain rfl : n' = m.1 := hx
      exact ⟨h.present, h.entry, h.clean.concat ⟨rfl, rfl, rfl⟩⟩
    | masterPassphraseVar =>
      obtain rfl : n' = m.1 := hx
      exact ⟨h.present, h.entry, h.clean.concat ⟨rfl, rfl, rfl⟩⟩
    | _ => exact hop.elim
  | app op =>
    cases op with
    | port p =>
      cases p with
      | keychainStore service account value =>
        have hother : ∀ a, a = accountArgon2Params ∨ a = accountMasterPassphraseWrap →
            a ∉ [accountMasterKey, accountVrkMaster, accountVrkRecovery] := by
          rintro a (rfl | rfl) <;> decide
        have hne : account ≠ accountMasterKey := by
          rintro rfl
          exact hother _ hop List.mem_cons_self
        have hclean : Clean (m.2 ++ [⟨.app (.port (.keychainStore service account value)), r⟩]) :=
          h.clean.concat ⟨rfl, rfl, not_lateMaster
            (.inr (.inr fun hitem => hne (Prod.mk.inj hitem).2))⟩
        change portExec W (.keychainStore service account value) m.1 r n' at hx
        have happ : n'.app = m.1.app := portExec_app hx
        refine ⟨fun a ha => ?_, ?_, hclean⟩
        · rcases hx with ⟨-, hn⟩ | ⟨-, hn⟩
          · obtain rfl : n' = _ := hn
            show (Function.update m.1.keychain (service, account) (some value) _).isSome = true
            have hapart : (keychainService, a) ≠ (service, account) := by
              intro hp
              rw [(Prod.mk.inj hp).2] at ha
              exact hother account hop ha
            rw [Function.update_of_ne hapart]
            exact h.present a ha
          · obtain rfl : n' = _ := hn
            exact h.present a ha
        · show ∃ entry namespaceId, _ ∧ n'.app.store.auditEntries = _
          rw [happ]
          exact h.entry
      | randomBytes24 =>
        obtain rfl : n' = m.1 := hx
        exact ⟨h.present, h.entry, h.clean.concat ⟨rfl, rfl, rfl⟩⟩
      | argon2idDerive passphrase params =>
        obtain rfl : n' = m.1 := hx.1
        exact ⟨h.present, h.entry, h.clean.concat ⟨rfl, rfl, rfl⟩⟩
      | _ => exact hop.elim
    | _ => exact hop.elim

theorem only_enrollPassphraseFallback (W : World) (master : Key) (passphrase : String) :
    Only enrolls (enrollPassphraseFallback W master passphrase).run := by
  unfold enrollPassphraseFallback
  split_ifs with hempty
  · exact only_throw _
  refine only_except_bind (only_call trivial) fun salt => ?_
  refine only_except_bind (only_attempt trivial) fun kdfKey => ?_
  refine only_except_bind (only_call trivial) fun nonce => ?_
  refine only_except_bind (only_ofExcept _ _) fun ciphertext => ?_
  refine only_except_bind (only_attempt (.inl rfl)) fun _ => ?_
  exact only_attempt (.inr rfl)

/-- **Enrollment does not fail**, and stores other items. -/
theorem enroll_leaves (h : Complete n m) (cmd : InitVaultCommand) (master : Key) :
    Wp (ceremonyRules W) (cmd.enroll W master).run m fun m' r => r = .ok () ∧ Complete n m' := by
  have hstep : ∀ {β : Type} {op : NodeOp β} {m m' : Node × List (Event NodeOp)} {r : β},
      enrolls op → Complete n m → (ceremonyRules W).moves m op r m' → Complete n m' :=
    fun hop hm hx => hm.enrolls hop hx.1 hx.2.2
  have hresolve : Wp (ceremonyRules W) cmd.resolvePassphrase.run m fun m' r =>
      (∃ passphrase, r = .ok passphrase) ∧ Complete n m' := by
    unfold InitVaultCommand.resolvePassphrase
    cases cmd.passphrase with
    | some passphrase => exact ⟨⟨_, rfl⟩, h⟩
    | none =>
      refine wp_except_bind.mpr (wp_call.mpr ⟨trivial, ?_⟩)
      rintro r m' ⟨hx, -, hh⟩
      exact ⟨⟨_, rfl⟩, h.enrolls (o := .vault .masterPassphraseVar) trivial hx hh⟩
  refine wp_except_bind.mpr (hresolve.mono ?_)
  rintro m₁ _ ⟨⟨passphrase, rfl⟩, h₁⟩
  cases passphrase with
  | none => exact ⟨rfl, h₁⟩
  | some passphrase =>
    refine wp_except_bind.mpr (wp_resultOf.mpr ?_)
    exact (wp_of_only (fun _ _ => trivial) hstep (only_enrollPassphraseFallback W master passphrase)
      h₁).mono fun _ _ hm' => ⟨rfl, hm'⟩

/-! ### The ceremony -/

/-- What the ceremony that ended owes to the failures on its way. -/
def Accounted (n : Node) (m : Node × List (Event NodeOp)) (r : Except NodeError NodeReply) : Prop :=
  Retryable n m.1 r ↔ (∀ e ∈ m.2, failedCommit e = false ∧ lateMaster e = false) ∧
    ((∃ e ∈ m.2, failedRead e = true) → n.keychain (keychainService, accountMasterKey) = none)

theorem Clean.condition {hist : List (Event NodeOp)} (h : Clean hist) (n : Node) :
    (∀ e ∈ hist, failedCommit e = false ∧ lateMaster e = false) ∧
      ((∃ e ∈ hist, failedRead e = true) → n.keychain (keychainService, accountMasterKey) = none) :=
  ⟨fun e he => ⟨(h e he).commit, (h e he).store⟩,
    fun ⟨e, he, hread⟩ => absurd hread (by rw [(h e he).read]; exact Bool.false_ne_true)⟩

theorem Undone.accounted (h : Undone m) (e : NodeError) : Accounted n m (.error e) :=
  ⟨fun _ => h.clean.condition n, fun _ => ⟨fun _ _ _ => h.absent, fun _ hr => nomatch hr⟩⟩

theorem Stranded.accounted (h : Stranded m) {e : AppError} (he : ∀ reason, e ≠ .policyDenied reason) :
    Accounted n m (.error (.app e)) := by
  obtain ⟨e', hmem, hfault⟩ := h.fault
  constructor
  · intro hretry
    have hpresent := h.present
    rw [hretry.failed _ rfl fun hdenied => he _ (NodeError.app.inj hdenied)] at hpresent
    cases hpresent
  · rintro ⟨hno, -⟩
    obtain ⟨hcommit, hlate⟩ := hno e' hmem
    rcases hfault with hfault | hfault
    · rw [hcommit] at hfault
      cases hfault
    · rw [hlate] at hfault
      cases hfault

theorem Complete.accounted (h : Complete n m) (reply : NodeReply) : Accounted n m (.ok reply) :=
  ⟨fun _ => h.clean.condition n, fun _ => ⟨fun _ hr => (nomatch hr), fun _ _ => ⟨h.present, h.entry⟩⟩⟩

/-- The probe answered with an error other than that there is no master key. -/
theorem accounted_of_failedRead (hkeychain : m.1.keychain = n.keychain) (hclean : Clean m.2)
    {e : KeychainError} (he : e ≠ .notFound) :
    Accounted n (m.1, m.2 ++ [⟨.app (.port (.keychainRetrieve keychainService accountMasterKey)),
      .error e⟩]) (.error (.app (.keychain e))) := by
  have hread : failedRead ⟨.app (.port (.keychainRetrieve keychainService accountMasterKey)),
      .error e⟩ = true := decide_eq_true he
  constructor
  · intro h
    refine ⟨fun e' he' => ?_, fun _ => ?_⟩
    · rcases List.mem_append.mp he' with he' | he'
      · exact ⟨(hclean e' he').commit, (hclean e' he').store⟩
      · rw [List.mem_singleton.mp he']
        exact ⟨rfl, rfl⟩
    · rw [← hkeychain]
      exact h.failed _ rfl fun h => nomatch h
  · rintro ⟨-, h⟩
    refine ⟨fun _ _ _ => ?_, fun _ hr => nomatch hr⟩
    show m.1.keychain _ = none
    rw [hkeychain]
    exact h ⟨_, List.mem_append_right _ (List.mem_singleton.mpr rfl), hread⟩

/-- **The ceremony** ends accounted for, whatever fails on its way. -/
theorem ceremony_leaves (cmd : InitVaultCommand) (happ : m.1.app = n.app)
    (hkeychain : m.1.keychain = n.keychain) (hclean : Clean m.2) :
    Wp (ceremonyRules W) (cmd.ceremony W).run m (Accounted n) := by
  refine wp_except_bind.mpr (wp_call.mpr ⟨trivial, ?_⟩)
  rintro r ⟨n₁, h₁⟩ ⟨hx, -, rfl⟩
  change portExec W (.keychainRetrieve keychainService accountMasterKey) m.1 r n₁ at hx
  obtain rfl := keychainRetrieve_same hx
  match r, hx with
  | .ok value, _ =>
    have hclean' := hclean.concat (e := ⟨.app (.port (.keychainRetrieve keychainService
      accountMasterKey)), .ok value⟩) ⟨rfl, rfl, rfl⟩
    refine ⟨fun _ => hclean'.condition n, fun _ => ⟨fun e he hne => ?_, fun _ hr => nomatch hr⟩⟩
    obtain rfl := Except.error.inj he
    exact absurd rfl hne
  | .error .permissionDenied, _ => exact accounted_of_failedRead hkeychain hclean (fun h => nomatch h)
  | .error (.persistenceFailed _ _), _ =>
    exact accounted_of_failedRead hkeychain hclean (fun h => nomatch h)
  | .error (.backend _), _ => exact accounted_of_failedRead hkeychain hclean (fun h => nomatch h)
  | .error .notFound, hx =>
    have habsent : m.1.keychain (keychainService, accountMasterKey) = none := by
      obtain ⟨-, hr⟩ | ⟨-, e, hne, he⟩ := hx
      · cases hitem : m.1.keychain (keychainService, accountMasterKey) with
        | none => rfl
        | some value =>
          rw [hitem] at hr
          cases hr
      · exact absurd (Except.error.inj he).symm hne
    have hstage : Stage n [] (m.1, m.2 ++ [⟨.app (.port (.keychainRetrieve keychainService
        accountMasterKey)), .error .notFound⟩]) :=
      ⟨happ, fun _ h => absurd h List.not_mem_nil, fun _ => habsent,
        hclean.concat ⟨rfl, rfl, rfl⟩⟩
    refine wp_except_bind.mpr (wp_embedded.mpr ((storeKeys_leaves hstage).mono ?_))
    rintro m₂ _ (⟨⟨master, vrk, recoveryRecipient⟩, rfl, h₂⟩ | ⟨e, rfl, h₂⟩)
    swap
    · rcases h₂ with h₂ | ⟨h₂, hne⟩
      · exact h₂.accounted _
      · exact h₂.accounted hne
    refine wp_except_bind.mpr (wp_embedded.mpr ((recordInit_leaves h₂ vrk).mono ?_))
    rintro m₃ _ (⟨vaultId, rfl, h₃⟩ | ⟨e, rfl, h₃, hne⟩)
    · refine wp_except_bind.mpr ((enroll_leaves h₃ cmd master).mono ?_)
      rintro m₄ _ ⟨rfl, h₄⟩
      exact h₄.accounted _
    · exact h₃.accounted hne

/-- The release of the lock changes nothing of it. -/
theorem Accounted.unlock {r : Except NodeError NodeReply} (h : Accounted n m r) :
    Accounted n ({ m.1 with initLocked := false }, m.2 ++ [⟨.vault .unlockInit, ()⟩]) r := by
  have hsame : Retryable n { m.1 with initLocked := false } r ↔ Retryable n m.1 r :=
    ⟨fun h => ⟨h.failed, h.succeeded⟩, fun h => ⟨h.failed, h.succeeded⟩⟩
  refine hsame.trans (h.trans (and_congr ?_ ?_))
  · rw [List.forall_mem_append, List.forall_mem_singleton]
    exact ⟨fun h => ⟨h, rfl, rfl⟩, And.left⟩
  · refine imp_congr_left ⟨?_, ?_⟩
    · rintro ⟨e, he, hread⟩
      exact ⟨e, List.mem_append_left _ he, hread⟩
    · rintro ⟨e, he, hread⟩
      rcases List.mem_append.mp he with he | he
      · exact ⟨e, he, hread⟩
      · rw [List.mem_singleton.mp he] at hread
        cases hread

end Stages

/-- **An init can be tried again**, with no master key left behind by its error and with all of its
keys and its entry there after its success, if and only if the commit of its entry did not fail, the
store of its master key did not fail after its effect, and the probe did not fail over a master key
that was there. -/
theorem init_retryable_iff (W : World) (cmd : InitVaultCommand) (n n' : Node)
    (hist : List (Event NodeOp)) (result : Except NodeError NodeReply)
    (hrun : Runs (nodeExec W) (cmd.execute W).run n hist result n')
    (hdelete : ∀ e ∈ hist, deletesSucceed e) :
    Retryable n n' result ↔ (∀ e ∈ hist, failedCommit e = false ∧ lateMaster e = false) ∧
      ((∃ e ∈ hist, failedRead e = true) → n.keychain (keychainService, accountMasterKey) = none) := by
  have hwp : Wp (ceremonyRules W) (cmd.execute W).run (n, []) (Accounted n) := by
    refine wp_except_bind.mpr (wp_call.mpr ⟨trivial, ?_⟩)
    rintro _ ⟨n₁, h₁⟩ ⟨⟨-, hn₁⟩, -, rfl⟩
    obtain rfl : n₁ = _ := hn₁
    refine wp_except_bind.mpr (wp_resultOf.mpr ((ceremony_leaves (n := n) cmd rfl rfl ?_).mono ?_))
    · rintro e he
      rw [List.mem_singleton.mp he]
      exact ⟨rfl, rfl, rfl⟩
    rintro m r hm
    refine wp_except_bind.mpr (wp_call.mpr ⟨trivial, ?_⟩)
    rintro _ ⟨n₂, h₂⟩ ⟨hn₂, -, rfl⟩
    obtain rfl : n₂ = _ := hn₂
    cases r with
    | ok reply => exact hm.unlock
    | error e => exact hm.unlock
  exact wp_traced_runs hwp hrun hdelete

/-! ### Two ceremonies -/

/-- An init with an empty passphrase. -/
def sampleInit : InitVaultCommand := ⟨some ""⟩

/-- The wrapped root key, as the sample world wraps it. -/
def sampleWrappedKey : List UInt8 :=
  List.replicate 24 0 ++ (sampleKey.toList ++ sampleKey.toList ++ List.replicate 16 0)

/-- The keys of a ceremony, all stored. -/
def sampleKeyed : Node :=
  ((sampleNewMachine.setKeychain (keychainService, accountMasterKey) (some sampleKey.toList)).setKeychain
    (keychainService, accountVrkMaster) (some sampleWrappedKey)).setKeychain
    (keychainService, accountVrkRecovery) (some sampleKey.toList)

/-- The identifiers of a ceremony are drawn. -/
def sampleDrawn : AppState := { sampleNewMachine.app with issued := [sampleUuid 2, sampleUuid 1] }

/-- The entry of an init. -/
def sampleInitEntry : AppendParams :=
  { op := .init, outcome := .allow, namespaceId := ⟨sampleUuid 1⟩, callerProgram := agent }

/-- A ceremony on a new machine, up to what its commit answers. -/
theorem sampleInit_runs {r : Except AppError Unit} {s : AppState}
    (hx : ∃ draw fault, auditCommitSection (sampleWorld sampleWrapped).toCrates sampleInitEntry
      (deriveAuditHmacKey (sampleWorld sampleWrapped).toEnv sampleKey) draw fault sampleDrawn = (r, s)) :
    ∃ hist, Runs (nodeExec (sampleWorld sampleWrapped))
      (sampleInit.execute (sampleWorld sampleWrapped)).run
      sampleNewMachine hist (match r with
        | .ok () => .ok (.initialized (sampleUuid 2) "age1r" keychainRef)
        | .error e => .error (.app e)) { sampleKeyed with app := s } ∧
      ∀ e ∈ hist, deletesSucceed e ∧ failedRead e = false ∧
        (r = .ok () → failedCommit e = false ∧ lateMaster e = false) := by
  let m := { sampleNewMachine with initLocked := true }
  let m₁ := m.setKeychain (keychainService, accountMasterKey) (some sampleKey.toList)
  let m₂ := m₁.setKeychain (keychainService, accountVrkMaster) (some sampleWrappedKey)
  let m₃ := m₂.setKeychain (keychainService, accountVrkRecovery) (some sampleKey.toList)
  let s₁ : AppState := { sampleNewMachine.app with issued := [sampleUuid 1] }
  refine exists_runs_act_all rfl () m ⟨rfl, rfl⟩ ⟨trivial, rfl, fun _ => ⟨rfl, rfl⟩⟩ ?_
  refine exists_runs_act_all rfl (.error .notFound) m (.inl ⟨rfl, rfl⟩)
    ⟨trivial, rfl, fun _ => ⟨rfl, rfl⟩⟩ ?_
  refine exists_runs_act_all rfl sampleKey m rfl ⟨trivial, rfl, fun _ => ⟨rfl, rfl⟩⟩ ?_
  refine exists_runs_act_all rfl (.ok ()) m₁ (.inl ⟨rfl, rfl⟩) ⟨trivial, rfl, fun _ => ⟨rfl, rfl⟩⟩ ?_
  refine exists_runs_act_all rfl "age1r" m₁ ⟨rfl, rfl⟩ ⟨trivial, rfl, fun _ => ⟨rfl, rfl⟩⟩ ?_
  refine exists_runs_act_all rfl sampleKey m₁ rfl ⟨trivial, rfl, fun _ => ⟨rfl, rfl⟩⟩ ?_
  refine exists_runs_act_all rfl (Vector.replicate 24 0) m₁ rfl ⟨trivial, rfl, fun _ => ⟨rfl, rfl⟩⟩ ?_
  refine exists_runs_act_all rfl (.ok sampleKey.toList) m₁ ⟨rfl, 0, rfl⟩
    ⟨trivial, rfl, fun _ => ⟨rfl, rfl⟩⟩ ?_
  refine exists_runs_act_all rfl (.ok ()) m₂ (.inl ⟨rfl, rfl⟩) ⟨trivial, rfl, fun _ => ⟨rfl, rfl⟩⟩ ?_
  refine exists_runs_act_all rfl (.ok ()) m₃ (.inl ⟨rfl, rfl⟩) ⟨trivial, rfl, fun _ => ⟨rfl, rfl⟩⟩ ?_
  refine exists_runs_act_all rfl (sampleUuid 1) { m₃ with app := s₁ } ⟨⟨by decide, rfl⟩, rfl⟩
    ⟨trivial, rfl, fun _ => ⟨rfl, rfl⟩⟩ ?_
  refine exists_runs_act_all rfl (sampleUuid 2) { m₃ with app := sampleDrawn } ⟨⟨by decide, rfl⟩, rfl⟩
    ⟨trivial, rfl, fun _ => ⟨rfl, rfl⟩⟩ ?_
  refine exists_runs_act_all rfl r { m₃ with app := s } ⟨hx, rfl⟩ ⟨trivial, rfl, ?_⟩ ?_
  · rintro rfl
    exact ⟨rfl, rfl⟩
  cases r with
  | ok _ =>
    refine exists_runs_act_all rfl () { sampleKeyed with app := s } rfl
      ⟨trivial, rfl, fun _ => ⟨rfl, rfl⟩⟩ ?_
    exact exists_runs_ret_all rfl
  | error e =>
    refine exists_runs_act_all rfl () { sampleKeyed with app := s } rfl
      ⟨trivial, rfl, fun _ => ⟨rfl, rfl⟩⟩ ?_
    exact exists_runs_ret_all rfl

/-- A ceremony without a fault. -/
theorem sampleInit_retryable : ∃ (n' : Node) (reply : NodeReply),
    Retryable sampleNewMachine n' (.ok reply) := by
  obtain ⟨s, hx, -⟩ := first_commit (sampleWorld sampleWrapped).toCrates sampleInitEntry
    (deriveAuditHmacKey (sampleWorld sampleWrapped).toEnv sampleKey) (sampleCall 1).draw sampleDrawn rfl
  obtain ⟨hist, hrun, hE⟩ := sampleInit_runs ⟨_, _, hx⟩
  refine ⟨_, _, (init_retryable_iff _ _ _ _ hist _ hrun fun e he => (hE e he).1).mpr ⟨?_, ?_⟩⟩
  · exact fun e he => (hE e he).2.2 rfl
  · rintro ⟨e, he, hread⟩
    rw [(hE e he).2.1] at hread
    cases hread

/-- **The commit of the entry fails**: the error is returned and the keys stay. -/
theorem failed_commit_blocks_init : ¬ ∀ (W : World) (cmd : InitVaultCommand) (n n' : Node)
    (hist : List (Event NodeOp)) (result : Except NodeError NodeReply),
      Runs (nodeExec W) (cmd.execute W).run n hist result n' → (∀ e ∈ hist, deletesSucceed e) →
        Retryable n n' result := by
  intro hclaim
  obtain ⟨hist, hrun, hE⟩ := sampleInit_runs (r := .error (.storage (.transient "busy")))
    (s := sampleDrawn) ⟨(sampleCall 1).draw, some (.transient "busy"), rfl⟩
  have hnone := (hclaim _ _ _ _ hist _ hrun fun e he => (hE e he).1).failed _ rfl fun h => nomatch h
  cases hnone

end MerkleVault.App.InitVault
