import MerkleVault.App.BackupKeys
import MerkleVault.App.KeychainPairing
import MerkleVault.App.UseTokens

/-! # The Three Routes Agree

The init ceremony wraps one root key under the master key, under a passphrase by way of the master
key, and for the recovery recipient; a backup carries the last wrap.  Unseals, seals, backups, further
inits and whatever else leaves these items alone run in any interleaving after it.

* `init_yields`: what a ceremony that returns has stored, drawn and committed;
* `Ring.step`: what every allowed action keeps;
* `routes_agree`: the keychain, the passphrase and each backup yield the root key of the ceremony. -/

namespace MerkleVault.App.KeyAgreement

open MerkleVault.Types MerkleVault.External MerkleVault.Lib.Program MerkleVault.Audit.Writer
open MerkleVault.Identity MerkleVault.App.Context MerkleVault.App.Lifecycle MerkleVault.App.Host
open MerkleVault.App.Restore MerkleVault.App.KeyMaterial MerkleVault.App.InitVault
open MerkleVault.App.RecoveryOutcome MerkleVault.App.Recovery
  MerkleVault.App.UnsealRoutes MerkleVault.App.IdentitySections
open MerkleVault.App.BackupCommands MerkleVault.App.AuditDurability MerkleVault.App.Reveal
open MerkleVault.Audit.Integrity

variable {W : World}

/-! ### What a ceremony shows -/

/-- What a command drew, committed, derived and stored. -/
inductive Note
  | drawn (key : Key)
  | committed (params : AppendParams) (key : Key)
  | derived (passphrase : String)
  | wrapStored
deriving DecidableEq

/-- The note of a call of a port. -/
def notePort {β : Type} : Port β → β → Option Note
  | .randomBytes32, key => some (.drawn key)
  | .argon2idDerive passphrase _, _ => some (.derived passphrase)
  | .keychainStore service account _, .ok () =>
    if (service, account) = (keychainService, accountMasterPassphraseWrap) then some .wrapStored
    else none
  | _, _ => none

/-- The note of an action of the application. -/
def noteOp {β : Type} : Op β → β → Option Note
  | .port p, r => notePort p r
  | .auditCommit params key, .ok () => some (.committed params key)
  | _, _ => none

/-- The keys drawn, the entries committed and the passphrase enrolled, in order. -/
def notes (hist : List (Event NodeOp)) : List Note := collect (ofApp none noteOp) hist

theorem notes_concat (hist : List (Event NodeOp)) (e : Event NodeOp) :
    notes (hist ++ [e]) = notes hist ++ (ofApp none noteOp e.op e.res).toList :=
  collect_concat _ hist e

/-- The ceremony derived a key from the passphrase, and stored the wrap under it. -/
def Enrolls (hist : List (Event NodeOp)) (passphrase : String) : Prop :=
  .derived passphrase ∈ notes hist ∧ .wrapStored ∈ notes hist

/-! ### What a ceremony leaves -/

/-- The root key is wrapped under the master key and for the recovery recipient. -/
structure Ringed (W : World) (master vrk : Key) (n : Node) : Prop where
  item : n.keychain (keychainService, accountMasterKey) = some master.toList
  wrap : ∃ nonce wrapped, W.aeadEncrypt master nonce vrk.toList vrkMasterAad = .ok wrapped ∧
    n.keychain (keychainService, accountVrkMaster) = some (wrapBlob W nonce wrapped)
  recovery : ∃ seed age, W.ageEncrypt seed [n.recoveryPubkey] vrk.toList = .ok age ∧
    n.keychain (keychainService, accountVrkRecovery) = some (W.base64Encode age)

theorem Ringed.rootKey {master vrk : Key} {n : Node} (hW : W.Lawful) (h : Ringed W master vrk n) :
    rootKey W n.keychain none = some vrk := by
  obtain ⟨nonce, wrapped, hwrapped, hitem⟩ := h.wrap
  exact rootKey_keychain hW h.item hitem hwrapped

theorem ringed_rewrapped {n : Node} {master vrk : Key} {nonce : Vector UInt8 24}
    {wrapped age : List UInt8} {seed : Nat}
    (hwrapped : W.aeadEncrypt master nonce vrk.toList vrkMasterAad = .ok wrapped)
    (hage : W.ageEncrypt seed [n.recoveryPubkey] vrk.toList = .ok age) :
    Ringed W master vrk (rewrapped W n master nonce wrapped age) where
  item := by
    rw [rewrapped, setKeychain_other _ _ (by decide), setKeychain_other _ _ (by decide),
      setKeychain_same]
  wrap := ⟨nonce, wrapped, hwrapped, by
    rw [rewrapped, setKeychain_other _ _ (by decide), setKeychain_same]
    rfl⟩
  recovery := ⟨seed, age, hage, setKeychain_same _ _ _⟩

/-- **The stored wrap opens to this key only**, under whatever key it is opened. -/
theorem Ringed.opens {master vrk : Key} {n : Node} (hW : W.Lawful) (hbound : KeyBound W)
    (h : Ringed W master vrk n) {key' key : Key} {blob : List UInt8}
    (hblob : n.keychain (keychainService, accountVrkMaster) = some blob)
    (hopens : openKey W key' vrkMasterAad blob = some key) : key = vrk := by
  obtain ⟨nonce, ciphertext, hwrapped, hitem⟩ := h.wrap
  obtain rfl := Option.some.inj (hitem.symm.trans hblob)
  obtain ⟨wrapped, nonce', ciphertext', bytes, hdecoded, hsplit, hbytes, hkey⟩ :=
    openKey_eq_some hopens
  obtain rfl := Except.ok.inj ((hW.base64 _).symm.trans hdecoded)
  obtain ⟨rfl, rfl⟩ := Prod.mk.inj (Option.some.inj
    ((splitNonce_append nonce (hW.aeadTag _ _ _ _ _ hwrapped)).symm.trans hsplit))
  obtain rfl := hbound _ _ _ _ _ _ _ hwrapped hbytes
  obtain rfl := Except.ok.inj ((hW.aead _ _ _ _ _ hwrapped).symm.trans hbytes)
  rw [keyOfSlice_toList] at hkey
  exact (Option.some.inj hkey).symm

/-- What the enrollment of a passphrase leaves alone. -/
structure Spared (n n' : Node) : Prop where
  app : n'.app = n.app
  recoveryPubkey : n'.recoveryPubkey = n.recoveryPubkey
  keychain : ∀ account ∈ [accountMasterKey, accountVrkMaster, accountVrkRecovery],
    n'.keychain (keychainService, account) = n.keychain (keychainService, account)

theorem Spared.refl {n : Node} : Spared n n := ⟨Eq.refl _, Eq.refl _, fun _ _ => Eq.refl _⟩

theorem Spared.store {n n' : Node} (h : Spared n n') {account : String} (value : List UInt8)
    (haccount : account ∉ [accountMasterKey, accountVrkMaster, accountVrkRecovery]) :
    Spared n (n'.setKeychain (keychainService, account) (some value)) := by
  refine ⟨h.app, h.recoveryPubkey, fun a ha => ?_⟩
  have hne : a ≠ account := by
    rintro rfl
    exact haccount ha
  exact (setKeychain_other n' _ hne).trans (h.keychain a ha)

theorem Ringed.spared {master vrk : Key} {n n' : Node} (h : Ringed W master vrk n)
    (hn : Spared n n') : Ringed W master vrk n' := by
  refine ⟨?_, ?_, ?_⟩
  · rw [hn.keychain accountMasterKey (by simp)]
    exact h.item
  · rw [hn.keychain accountVrkMaster (by simp)]
    exact h.wrap
  · rw [hn.keychain accountVrkRecovery (by simp), hn.recoveryPubkey]
    exact h.recovery

/-! ### The ceremony, step by step -/

/-- The actions of one client, written down. -/
abbrev freeRules (W : World) : Rules NodeOp (Node × List (Event NodeOp)) :=
  tracedRules (nodeExec W) fun _ => True

/-- The node, and what was shown so far. -/
structure At (n : Node) (ns : List Note) (m : Node × List (Event NodeOp)) : Prop where
  node : m.1 = n
  notes : notes m.2 = ns

section Init

variable {n : Node} {ns : List Note} {m m' : Node × List (Event NodeOp)}

theorem At.move {β : Type} {op : NodeOp β} {r : β} (h : At n ns m)
    (hx : (freeRules W).moves m op r m') :
    nodeExec W op n r m'.1 ∧ At m'.1 (ns ++ (ofApp none noteOp op r).toList) m' := by
  obtain ⟨hx, -, hh⟩ := hx
  rw [h.node] at hx
  refine ⟨hx, rfl, ?_⟩
  rw [hh, notes_concat, h.notes]

theorem at_port {β : Type} {p : Port β} (h : At n ns m) {P : β → Node → Prop}
    (hP : ∀ r n', portExec W p n r n' → P r n') :
    Yields ((freeRules W).pull NodeOp.app) (call (.port p) : Handler β) m fun m' r =>
      P r m'.1 ∧ At m'.1 (ns ++ (notePort p r).toList) m' := by
  refine yields_call trivial fun r m' hx => ?_
  obtain ⟨hexec, hat⟩ := h.move hx
  exact ⟨hP r _ hexec, hat⟩

theorem at_attempt {α δ : Type} {p : Port (Except δ α)} {f : δ → AppError} (h : At n ns m)
    {P : α → Node → Prop} (hP : ∀ a n', portExec W p n (.ok a) n' → P a n') :
    Yields ((freeRules W).pull NodeOp.app) (attempt f (.port p) : Handler α) m fun m' a =>
      P a m'.1 ∧ At m'.1 (ns ++ (notePort p (.ok a)).toList) m' := by
  refine yields_attempt trivial fun a m' hx => ?_
  obtain ⟨hexec, hat⟩ := h.move hx
  exact ⟨hP a _ hexec, hat⟩

theorem store_at {account : String} {value : List UInt8} (h : At n ns m) (undo : List String)
    (haccount : account ≠ accountMasterPassphraseWrap) :
    Yields ((freeRules W).pull NodeOp.app) (storeOrUndo account value undo) m fun m' _ =>
      At (n.setKeychain (keychainService, account) (some value)) ns m' := by
  have hnote : ∀ r : Except KeychainFailure Unit,
      notePort (.keychainStore keychainService account value) r = none := by
    intro r
    cases r with
    | error e => rfl
    | ok u =>
      have hne : (keychainService, account) ≠ (keychainService, accountMasterPassphraseWrap) :=
        fun he => haccount (Prod.mk.inj he).2
      exact if_neg hne
  refine yields_bind (at_port h (P := fun r n' => r = .ok () →
    n' = n.setKeychain (keychainService, account) (some value)) ?_) ?_
  · rintro r n' (⟨-, hn⟩ | ⟨htook, -⟩) rfl
    · exact hn
    · cases htook
  rintro m' r ⟨hr, hat⟩
  rw [hnote] at hat
  cases r with
  | ok u =>
    refine yields_pure ?_
    rw [← hr rfl]
    simpa using hat
  | error e =>
    have hany : Yields ((freeRules W).pull NodeOp.app) (deleteItems undo) m' fun _ _ => True :=
      wp_of_forall (fun _ _ => trivial) fun _ _ _ _ => trivial
    exact yields_bind hany fun _ _ _ => yields_throw _

theorem orDelete_yields {α : Type} {accounts : List String} {x : Except CryptoError α}
    {P : Node × List (Event NodeOp) → α → Prop} (h : ∀ a, x = .ok a → P m a) :
    Yields ((freeRules W).pull NodeOp.app) (orDelete accounts x) m P := by
  cases x with
  | ok a => exact yields_pure (h a rfl)
  | error e =>
    have hany : Yields ((freeRules W).pull NodeOp.app) (deleteItems accounts) m fun _ _ => True :=
      wp_of_forall (fun _ _ => trivial) fun _ _ _ _ => trivial
    exact yields_bind hany fun _ _ _ => yields_throw _

/-- **The keys are stored.** -/
theorem storeKeys_yields (h : At n ns m) :
    Yields ((freeRules W).pull NodeOp.app) (storeKeys W) m fun m' keys =>
      Ringed W keys.1 keys.2.1 m'.1 ∧ m'.1.app = n.app ∧
        At m'.1 (ns ++ [.drawn keys.1, .drawn keys.2.1]) m' := by
  refine yields_bind (at_port h (P := fun _ n' => n' = n) fun _ _ hx => hx) ?_
  rintro m₁ master ⟨rfl, h₁⟩
  refine yields_bind (at_attempt h₁ (P := fun _ n' =>
    n' = m₁.1.setKeychain (keychainService, accountMasterKey) (some master.toList)) ?_) ?_
  · rintro _ n' (⟨-, hn⟩ | ⟨htook, -⟩)
    · exact hn
    · cases htook
  rintro m₂ _ ⟨hn₂, h₂⟩
  refine yields_bind (at_port h₂ (P := fun r n' => n' = m₂.1 ∧ r = m₂.1.recoveryPubkey)
    fun _ _ hx => hx) ?_
  rintro m₃ recipient ⟨⟨hn₃, rfl⟩, h₃⟩
  refine yields_bind (at_port h₃ (P := fun _ n' => n' = m₃.1) fun _ _ hx => hx) ?_
  rintro m₄ vrk ⟨hn₄, h₄⟩
  refine yields_bind (at_port h₄ (P := fun _ n' => n' = m₄.1) fun _ _ hx => hx) ?_
  rintro m₅ nonce ⟨hn₅, h₅⟩
  refine yields_bind (orDelete_yields (P := fun m' wrapped => m' = m₅ ∧
    W.aeadEncrypt master nonce vrk.toList vrkMasterAad = .ok wrapped) fun _ hw => ⟨rfl, hw⟩) ?_
  rintro m₅ wrapped ⟨rfl, hwrapped⟩
  refine yields_bind (at_port h₅ (P := fun r n' => n' = m₅.1 ∧ ∃ seed,
    r = W.ageEncrypt seed [m₂.1.recoveryPubkey] vrk.toList) fun _ _ hx => hx) ?_
  rintro m₆ encrypted ⟨⟨hn₆, seed, hage⟩, h₆⟩
  refine yields_bind (orDelete_yields (P := fun m' age => m' = m₆ ∧ encrypted = .ok age)
    fun _ ha => ⟨rfl, ha⟩) ?_
  rintro m₆ age ⟨rfl, rfl⟩
  refine yields_bind (store_at h₆ [accountMasterKey] (by decide)) fun m₇ _ h₇ => ?_
  refine yields_bind (store_at h₇ [accountMasterKey, accountVrkMaster] (by decide)) fun m₈ _ h₈ => ?_
  have hnode : m₈.1 = rewrapped W m₁.1 master nonce wrapped age := by
    rw [h₈.node, hn₆, hn₅, hn₄, hn₃, hn₂]
    rfl
  refine yields_pure ⟨?_, ?_, ?_⟩
  · rw [hnode]
    have hage' : W.ageEncrypt seed [m₁.1.recoveryPubkey] vrk.toList = .ok age := by
      rw [hage, hn₂]
      rfl
    exact ringed_rewrapped hwrapped hage'
  · rw [hnode]
    rfl
  · rw [h₈.node]
    simpa [notePort, accountMasterKey, accountMasterPassphraseWrap] using h₈

/-- **The entry is committed** under the audit key of the root key. -/
theorem recordInit_yields (h : At n ns m) (vrk : Key) :
    Yields ((freeRules W).pull NodeOp.app) (InitVaultCommand.recordInit W vrk) m fun m' _ =>
      (m'.1 = { n with app := m'.1.app } ∧ m'.1.app.identity = n.app.identity ∧
        m'.1.app.hmacKey = n.app.hmacKey) ∧
      ∃ params, params.op = .init ∧
        At m'.1 (ns ++ [.committed params (deriveAuditHmacKey W.toEnv vrk)]) m' := by
  have huuid : ∀ {m : Node × List (Event NodeOp)} {n : Node} (_ : At n ns m),
      Yields ((freeRules W).pull NodeOp.app) (call .newUuid : Handler Uuid) m fun m' _ =>
        (m'.1 = { n with app := m'.1.app } ∧ m'.1.app.identity = n.app.identity ∧
          m'.1.app.hmacKey = n.app.hmacKey) ∧ At m'.1 ns m' := by
    intro m n h
    refine yields_call trivial fun r m' hx => ?_
    obtain ⟨hexec, hat⟩ := h.move hx
    change appExec W .newUuid n r m'.1 at hexec
    have happ := (appExec_exec hexec).2
    exact ⟨⟨appExec_frame rfl hexec, by rw [happ], by rw [happ]⟩, by simpa [ofApp, noteOp] using hat⟩
  have hnamespace : Yields ((freeRules W).pull NodeOp.app) newNamespaceId m fun m' _ =>
      (m'.1 = { n with app := m'.1.app } ∧ m'.1.app.identity = n.app.identity ∧
        m'.1.app.hmacKey = n.app.hmacKey) ∧ At m'.1 ns m' :=
    yields_bind (huuid h) fun _ _ h₁ => yields_pure h₁
  refine yields_bind hnamespace ?_
  rintro m₁ namespaceId ⟨⟨hn₁, hid₁, hkey₁⟩, h₁⟩
  refine yields_bind (huuid h₁) ?_
  rintro m₂ vaultId ⟨⟨hn₂, hid₂, hkey₂⟩, h₂⟩
  refine yields_bind (P := fun m' _ => (m'.1 = { m₂.1 with app := m'.1.app } ∧
    m'.1.app.identity = m₂.1.app.identity ∧ m'.1.app.hmacKey = m₂.1.app.hmacKey) ∧
    ∃ params, params.op = .init ∧
      At m'.1 (ns ++ [.committed params (deriveAuditHmacKey W.toEnv vrk)]) m')
    (yields_attempt trivial fun r m₃ hx => ?_) ?_
  · obtain ⟨hexec, hat⟩ := h₂.move hx
    change appExec W (.auditCommit { op := .init, outcome := .allow, namespaceId := namespaceId
                                     callerProgram := agent } (deriveAuditHmacKey W.toEnv vrk))
      m₂.1 (.ok r) m₃.1 at hexec
    obtain ⟨draw, fault, hcommit⟩ := appExec_exec hexec
    obtain ⟨hid, hkey⟩ := auditCommitSection_frame hcommit
    exact ⟨⟨appExec_frame rfl hexec, hid, hkey⟩, _, rfl, hat⟩
  rintro m₃ _ ⟨⟨hn₃, hid₃, hkey₃⟩, params, hop, h₃⟩
  refine yields_pure ⟨⟨?_, ?_, ?_⟩, params, hop, h₃⟩
  · rw [hn₃, hn₂, hn₁]
  · rw [hid₃, hid₂, hid₁]
  · rw [hkey₃, hkey₂, hkey₁]

/-- How the enrollment of a passphrase ends: the wrap is stored, or it is not. -/
def EnrollEnds (W : World) (master : Key) (n : Node) (ns : List Note)
    (m' : Node × List (Event NodeOp)) : Prop :=
  ∃ extra, At m'.1 (ns ++ extra) m' ∧ Spared n m'.1 ∧ (∀ key, .drawn key ∉ extra) ∧
    (∀ params key, .committed params key ∉ extra) ∧
    ∀ passphrase, .derived passphrase ∈ extra → .wrapStored ∈ extra →
      Enrolled W m'.1.keychain passphrase master

theorem enrollEnds_none (master : Key) {n' : Node} (h : At n' ns m) (hn : Spared n n') :
    EnrollEnds W master n ns m := by
  have hat : At m.1 (ns ++ []) m := ⟨rfl, by rw [List.append_nil, h.notes]⟩
  exact ⟨[], hat, h.node ▸ hn, by simp, by simp, by simp⟩

theorem enrollEnds_derived (master : Key) {passphrase : String} {n' : Node}
    (h : At n' (ns ++ [.derived passphrase]) m) (hn : Spared n n') : EnrollEnds W master n ns m :=
  ⟨[.derived passphrase], ⟨rfl, h.notes⟩, h.node ▸ hn, by simp, by simp, by simp⟩

theorem moves_call {β : Type} {op : NodeOp β} (h : At n ns m) {Q : Node × List (Event NodeOp) →
      Except NodeError β → Prop}
    (hQ : ∀ r m', nodeExec W op n r m'.1 → At m'.1 (ns ++ (ofApp none noteOp op r).toList) m' →
      Q m' (.ok r)) : Wp (freeRules W) (call op : NodeHandler β).run m Q := by
  refine wp_call.mpr ⟨trivial, fun r m' hx => ?_⟩
  obtain ⟨hexec, hat⟩ := h.move hx
  exact hQ r m' hexec hat

theorem moves_attempt {α δ : Type} {op : NodeOp (Except δ α)} {f : δ → NodeError} (h : At n ns m)
    {Q : Node × List (Event NodeOp) → Except NodeError α → Prop}
    (hQ : ∀ r m', nodeExec W op n r m'.1 → At m'.1 (ns ++ (ofApp none noteOp op r).toList) m' →
      Q m' (r.mapError f)) : Wp (freeRules W) (attempt f op : NodeHandler α).run m Q := by
  refine wp_attempt.mpr ⟨trivial, fun r m' hx => ?_⟩
  obtain ⟨hexec, hat⟩ := h.move hx
  exact hQ r m' hexec hat

/-- **The enrollment of a passphrase**: once its wrap is stored, the passphrase is enrolled. -/
theorem enrollPassphraseFallback_ends (h : At n ns m) (master : Key) (passphrase : String) :
    Wp (freeRules W) (enrollPassphraseFallback W master passphrase).run m fun m' _ =>
      EnrollEnds W master n ns m' := by
  unfold enrollPassphraseFallback
  split_ifs with hempty
  · exact enrollEnds_none master h .refl
  refine wp_except_bind.mpr (moves_call h fun salt m₁ hx₁ h₁ => ?_)
  have hn₁ : m₁.1 = n := hx₁
  have hs₁ : Spared n m₁.1 := hn₁ ▸ .refl
  rw [show ofApp none noteOp (.vault .randomBytes16) salt = none from rfl, Option.toList_none,
    List.append_nil] at h₁
  refine wp_except_bind.mpr (moves_attempt h₁ fun r m₂ hx₂ h₂ => ?_)
  obtain ⟨hn₂, hkdf⟩ : m₂.1 = m₁.1 ∧ r = W.argon2id passphrase ⟨65536, 3, 1, salt⟩ := hx₂
  have hs₂ : Spared n m₂.1 := hn₂ ▸ hs₁
  change At m₂.1 (ns ++ [.derived passphrase]) m₂ at h₂
  cases r with
  | error e => exact enrollEnds_derived master h₂ hs₂
  | ok kdfKey =>
    refine wp_except_bind.mpr (moves_call h₂ fun nonce m₃ hx₃ h₃ => ?_)
    have hn₃ : m₃.1 = m₂.1 := hx₃
    have hs₃ : Spared n m₃.1 := hn₃ ▸ hs₂
    rw [show ofApp none noteOp (.app (.port .randomBytes24)) nonce = none from rfl,
      Option.toList_none, List.append_nil] at h₃
    refine wp_except_bind.mpr (wp_ofExcept.mpr ⟨fun ciphertext hwrap => ?_, fun e _ => ?_⟩)
    swap
    · exact enrollEnds_derived master h₃ hs₃
    refine wp_except_bind.mpr (moves_attempt h₃ fun r m₄ hx₄ h₄ => ?_)
    have h₄' : At m₄.1 (ns ++ [.derived passphrase]) m₄ := ⟨rfl, by
      rw [h₄.notes]
      cases r <;> exact List.append_nil _⟩
    have hs₄ : Spared n m₄.1 := by
      rcases hx₄ with ⟨-, hn₄⟩ | ⟨-, hn₄⟩
      · exact hn₄ ▸ hs₃.store _ (by decide)
      · exact hn₄ ▸ hs₃
    cases r with
    | error failure => exact enrollEnds_derived master h₄' hs₄
    | ok u =>
      obtain ⟨-, hn₄⟩ := hx₄.resolve_right fun h => nomatch h.1
      refine moves_attempt h₄' fun r m₅ hx₅ h₅ => ?_
      have hs₅ : Spared n m₅.1 := by
        rcases hx₅ with ⟨-, hn₅⟩ | ⟨-, hn₅⟩
        · exact hn₅ ▸ hs₄.store _ (by decide)
        · exact hn₅ ▸ hs₄
      cases r with
      | error failure =>
        have h₅' : At m₅.1 (ns ++ [.derived passphrase]) m₅ := ⟨rfl, by
          rw [h₅.notes]
          exact List.append_nil _⟩
        exact enrollEnds_derived master h₅' hs₅
      | ok u =>
        obtain ⟨-, hn₅⟩ := hx₅.resolve_right fun h => nomatch h.1
        refine ⟨[.derived passphrase, .wrapStored], ⟨rfl, ?_⟩, hs₅, by simp, by simp,
          fun passphrase' hderived _ => ?_⟩
        · rw [h₅.notes, List.append_assoc]
          rfl
        obtain rfl : passphrase' = passphrase := by simpa using hderived
        refine ⟨by simpa using hempty, _, kdfKey, nonce, ciphertext, hkdf.symm, hwrap, ?_, ?_⟩
        · rw [hn₅]
          rw [setKeychain_other _ _ (by decide), hn₄, setKeychain_same]
        · rw [hn₅, setKeychain_same]
          rfl

theorem enroll_ends (h : At n ns m) (cmd : InitVaultCommand) (master : Key) :
    Wp (freeRules W) (cmd.enroll W master).run m fun m' _ => EnrollEnds W master n ns m' := by
  have hresolve : Wp (freeRules W) cmd.resolvePassphrase.run m fun m' r =>
      (∃ passphrase, r = .ok passphrase) ∧ At n ns m' := by
    unfold InitVaultCommand.resolvePassphrase
    cases cmd.passphrase with
    | some passphrase => exact ⟨⟨_, rfl⟩, h⟩
    | none =>
      refine wp_except_bind.mpr (moves_call h fun r m' hx hat => ⟨⟨_, rfl⟩, ?_⟩)
      have hn : m'.1 = n := hx
      exact ⟨hn, by rw [hat.notes]; exact List.append_nil _⟩
  refine wp_except_bind.mpr (hresolve.mono ?_)
  rintro m₁ _ ⟨⟨passphrase, rfl⟩, h₁⟩
  cases passphrase with
  | none => exact enrollEnds_none master h₁ .refl
  | some passphrase =>
    exact wp_except_bind.mpr (wp_resultOf.mpr
      ((enrollPassphraseFallback_ends h₁ master passphrase).mono fun _ _ hends => hends))

/-- What a ceremony that returned has left, drawn and committed. -/
structure Initialized (W : World) (n n' : Node) (ns : List Note) (master vrk : Key) : Prop where
  ringed : Ringed W master vrk n'
  identity : n'.app.identity = n.app.identity
  hmacKey : n'.app.hmacKey = n.app.hmacKey
  drawn : .drawn vrk ∈ ns
  genesis : ∃ params, params.op = .init ∧ .committed params (deriveAuditHmacKey W.toEnv vrk) ∈ ns
  committed : ∀ params key, .committed params key ∈ ns → key = deriveAuditHmacKey W.toEnv vrk
  enrolled : ∀ passphrase, .derived passphrase ∈ ns → .wrapStored ∈ ns →
    Enrolled W n'.keychain passphrase master

theorem ceremony_yields (h : At n [] m) (cmd : InitVaultCommand) :
    Yields (freeRules W) (cmd.ceremony W) m fun m' _ =>
      ∃ master vrk, Initialized W n m'.1 (notes m'.2) master vrk := by
  refine wp_except_bind.mpr (moves_call h fun r m₁ hx₁ h₁ => ?_)
  change portExec W (.keychainRetrieve keychainService accountMasterKey) n r m₁.1 at hx₁
  have hn₁ : m₁.1 = n := keychainRetrieve_same hx₁
  rw [show ofApp none noteOp (.app (.port (.keychainRetrieve keychainService accountMasterKey))) r =
    none from rfl, Option.toList_none, List.append_nil, hn₁] at h₁
  match r with
  | .ok value => exact yields_throw _
  | .error .permissionDenied => exact yields_throw _
  | .error (.persistenceFailed _ _) => exact yields_throw _
  | .error (.backend _) => exact yields_throw _
  | .error .notFound =>
    refine yields_bind (yields_embedded (storeKeys_yields h₁)) ?_
    rintro m₂ ⟨master, vrk, recipient⟩ ⟨hring, happ₂, h₂⟩
    refine yields_bind (yields_embedded (recordInit_yields h₂ vrk)) ?_
    rintro m₃ vaultId ⟨⟨hn₃, hid, hkey⟩, params, hop, h₃⟩
    have hspared₃ : Ringed W master vrk m₃.1 := by
      refine ⟨?_, ?_, ?_⟩
      · rw [hn₃]
        exact hring.item
      · rw [hn₃]
        exact hring.wrap
      · rw [hn₃]
        exact hring.recovery
    refine wp_except_bind.mpr ((enroll_ends h₃ cmd master).mono ?_)
    rintro m₄ r ⟨extra, h₄, hspared, hnodraw, hnocommit, henrolled⟩
    cases r with
    | error e => exact fun _ he => nomatch he
    | ok _ =>
      refine yields_pure ⟨master, vrk, hspared₃.spared hspared, ?_, ?_, ?_, ?_, ?_, ?_⟩
      · rw [hspared.app, hid, happ₂]
      · rw [hspared.app, hkey, happ₂]
      · rw [h₄.notes]
        simp
      · rw [h₄.notes]
        exact ⟨params, hop, by simp⟩
      · intro params' key hmem
        rw [h₄.notes] at hmem
        have hcases : (params' = params ∧ key = deriveAuditHmacKey W.toEnv vrk) ∨
            .committed params' key ∈ extra := by simpa using hmem
        rcases hcases with ⟨-, hkey'⟩ | hextra
        · exact hkey'
        · exact absurd hextra (hnocommit params' key)
      · intro passphrase hderived hstored
        rw [h₄.notes] at hderived hstored
        exact henrolled passphrase (by simpa using hderived) (by simpa using hstored)

/-- **What a ceremony that returned has left**, under its lock. -/
theorem init_yields (cmd : InitVaultCommand) (n : Node) :
    Yields (freeRules W) (cmd.execute W) (n, []) fun m' _ =>
      ∃ master vrk, Initialized W n m'.1 (notes m'.2) master vrk := by
  have h₀ : At n [] (n, ([] : List (Event NodeOp))) := ⟨rfl, rfl⟩
  refine wp_except_bind.mpr (moves_call h₀ fun r m₁ hx₁ h₁ => ?_)
  obtain ⟨-, hn₁⟩ : n.initLocked = false ∧ m₁.1 = { n with initLocked := true } := hx₁
  have hceremony : Wp (freeRules W) (cmd.ceremony W).run m₁ fun m' r => ∀ reply, r = .ok reply → _ :=
    ceremony_yields h₁ cmd
  refine wp_except_bind.mpr (wp_resultOf.mpr (hceremony.mono ?_))
  intro m₂ result hresult
  refine wp_except_bind.mpr (wp_call.mpr ⟨trivial, ?_⟩)
  rintro _ m₃ ⟨hx₃, -, hh⟩
  have hn₃ : m₃.1 = { m₂.1 with initLocked := false } := hx₃
  cases result with
  | error e => exact fun _ he => nomatch he
  | ok reply =>
    obtain ⟨master, vrk, hinit⟩ := hresult reply rfl
    have hnotes : notes m₃.2 = notes m₂.2 := by
      rw [hh, notes_concat]
      exact List.append_nil _
    refine yields_pure ⟨master, vrk, ?_⟩
    rw [hnotes, hn₃]
    rw [hn₁] at hinit
    exact ⟨⟨hinit.ringed.item, hinit.ringed.wrap, hinit.ringed.recovery⟩, hinit.identity,
      hinit.hmacKey, hinit.drawn, hinit.genesis, hinit.committed, hinit.enrolled⟩

end Init

/-! ### The clients -/

variable (W)

/-- A backup for the recipients of the vault. -/
def backUp (namespaceId : NamespaceId) (outputPath : String) : NodeHandler NodeReply := do
  let (master, recovery) ← BackupScheduler.resolveDualRecipients W
  TriggerBackupCommand.execute W ⟨namespaceId, master, recovery, outputPath⟩

/-- The items of a ceremony. -/
def keyAccounts : List String :=
  [accountMasterKey, accountVrkMaster, accountVrkRecovery, accountArgon2Params,
    accountMasterPassphraseWrap]

/-- A call that leaves the items of the keys. -/
def sparesPort {β : Type} : Port β → Prop
  | .keychainStore service account _ => service = keychainService → account ∉ keyAccounts
  | .keychainDelete service account => service = keychainService → account ∉ keyAccounts
  | _ => True

/-- An action that leaves the keys. -/
def sparesOp {β : Type} : Op β → Prop
  | .port p => sparesPort p
  | .identity (.completeUnseal _) => False
  | .identity (.recover _) => False
  | .writeHmacKey key => key = none
  | _ => True

/-- An action of the agent that writes no backup. -/
def sparesVault {β : Type} : VaultOp β → Prop
  | .persistArtifact _ _ => False
  | _ => True

/-- Actions that store no key, publish none and unseal nothing. -/
def spares {β : Type} : NodeOp β → Prop
  | .app op => sparesOp op
  | .vault op => sparesVault op

/-- What runs after a ceremony: unseals by any route, seals, backups, further ceremonies, and any
other program that spares the keys. -/
inductive KeyClient : Prog NodeOp (Except NodeError NodeReply) → Prop
  | unseals (cmd : UnsealVaultCommand) : KeyClient (inReply (cmd.execute W.toEnv)).run
  | seals : KeyClient (inReply sealVaultExecute).run
  | backsUp (namespaceId : NamespaceId) (outputPath : String) :
      KeyClient (backUp W namespaceId outputPath).run
  | inits (cmd : InitVaultCommand) : KeyClient (cmd.execute W).run
  | other (p : Prog NodeOp (Except NodeError NodeReply)) (h : Only spares p) : KeyClient p

/-- A backup that was written. -/
def vaultArtifact {β : Type} : VaultOp β → β → Option (List UInt8)
  | .persistArtifact _ contents, .ok () => some contents
  | _, _ => none

/-- The artifacts that backups have written. -/
def showsArtifact {β : Type} : NodeOp β → β → Option (List UInt8)
  | .vault op, r => vaultArtifact op r
  | .app _, _ => none

/-- Any number of clients over one vault, with the artifacts that its backups have ever written. -/
def keySystem : System (Node × List (List UInt8)) NodeOp (Except NodeError NodeReply) :=
  (nodeSystem W (KeyClient W) fun n n' => n' = n.rebooted).observed showsArtifact

/-! ### What a backup carries -/

/-- The artifact holds the root key, wrapped for the recovery recipient, and is for it itself. -/
structure Carries (vrk : Key) (recoveryPubkey : String) (payload : BackupPlaintext)
    (age plaintext artifact : List UInt8) : Prop where
  wrap : payload.vrkRecoveryAge = some age
  age : ∃ seed, W.ageEncrypt seed [recoveryPubkey] vrk.toList = .ok age
  encoded : W.encodeBackup payload = .ok plaintext
  encrypted : ∃ seed recipients, String.ofList (trim recoveryPubkey.toList) ∈ recipients ∧
    W.ageEncrypt seed recipients plaintext = .ok artifact

/-- A backup that carries the root key to the recovery recipient. -/
def Carrier (vrk : Key) (recoveryPubkey : String) (artifact : List UInt8) : Prop :=
  ∃ payload age plaintext, Carries W vrk recoveryPubkey payload age plaintext artifact

variable {W}

/-- **Its recovery identity reads the root key from the artifact.** -/
theorem Carrier.backupKey (hW : W.Lawful) {vrk : Key} {recoveryPubkey : String}
    {artifact : List UInt8} (h : Carrier W vrk recoveryPubkey artifact)
    (htrim : trim recoveryPubkey.toList = recoveryPubkey.toList) {n : Node}
    {cmd : DisasterRecoverCommand} (hfile : n.files cmd.backupPath = some artifact)
    (hidentity : W.agePublic cmd.recoveryIdentity = recoveryPubkey) :
    backupKey W n cmd = some vrk := by
  obtain ⟨payload, age, plaintext, h⟩ := h
  obtain ⟨seed, hage⟩ := h.age
  obtain ⟨seed', recipients, hmem, hencrypted⟩ := h.encrypted
  rw [htrim, String.ofList_toList, ← hidentity] at hmem
  have hplain := hW.age _ _ _ _ _ hmem hencrypted
  have hvrk := hW.age _ _ _ _ cmd.recoveryIdentity (by rw [hidentity]; simp) hage
  unfold RecoveryOutcome.backupKey
  simp only [hfile, hplain, hW.backup _ _ h.encoded, h.wrap, hvrk, Except.toOption,
    Option.bind_eq_bind, Option.bind_some, keyOfSlice_toList]

/-! ### What the clients may do -/

/-- The keys of a ceremony: its items are as it left them, an unsealed vault has its root key, and a
published audit key is derived from it. -/
structure Ring (W : World) (n₁ : Node) (vrk : Key) (n : Node) : Prop where
  keychain : ∀ account ∈ keyAccounts,
    n.keychain (keychainService, account) = n₁.keychain (keychainService, account)
  recoveryPubkey : n.recoveryPubkey = n₁.recoveryPubkey
  unsealed : n.app.identity.state = .unsealed → n.app.identity.vaultRootKey = some vrk
  published : ∀ key, n.app.hmacKey = some key → key = deriveAuditHmacKey W.toEnv vrk

variable (W) (n₁ : Node) (vrk : Key)

/-- An action that keeps the keys what they are. -/
def mayTakeOp {β : Type} : Op β → Prop
  | .port p => sparesPort p
  | .identity (.completeUnseal key) => key = vrk
  | .identity (.recover _) => False
  | .writeHmacKey key => ∀ k, key = some k → k = deriveAuditHmacKey W.toEnv vrk
  | _ => True

/-- A backup that is written carries the root key. -/
def mayTakeVault {β : Type} : VaultOp β → Prop
  | .persistArtifact _ contents => Carrier W vrk n₁.recoveryPubkey contents
  | _ => True

/-- Unsealed with the root key only, its audit key published only, its items spared, and each
artifact a carrier of it. -/
def mayTake {β : Type} : NodeOp β → Prop
  | .app op => mayTakeOp W vrk op
  | .vault op => mayTakeVault W n₁ vrk op

/-- The answers are those of some node with the keys. -/
def keyKeeper : Monitor NodeOp Unit where
  init := ()
  allowed _ op := mayTake W n₁ vrk op
  expects _ op r := ∃ n n', Ring W n₁ vrk n ∧ nodeExec W op n r n'
  next _ _ _ := ()

/-- The rules alone. -/
abbrev keyRules : Rules NodeOp Unit := (keyKeeper W n₁ vrk).rules

variable {W n₁ vrk}

theorem mayTake_of_spares {β : Type} {op : NodeOp β} (h : spares op) : mayTake W n₁ vrk op := by
  cases op with
  | app op =>
    cases op with
    | port p => exact h
    | identity o =>
      cases o with
      | completeUnseal key => exact h.elim
      | recover key => exact h.elim
      | _ => trivial
    | writeHmacKey key =>
      obtain rfl : key = none := h
      exact fun _ hk => nomatch hk
    | _ => trivial
  | vault op =>
    cases op with
    | persistArtifact path contents => exact h.elim
    | _ => trivial

/-- An unsealed vault has the root key after a section of the identity lock that completes no other
unseal. -/
theorem identityOp_keeps {i : VaultIdentity} (h : i.state = .unsealed → i.vaultRootKey = some vrk)
    {β : Type} {o : IdentityOp β} (hop : mayTakeOp W vrk (.identity o)) :
    (o.apply i).2.state = .unsealed → (o.apply i).2.vaultRootKey = some vrk := by
  have hstays : ∀ {i' : VaultIdentity}, StaysOrLeaves i i' → i'.state = .unsealed →
      i'.vaultRootKey = some vrk := by
    rintro i' (rfl | hne) hu
    · exact h hu
    · exact absurd hu hne
  cases o with
  | isUnsealed => exact h
  | beginUnseal p => exact hstays (beginUnseal_staysOrLeaves p i)
  | completeUnseal key =>
    obtain rfl : key = vrk := hop
    by_cases hi : i.state = .unsealed
    · intro hu
      simp only [IdentityOp.apply] at hu ⊢
      split at hu
      · next i' hc => rw [completeUnseal_ok hc]
      · exact hstays (revertToSealed_staysOrLeaves i) hu
    · rcases completeUnseal_leaves hi key with hc | hc
      · intro _
        rw [hc]
      · exact fun hu => absurd hu hc
  | rollbackUnsealing => exact hstays (rollbackUnsealing_staysOrLeaves i)
  | sealVault => exact hstays (sealVault_staysOrLeaves i)
  | recover key => exact hop.elim

/-- Allowed calls of ports leave the items. -/
theorem portExec_items {n n' : Node} {β : Type} {p : Port β} {r : β} (hop : sparesPort p)
    (hx : portExec W p n r n') {account : String} (haccount : account ∈ keyAccounts) :
    n'.keychain (keychainService, account) = n.keychain (keychainService, account) := by
  have hupdate : ∀ (service account' : String) (value : Option (List UInt8)),
      (service = keychainService → account' ∉ keyAccounts) →
      (n.setKeychain (service, account') value).keychain (keychainService, account) =
        n.keychain (keychainService, account) := by
    intro service account' value hspares
    refine Function.update_of_ne ?_ _ _
    intro he
    obtain ⟨hservice, rfl⟩ := Prod.mk.inj he
    exact hspares hservice.symm haccount
  by_cases hp : KeychainPairing.changesKeychainPort p
  · cases p with
    | keychainStore service account' value =>
      rcases hx with ⟨-, rfl⟩ | ⟨-, rfl⟩
      · exact hupdate service account' _ hop
      · rfl
    | keychainDelete service account' =>
      rcases hx with ⟨-, rfl⟩ | ⟨-, rfl⟩
      · exact hupdate service account' _ hop
      · rfl
    | _ => exact hp.elim
  · rw [KeychainPairing.portExec_keychain hp hx]

theorem vaultExec_recoveryPubkey {n n' : Node} {β : Type} {op : VaultOp β} {r : β}
    (hx : vaultExec op n r n') : n'.recoveryPubkey = n.recoveryPubkey := by
  cases op with
  | markRestorePlanApplied id appliedAt =>
    obtain ⟨fault, hx⟩ := hx
    split at hx
    · rw [hx.2]
    · rw [hx.2]
  | putBackup backup =>
    rcases hx with ⟨-, rfl⟩ | ⟨rfl, -⟩ <;> rfl
  | persistArtifact path contents =>
    rcases hx with ⟨-, -, rfl⟩ | ⟨rfl, -⟩ <;> rfl
  | lockInit => rw [hx.2]
  | revokeUseTokens => rw [hx.2]
  | selectNamespaceRows id => rw [hx.1]
  | getRestorePlan id => rw [hx.1]
  | restorePlanAppliedAt id => rw [hx.1]
  | listBackups id => rw [hx.1]
  | _ =>
    obtain rfl : n' = _ := hx
    rfl

/-- **Allowed actions keep the keys.** -/
theorem Ring.step {n n' : Node} (h : Ring W n₁ vrk n) {β : Type} {op : NodeOp β} {r : β}
    (hop : mayTake W n₁ vrk op) (hx : nodeExec W op n r n') : Ring W n₁ vrk n' := by
  cases op with
  | vault op =>
    have hkeychain : n'.keychain = n.keychain := KeychainPairing.vaultExec_keychain hx
    have hkeys : n'.app.identity = n.app.identity ∧ n'.app.hmacKey = n.app.hmacKey := by
      rcases UseTokens.vaultExec_app hx with happ | happ
      · rw [happ]
        exact ⟨rfl, rfl⟩
      · rw [happ]
        exact ⟨rfl, rfl⟩
    refine ⟨fun account ha => ?_, (vaultExec_recoveryPubkey hx).trans h.recoveryPubkey, ?_, ?_⟩
    · rw [hkeychain]
      exact h.keychain account ha
    · rw [hkeys.1]
      exact h.unsealed
    · rw [hkeys.2]
      exact h.published
  | app op =>
    change appExec W op n r n' at hx
    by_cases hport : ∃ p : Port β, op = .port p
    · obtain ⟨p, rfl⟩ := hport
      have hframe := portExec_frame hx
      refine ⟨fun account ha => ?_, ?_, ?_, ?_⟩
      · rw [portExec_items hop hx ha]
        exact h.keychain account ha
      · rw [hframe]
        exact h.recoveryPubkey
      · rw [hframe]
        exact h.unsealed
      · rw [hframe]
        exact h.published
    have hframe : n' = { n with app := n'.app } := by
      refine appExec_frame ?_ hx
      cases op with
      | port p => exact absurd ⟨p, rfl⟩ hport
      | _ => rfl
    have hexec := appExec_exec hx
    refine ⟨fun account ha => ?_, ?_, ?_, ?_⟩
    · rw [hframe]
      exact h.keychain account ha
    · rw [hframe]
      exact h.recoveryPubkey
    · by_cases hleaves : leavesKeys op
      · rw [(exec_leavesKeys hleaves hexec).1]
        exact h.unsealed
      · cases op with
        | identity o =>
          rw [(Prod.mk.inj hexec).2]
          exact identityOp_keeps h.unsealed hop
        | writeHmacKey key =>
          rw [show n'.app = _ from hexec]
          exact h.unsealed
        | _ => exact absurd trivial hleaves
    · by_cases hleaves : leavesKeys op
      · rw [(exec_leavesKeys hleaves hexec).2]
        exact h.published
      · cases op with
        | identity o =>
          rw [(Prod.mk.inj hexec).2]
          exact h.published
        | writeHmacKey key =>
          rw [show n'.app = _ from hexec]
          exact hop
        | _ => exact absurd trivial hleaves

/-! ### The clients keep to it -/

theorem keeper_of_only {α : Type} {p : Prog NodeOp α} (hp : Only (mayTake W n₁ vrk) p) {m : Unit} :
    Wp (keyRules W n₁ vrk) p m fun _ _ => True :=
  wp_of_only (I := fun _ => True) (fun hop _ => hop) (fun _ _ _ => trivial) hp trivial

theorem keeper_yields {ε α : Type} {x : Cmd NodeOp ε α} (hx : Only (mayTake W n₁ vrk) x.run)
    {m : Unit} : Yields (keyRules W n₁ vrk) x m fun _ _ => True :=
  (keeper_of_only hx).mono fun _ _ _ _ _ => trivial

theorem keeper_context {ε α : Type} {x : Cmd Op ε α} (hx : Only (mayTakeOp W vrk) x.run) {m : Unit} :
    Yields ((keyRules W n₁ vrk).pull NodeOp.app) x m fun _ _ => True := by
  have hwp : Wp ((keyRules W n₁ vrk).pull NodeOp.app) x.run m fun _ _ => True :=
    wp_of_only (I := fun _ => True) (fun hop _ => hop) (fun _ _ _ => trivial) hx trivial
  exact hwp.mono fun _ _ _ _ _ => trivial

/-- The answer of an action is that of a node with the keys. -/
theorem keeper_answers {β : Type} {op : NodeOp β} {r : β} {m m' : Unit}
    (hx : (keyRules W n₁ vrk).moves m op r m') : ∃ n n', Ring W n₁ vrk n ∧ nodeExec W op n r n' :=
  hx.1

theorem mayTakeOp_of_reads {β : Type} {op : Op β} (h : UnsealRoutes.reads op) :
    mayTakeOp W vrk op := by
  cases op with
  | port p =>
    cases p with
    | keychainStore service account value => exact h.elim
    | keychainDelete service account => exact h.elim
    | _ => trivial
  | _ => exact h.elim

/-- An item of the ceremony is answered with, or an error that is not for want of it. -/
theorem keeper_item {account : String} {value : List UInt8} {r : Except KeychainError (List UInt8)}
    {m m' : Unit} (haccount : account ∈ keyAccounts)
    (hitem : n₁.keychain (keychainService, account) = some value)
    (hx : (keyRules W n₁ vrk).moves m (.app (.port (.keychainRetrieve keychainService account))) r m') :
    r = .ok value ∨ ∃ e, e ≠ .notFound ∧ r = .error e := by
  obtain ⟨n, n', hn, hx⟩ := keeper_answers hx
  rcases hx with ⟨-, hr⟩ | ⟨-, hr⟩
  · rw [hn.keychain account haccount, hitem] at hr
    exact .inl hr
  · exact .inr hr

/-- **An unseal fetches the root key of the ceremony**, whatever master key it unwraps with. -/
theorem fetch_kept {master : Key} (hW : W.Lawful) (hbound : KeyBound W)
    (hring : Ringed W master vrk n₁) (route : Option String) {m : Unit} :
    Yields ((keyRules W n₁ vrk).pull NodeOp.app) (fetchKeyMaterial W.toEnv route) m fun _ result =>
      result.1 = vrk ∧ result.2.1 = deriveAuditHmacKey W.toEnv vrk := by
  refine yields_bind (keeper_context ((only_loadMasterKey W.toEnv route).mono mayTakeOp_of_reads)) ?_
  rintro m₁ ⟨master', method⟩ -
  refine yields_bind (yields_attempt trivial fun blob m₂ hx => ?_)
    (P := fun _ blob => n₁.keychain (keychainService, accountVrkMaster) = some blob) ?_
  · obtain ⟨nonce, wrapped, -, hitem⟩ := hring.wrap
    rcases keeper_item (by simp [keyAccounts]) hitem hx with hr | ⟨e, -, hr⟩
    · rw [hitem, Except.ok.inj hr]
    · cases hr
  intro m₂ blob hblob
  refine opened_yields fun bytes hopens => ?_
  refine yields_bind (yields_orThrow fun key hkey => hring.opens hW hbound hblob (hopens key hkey))
    (P := fun _ key => key = vrk) ?_
  rintro m₃ key rfl
  exact yields_pure ⟨rfl, rfl⟩

theorem only_auditCommit {params : AppendParams} {key : Key} :
    Only (mayTakeOp W vrk) (auditCommit params key).run :=
  only_attempt trivial

theorem only_newNamespaceId : Only (mayTakeOp W vrk) newNamespaceId.run :=
  only_except_bind (only_call trivial) fun _ => only_pure _

/-- The end of an unseal with the root key. -/
theorem only_commitUnseal {hmacKey : Key} (hkey : hmacKey = deriveAuditHmacKey W.toEnv vrk) :
    Only (mayTakeOp W vrk) (commitUnseal vrk hmacKey).run := by
  have hpublish : mayTakeOp W vrk (.writeHmacKey (some hmacKey)) := by
    rintro _ ⟨⟩
    exact hkey
  refine only_except_bind (only_call hpublish) fun _ => ?_
  refine only_except_bind (only_call rfl) fun r => ?_
  cases r with
  | ok _ => exact only_pure _
  | error e => exact only_except_bind (only_call fun _ hk => nomatch hk) fun _ => only_throw _

theorem unseal_kept {master : Key} (hW : W.Lawful) (hbound : KeyBound W)
    (hring : Ringed W master vrk n₁) (cmd : UnsealVaultCommand) :
    Yields ((keyRules W n₁ vrk).pull NodeOp.app) (cmd.execute W.toEnv) () fun _ _ => True := by
  have hbegin : mayTakeOp W vrk (.identity (.beginUnseal cmd.preconditions)) := trivial
  refine yields_bind (keeper_context (only_attempt hbegin)) fun m₁ already _ => ?_
  cases already with
  | true => exact yields_pure trivial
  | false =>
    have hfetch : Wp _ (fetchKeyMaterial W.toEnv cmd.passphrase).run m₁ fun _ r => ∀ result,
        r = .ok result → _ := fetch_kept hW hbound hring cmd.passphrase
    refine wp_except_bind.mpr (wp_resultOf.mpr (hfetch.mono ?_))
    intro m₂ r hr
    cases r with
    | error e =>
      refine yields_bind (keeper_context ?_) fun _ _ _ => yields_throw _
      exact only_except_bind (only_call trivial) fun _ => only_call fun _ hk => nomatch hk
    | ok result =>
      obtain ⟨key, hmacKey, method⟩ := result
      obtain ⟨rfl, hkey⟩ := hr _ rfl
      refine yields_bind (keeper_context (only_commitUnseal hkey)) fun _ _ _ => ?_
      refine yields_bind (keeper_context only_newNamespaceId) fun _ ns _ => ?_
      exact yields_bind (keeper_context only_auditCommit) fun _ _ _ => yields_pure trivial

theorem only_requireUnsealed : Only (mayTakeOp W vrk) requireUnsealed.run := by
  refine only_except_bind (only_call trivial) fun unsealed => ?_
  split_ifs
  · exact only_pure _
  · exact only_throw _

theorem only_sealVault : Only (mayTakeOp W vrk) sealVaultExecute.run := by
  have haudit : ∀ key : Option Key, Only (mayTakeOp W vrk) (auditSeal key).run := by
    intro key
    cases key with
    | none => exact only_pure _
    | some key =>
      refine only_except_bind only_newNamespaceId fun ns => ?_
      exact only_except_bind (only_resultOf only_auditCommit) fun _ => only_pure _
  refine only_except_bind only_requireUnsealed fun _ => ?_
  refine only_except_bind (only_call trivial) fun key => ?_
  refine only_except_bind (haudit key) fun _ => ?_
  refine only_except_bind (only_call fun _ hk => nomatch hk) fun _ => ?_
  refine only_except_bind (only_attempt trivial) fun pinned => ?_
  refine only_except_bind (only_call trivial) fun _ => ?_
  exact only_except_bind (only_attempt trivial) fun _ => only_pure _

theorem only_listSecrets (id : NamespaceId) : Only (mayTake W n₁ vrk) (listSecrets id).run := by
  have hload : ∀ rows : List Sqlite.Tables.SecretRow,
      Only (mayTakeOp W vrk) (loadSecrets rows).run := by
    intro rows
    induction rows with
    | nil => exact only_pure _
    | cons row rows ih =>
      exact only_except_bind (only_attempt trivial) fun _ => only_except_bind ih fun _ => only_pure _
  exact only_except_bind (only_attempt trivial) fun rows => only_embedded (hload rows)

theorem only_ensureMasterRecipient : Only (mayTake W n₁ vrk) (ensureMasterRecipient W).run := by
  have hstores : ∀ account, account ∉ keyAccounts → ∀ value,
      mayTake W n₁ vrk (.app (.port (.keychainStore keychainService account value))) :=
    fun _ haccount _ _ => haccount
  refine only_except_bind (only_call trivial) fun r => ?_
  match r with
  | .ok bytes =>
    refine only_except_bind (only_ofExcept _ _) fun text => ?_
    dsimp only
    split_ifs
    · exact only_throw _
    · exact only_pure _
  | .error .notFound =>
    refine only_except_bind (only_call trivial) fun identity => ?_
    refine only_except_bind (only_attempt (hstores _ (by decide) _)) fun _ => ?_
    exact only_except_bind (only_attempt (hstores _ (by decide) _)) fun _ => only_pure _
  | .error .permissionDenied => exact only_throw _
  | .error (.persistenceFailed _ _) => exact only_throw _
  | .error (.backend _) => exact only_throw _

/-- The recovery recipient of a backup is that of the vault, without the space around it. -/
theorem resolve_kept {m : Unit} :
    Yields (keyRules W n₁ vrk) (BackupScheduler.resolveDualRecipients W) m fun _ pair =>
      pair.2 = String.ofList (trim n₁.recoveryPubkey.toList) := by
  have hrecovery : Yields (keyRules W n₁ vrk) BackupScheduler.recoveryRecipient m fun _ recovery =>
      recovery = String.ofList (trim n₁.recoveryPubkey.toList) := by
    refine yields_bind (yields_call trivial fun r m' hx => ?_)
      (P := fun _ recovery => recovery = n₁.recoveryPubkey) ?_
    · obtain ⟨n, n', hn, hx⟩ := keeper_answers hx
      exact hx.2.trans hn.recoveryPubkey
    rintro m' recovery rfl
    dsimp only
    split_ifs
    · exact yields_throw _
    · exact yields_pure rfl
  refine yields_bind hrecovery fun m₁ recovery hrec => ?_
  refine yields_bind (keeper_yields only_ensureMasterRecipient) fun m₂ master _ => ?_
  split_ifs
  · exact yields_throw _
  · exact yields_pure hrec

/-- **A backup carries the wrap of the root key** for the recovery recipient. -/
theorem recoveryWrap_kept {master : Key} (hW : W.Lawful) (hring : Ringed W master vrk n₁) {m : Unit} :
    Yields (keyRules W n₁ vrk) (TriggerBackupCommand.recoveryWrap W) m fun _ wrap =>
      ∃ seed age, W.ageEncrypt seed [n₁.recoveryPubkey] vrk.toList = .ok age ∧ wrap = some age := by
  obtain ⟨seed, age, hage, hitem⟩ := hring.recovery
  refine yields_bind (yields_call trivial fun r m' hx => keeper_item (by simp [keyAccounts]) hitem hx)
    (P := fun _ r => r = .ok (W.base64Encode age) ∨ ∃ e, e ≠ .notFound ∧ r = .error e) ?_
  rintro m' r (rfl | ⟨e, he, rfl⟩)
  · refine yields_bind (yields_ofExcept fun age' hdecoded => ?_) (P := fun _ age' => age' = age) ?_
    · exact (Except.ok.inj ((hW.base64 age).symm.trans hdecoded)).symm
    rintro m'' _ rfl
    exact yields_pure ⟨seed, _, hage, rfl⟩
  · cases e with
    | notFound => exact absurd rfl he
    | permissionDenied => exact yields_throw _
    | persistenceFailed item detail => exact yields_throw _
    | backend detail => exact yields_throw _

theorem only_requireHmacKey : Only (mayTake W n₁ vrk) (runInContext requireHmacKey).run :=
  only_embedded (only_except_bind (only_call trivial) fun _ => only_orThrow _ _)

theorem only_persist (cmd : TriggerBackupCommand) (count : UInt32) {ciphertext : List UInt8}
    (h : Carrier W vrk n₁.recoveryPubkey ciphertext) :
    Only (mayTake W n₁ vrk) (TriggerBackupCommand.persist W cmd count ciphertext).run := by
  have hartifact : mayTake W n₁ vrk (.vault (.persistArtifact cmd.outputPath ciphertext)) := h
  refine only_except_bind only_requireHmacKey fun key => ?_
  split_ifs
  · exact only_throw _
  refine only_except_bind (only_attempt hartifact) fun _ => ?_
  refine only_except_bind (only_call trivial) fun snapshotId => ?_
  refine only_except_bind (only_call trivial) fun createdAt => ?_
  refine only_except_bind (only_call trivial) fun id => ?_
  refine only_except_bind (only_call trivial) fun r => ?_
  cases r with
  | error e => exact only_except_bind (only_call trivial) fun _ => only_throw _
  | ok _ => exact only_except_bind (only_embedded (only_attempt trivial)) fun _ => only_pure _

theorem backUp_kept {master : Key} (hW : W.Lawful) (hring : Ringed W master vrk n₁)
    (namespaceId : NamespaceId) (outputPath : String) :
    Yields (keyRules W n₁ vrk) (backUp W namespaceId outputPath) () fun _ _ => True := by
  refine yields_bind resolve_kept ?_
  rintro m₁ ⟨masterRecipient, recovery⟩ hrecovery
  obtain rfl : recovery = _ := hrecovery
  refine yields_bind (keeper_yields (only_embedded only_requireUnsealed)) fun m₂ _ _ => ?_
  split_ifs
  · exact yields_throw _
  · exact yields_throw _
  refine yields_bind (keeper_yields (only_listSecrets namespaceId)) fun m₃ secrets _ => ?_
  split_ifs
  · exact yields_throw _
  · exact yields_throw _
  refine yields_bind (recoveryWrap_kept hW hring) ?_
  rintro m₄ _ ⟨seed, age, hage, rfl⟩
  refine yields_bind (yields_ofExcept fun plaintext hplain => hplain)
    (P := fun _ plaintext => W.encodeBackup ⟨some age, secrets⟩ = .ok plaintext) ?_
  intro m₅ plaintext hplain
  refine yields_bind (yields_attempt trivial fun ciphertext m₆ hx => ?_)
    (P := fun _ ciphertext => Carrier W vrk n₁.recoveryPubkey ciphertext) ?_
  · obtain ⟨n, n', -, hx⟩ := keeper_answers hx
    obtain ⟨-, seed', hcipher⟩ := hx
    exact ⟨⟨some age, secrets⟩, age, plaintext, rfl, ⟨seed, hage⟩, hplain, seed', _, by simp,
      hcipher.symm⟩
  · exact fun m₆ ciphertext hcarrier => keeper_yields (only_persist _ _ hcarrier)

/-- A ceremony ends at its probe: the master key is there. -/
theorem init_kept {master : Key} (hring : Ringed W master vrk n₁) (cmd : InitVaultCommand) :
    Yields (keyRules W n₁ vrk) (cmd.execute W) () fun _ _ => True := by
  have hceremony : Yields (keyRules W n₁ vrk) (cmd.ceremony W) () fun _ _ => True := by
    refine yields_bind (yields_call trivial fun r m' hx =>
      keeper_item (by simp [keyAccounts]) hring.item hx)
      (P := fun _ r => r = .ok master.toList ∨ ∃ e, e ≠ .notFound ∧ r = .error e) ?_
    rintro m' r (rfl | ⟨e, he, rfl⟩)
    · exact yields_throw _
    · cases e with
      | notFound => exact absurd rfl he
      | permissionDenied => exact yields_throw _
      | persistenceFailed item detail => exact yields_throw _
      | backend detail => exact yields_throw _
  have hlock : mayTake W n₁ vrk (.vault .lockInit) := trivial
  have hunlock : mayTake W n₁ vrk (.vault .unlockInit) := trivial
  refine yields_bind (keeper_yields (only_call hlock)) fun m₁ _ _ => ?_
  have hwp : Wp (keyRules W n₁ vrk) (cmd.ceremony W).run m₁ fun _ _ => True :=
    Wp.mono (fun _ _ _ => trivial) hceremony
  refine wp_except_bind.mpr (wp_resultOf.mpr (hwp.mono fun m₂ r _ => ?_))
  exact yields_bind (keeper_yields (only_call hunlock)) fun _ _ _ =>
    keeper_yields (only_ofExcept _ _)

theorem client_kept {master : Key} (hW : W.Lawful) (hbound : KeyBound W)
    (hring : Ringed W master vrk n₁) {p : Prog NodeOp (Except NodeError NodeReply)}
    (hp : KeyClient W p) : Wp (keyRules W n₁ vrk) p () fun _ _ => True := by
  cases hp with
  | unseals cmd =>
    have hyields : Yields (keyRules W n₁ vrk) (inReply (cmd.execute W.toEnv)) () fun _ _ => True :=
      yields_bind (yields_embedded (unseal_kept hW hbound hring cmd)) fun _ _ _ => yields_pure trivial
    exact Wp.mono (fun _ _ _ => trivial) hyields
  | seals =>
    exact keeper_of_only (only_except_bind (only_embedded only_sealVault) fun _ => only_pure _)
  | backsUp namespaceId outputPath =>
    exact Wp.mono (fun _ _ _ => trivial) (backUp_kept hW hring namespaceId outputPath)
  | inits cmd => exact Wp.mono (fun _ _ _ => trivial) (init_kept hring cmd)
  | other p h => exact keeper_of_only (h.mono mayTake_of_spares)

/-- **The keys are kept** in every interleaving of the clients, and each artifact carries them. -/
theorem ring_of_reachable {master : Key} (hW : W.Lawful) (hbound : KeyBound W)
    (hring : Ringed W master vrk n₁) (h₀ : Ring W n₁ vrk n₁)
    {c : Config (Node × List (List UInt8)) NodeOp (Except NodeError NodeReply)}
    (h : Reachable (keySystem W) unguarded (n₁, []) c) :
    Ring W n₁ vrk c.state.1 ∧ ∀ artifact ∈ c.state.2, Carrier W vrk n₁.recoveryPubkey artifact := by
  let I : Node × List (List UInt8) → List Unit → Prop := fun s _ => Ring W n₁ vrk s.1 ∧
    ∀ artifact ∈ s.2, Carrier W vrk n₁.recoveryPubkey artifact
  have hstart : I (n₁, []) [] := ⟨h₀, fun _ ha => absurd ha List.not_mem_nil⟩
  refine (h.rule (keyKeeper W n₁ vrk) (fun _ _ _ => True) I hstart
    (fun p hp => client_kept hW hbound hring hp) (fun hI => hI) ?_ ?_).1
  · rintro β op hist s s' r ms i ⟨hI, hcarriers⟩ - hop ⟨hx, hs'⟩ -
    refine ⟨⟨s.1, s'.1, hI, hx⟩, hI.step hop hx, ?_⟩
    intro artifact hmem
    rw [hs'] at hmem
    rcases List.mem_append.mp hmem with hmem | hmem
    · exact hcarriers artifact hmem
    · cases op with
      | app op => cases hmem
      | vault op =>
        cases op with
        | persistArtifact path contents =>
          cases r with
          | error e => cases hmem
          | ok u =>
            obtain rfl := List.mem_singleton.mp hmem
            exact hop
        | _ => cases hmem
  · rintro s s' ms ⟨hI, hcarriers⟩ ⟨hs, hs'⟩
    refine ⟨?_, by rw [hs']; exact hcarriers⟩
    rw [hs]
    exact ⟨hI.keychain, hI.recoveryPubkey, fun hu => (nomatch hu), fun _ hk => nomatch hk⟩

/-! ### Recovery from an artifact -/

/-- **A recovery that returns** has unsealed the vault with the root key of its backup, and wrapped it
for the unseals to come. -/
theorem recover_yields (hW : W.Lawful) {n : Node} (cmd : DisasterRecoverCommand) :
    Yields (contextRules W) (cmd.execute W.toEnv) n fun n' _ => ∃ vrk, backupKey W n cmd = some vrk ∧
      n'.app.identity = ⟨.unsealed, some vrk⟩ ∧
      n'.app.hmacKey = some (deriveAuditHmacKey W.toEnv vrk) ∧
      rootKey W n'.keychain none = some vrk := by
  unfold DisasterRecoverCommand.execute
  split_ifs with hidentity hpath
  · exact yields_throw _
  · exact yields_throw _
  refine yields_bind (yields_context fun _ n' hx => hx.1) (P := fun n' _ => n' = n) ?_
  rintro n storedPubkey rfl
  refine yields_bind (recoveryIdentityMatches_yields _ _) ?_
  rintro n matched rfl
  cases matched with
  | false => exact yields_bind (yields_anyContext _) fun _ _ _ => yields_throw _
  | true =>
    refine yields_bind (readBackup_yields cmd) ?_
    rintro n ⟨vrk, secrets⟩ ⟨rfl, ciphertext, payload, hfrom⟩
    have hkey := backupKey_of_readFrom hfrom
    refine yields_bind (rewrap_yields vrk storedPubkey) ?_
    rintro n₁ _ ⟨master, nonce, wrapped, forRecovery, seed, hn₁, hwrapped, hage⟩
    have hroot : rootKey W n₁.keychain none = some vrk := by
      rw [hn₁]
      refine rootKey_keychain hW ?_ ?_ hwrapped
      · rw [rewrapped, setKeychain_other _ _ (by decide), setKeychain_other _ _ (by decide),
          setKeychain_same]
      · rw [rewrapped, setKeychain_other _ _ (by decide), setKeychain_same]
        rfl
    have hrehydrated : Wp (contextRules W) (rehydrate secrets 0).run n₁ fun n₂ _ =>
        n₂.keychain = n₁.keychain :=
      wp_of_only (fun _ _ => trivial) (fun hop hm hx => (apart_same hop hx).1.trans hm)
        ((only_rehydrate secrets 0).mono apart_of_records) rfl
    refine wp_except_bind.mpr (hrehydrated.mono ?_)
    intro n₂ r hn₂
    cases r with
    | error e => exact fun _ he => nomatch he
    | ok restored =>
      refine yields_bind (yields_context fun _ n₃ hx => ?_) (P := fun n₃ _ =>
        n₃.keychain = n₂.keychain ∧ n₃.app.hmacKey = some (deriveAuditHmacKey W.toEnv vrk)) ?_
      · have hexec : n₃.app = _ := appExec_exec hx
        rw [appExec_frame rfl hx, hexec]
        exact ⟨rfl, rfl⟩
      rintro n₃ _ ⟨hk₃, hkey₃⟩
      refine yields_bind (yields_attemptContext fun _ n₄ hx => ?_) (P := fun n₄ _ =>
        n₄.keychain = n₃.keychain ∧ n₄.app.hmacKey = n₃.app.hmacKey ∧
          n₄.app.identity = ⟨.unsealed, some vrk⟩) ?_
      · obtain ⟨hok, happ⟩ := Prod.mk.inj (appExec_exec hx)
        rw [appExec_frame rfl hx, happ]
        refine ⟨rfl, rfl, ?_⟩
        change (.ok _ : Except Identity.DomainError Unit) = (recoverIdentity n₃.app.identity vrk).1 at hok
        rcases recoverIdentity_cases n₃.app.identity vrk with ⟨-, hi⟩ | ⟨hno, -⟩
        · exact hi
        · rw [← hok] at hno
          cases hno
      rintro n₄ _ ⟨hk₄, hkey₄, hid₄⟩
      have hsame : ∀ {α : Type} {op : Op α} {n n' : Node} {r : α}, appExec W op n r n' →
          isPort op = false → leavesKeys op → n'.keychain = n.keychain ∧
            n'.app.identity = n.app.identity ∧ n'.app.hmacKey = n.app.hmacKey := by
        intro α op n n' r hx hport hop
        refine ⟨by rw [appExec_frame hport hx], exec_leavesKeys hop (appExec_exec hx)⟩
      have hns : Yields (contextRules W) newNamespaceId n₄ fun n₅ _ => n₅.keychain = n₄.keychain ∧
          n₅.app.identity = n₄.app.identity ∧ n₅.app.hmacKey = n₄.app.hmacKey :=
        yields_bind (yields_context fun _ _ hx => hsame hx rfl trivial) fun _ _ h => yields_pure h
      refine yields_bind hns ?_
      rintro n₅ ns ⟨hk₅, hid₅, hkey₅⟩
      refine yields_bind (yields_attemptContext fun _ _ hx => hsame hx rfl trivial)
        (P := fun n₆ _ => n₆.keychain = n₅.keychain ∧ n₆.app.identity = n₅.app.identity ∧
          n₆.app.hmacKey = n₅.app.hmacKey) ?_
      rintro n₆ _ ⟨hk₆, hid₆, hkey₆⟩
      refine yields_pure ⟨vrk, hkey, ?_, ?_, ?_⟩
      · rw [hid₆, hid₅, hid₄]
      · rw [hkey₆, hkey₅, hkey₄, hkey₃]
      · rw [hk₆, hk₅, hk₄, hk₃, hn₂, hroot]

/-! ### Agreement -/

/-- What a keychain yields is in the items of a ceremony. -/
theorem rootKey_items {K K' : Keychain}
    (h : ∀ account ∈ keyAccounts, K' (keychainService, account) = K (keychainService, account))
    (route : Option String) : rootKey W K' route = rootKey W K route := by
  have hmaster := h accountMasterKey (by simp [keyAccounts])
  have hwrap := h accountVrkMaster (by simp [keyAccounts])
  have hparams := h accountArgon2Params (by simp [keyAccounts])
  have hpassphrase := h accountMasterPassphraseWrap (by simp [keyAccounts])
  have hkey : masterKey W K' route = masterKey W K route := by
    cases route with
    | none =>
      unfold masterKey
      rw [hmaster]
    | some passphrase =>
      unfold masterKey passphraseMaster
      rw [hparams, hpassphrase]
  unfold rootKey
  rw [hkey, hwrap]

/-- What the routes yield in a state, with the artifacts that were written on the way to it. -/
structure Agrees (W : World) (vrk : Key) (recoveryPubkey : String) (enrolled : String → Prop)
    (s : Node × List (List UInt8)) : Prop where
  unsealed : s.1.app.identity.state = .unsealed → s.1.app.identity.vaultRootKey = some vrk
  published : ∀ key, s.1.app.hmacKey = some key → key = deriveAuditHmacKey W.toEnv vrk
  /-- A sealed vault is unsealed, through the keychain or an enrolled passphrase, with the root key
  and with no other. -/
  unseals : s.1.app.identity = ⟨.sealed, none⟩ → ∀ cmd : UnsealVaultCommand,
    cmd.preconditions.validate = .ok () →
    (∀ passphrase, cmd.passphrase = some passphrase → enrolled passphrase) →
    ∀ key, Unseals W s.1 cmd key ↔ key = vrk
  /-- From a file with one of the artifacts, wherever it is, the recovery identity reads the root key,
  and a recovery that returns has unsealed with it. -/
  recovers : trim recoveryPubkey.toList = recoveryPubkey.toList → ∀ artifact ∈ s.2,
    ∀ (n : Node) (cmd : DisasterRecoverCommand), n.files cmd.backupPath = some artifact →
    W.agePublic cmd.recoveryIdentity = recoveryPubkey → backupKey W n cmd = some vrk ∧
    ∀ hist reply n', Runs (appExec W) (cmd.execute W.toEnv).run n hist (.ok reply) n' →
      n'.app.identity = ⟨.unsealed, some vrk⟩ ∧
      n'.app.hmacKey = some (deriveAuditHmacKey W.toEnv vrk) ∧ rootKey W n'.keychain none = some vrk

/-- **The three routes agree.**  After an init ceremony that returned on a vault that was not
unsealed, and in every interleaving of unseals by any route, seals, backups, further ceremonies,
restarts and whatever spares the keys: the root key that the ceremony drew, under whose audit key it
committed its entry, is the one that an unsealed vault has, that the keychain and each enrolled
passphrase unseal with, and that the recovery identity reads from every backup made on the way. -/
theorem routes_agree (W : World) (hW : W.Lawful) (hbound : KeyBound W) (cmd : InitVaultCommand)
    (n n₁ : Node) (hist : List (Event NodeOp)) (reply : NodeReply)
    (hinit : Runs (nodeExec W) (cmd.execute W).run n hist (.ok reply) n₁)
    (hsealed : n.app.identity.state ≠ .unsealed) (hkeyless : n.app.hmacKey = none) :
    ∃ vrk, .drawn vrk ∈ notes hist ∧
      (∃ params, params.op = .init ∧ .committed params (deriveAuditHmacKey W.toEnv vrk) ∈ notes hist) ∧
      ∀ c, Reachable (keySystem W) unguarded (n₁, []) c →
        Agrees W vrk n₁.recoveryPubkey (Enrolls hist) c.state := by
  obtain ⟨master, vrk, hinitialized⟩ : ∃ master vrk, Initialized W n n₁ (notes hist) master vrk :=
    wp_traced_runs (init_yields cmd n) hinit (fun _ _ => trivial) reply rfl
  have hring := hinitialized.ringed
  have h₀ : Ring W n₁ vrk n₁ := by
    refine ⟨fun _ _ => rfl, rfl, ?_, ?_⟩
    · rw [hinitialized.identity]
      exact fun hu => absurd hu hsealed
    · rw [hinitialized.hmacKey, hkeyless]
      exact fun _ hk => nomatch hk
  refine ⟨vrk, hinitialized.drawn, hinitialized.genesis, fun c hc => ?_⟩
  obtain ⟨hkept, hcarriers⟩ := ring_of_reachable hW hbound hring h₀ hc
  refine ⟨hkept.unsealed, hkept.published, ?_, ?_⟩
  · intro hid request hpre henrolled key
    have hroot : rootKey W c.state.1.keychain request.passphrase = some vrk := by
      rw [rootKey_items hkept.keychain]
      cases hroute : request.passphrase with
      | none => exact hring.rootKey hW
      | some passphrase =>
        obtain ⟨hderived, hstored⟩ := henrolled passphrase hroute
        rw [rootKey_passphrase hW hring.item (hinitialized.enrolled passphrase hderived hstored)]
        exact hring.rootKey hW
    rw [unseals_iff request hid hpre key, hroot, Option.some.injEq]
    exact eq_comm
  · intro htrim artifact hmem m recover hfile hidentity
    have hkey := (hcarriers artifact hmem).backupKey hW htrim hfile hidentity
    refine ⟨hkey, fun hist reply m' hrun => ?_⟩
    have hrecover : Wp (execRules (appExec W)) (recover.execute W.toEnv).run m fun _ r => ∀ reply,
        r = .ok reply → _ := recover_yields hW recover
    obtain ⟨vrk', hkey', hid, hpublished, hroot⟩ := wp_runs hrecover hrun reply rfl
    obtain rfl := Option.some.inj (hkey.symm.trans hkey')
    exact ⟨hid, hpublished, hroot⟩

/-! ### A ceremony with a passphrase -/

/-- An init with a passphrase. -/
def sampleEnrolling : InitVaultCommand := ⟨some "p"⟩

/-- The keys of the ceremony with those of the passphrase. -/
def sampleEnrolled : Node :=
  (sampleKeyed.setKeychain (keychainService, accountArgon2Params)
    (some (sampleParams ⟨65536, 3, 1, Vector.replicate 16 0⟩))).setKeychain
    (keychainService, accountMasterPassphraseWrap) (some (List.replicate 24 0 ++
      (List.replicate 32 0 ++ sampleKey.toList ++ List.replicate 16 0)))

/-- A ceremony on a new machine that enrolls a passphrase. -/
theorem sampleEnrolling_runs : ∃ s hist, Runs (nodeExec (sampleWorld sampleWrapped))
    (sampleEnrolling.execute (sampleWorld sampleWrapped)).run sampleNewMachine hist
    (.ok (.initialized (sampleUuid 2) "age1r" keychainRef)) { sampleEnrolled with app := s } ∧
    Enrolls hist "p" := by
  obtain ⟨s, hx, -⟩ := first_commit (sampleWorld sampleWrapped).toCrates sampleInitEntry
    (deriveAuditHmacKey (sampleWorld sampleWrapped).toEnv sampleKey) (sampleCall 1).draw sampleDrawn rfl
  let m := { sampleNewMachine with initLocked := true }
  let m₁ := m.setKeychain (keychainService, accountMasterKey) (some sampleKey.toList)
  let m₂ := m₁.setKeychain (keychainService, accountVrkMaster) (some sampleWrappedKey)
  let m₃ := m₂.setKeychain (keychainService, accountVrkRecovery) (some sampleKey.toList)
  let s₁ : AppState := { sampleNewMachine.app with issued := [sampleUuid 1] }
  let m₄ : Node := { m₃ with app := s }
  let m₅ := m₄.setKeychain (keychainService, accountArgon2Params)
    (some (sampleParams ⟨65536, 3, 1, Vector.replicate 16 0⟩))
  let m₆ := m₅.setKeychain (keychainService, accountMasterPassphraseWrap)
    (some (List.replicate 24 0 ++ (List.replicate 32 0 ++ sampleKey.toList ++ List.replicate 16 0)))
  refine ⟨s, ?_⟩
  refine exists_runs_act_with rfl () m ⟨rfl, rfl⟩ ?_
  refine exists_runs_act_with rfl (.error .notFound) m (.inl ⟨rfl, rfl⟩) ?_
  refine exists_runs_act_with rfl sampleKey m rfl ?_
  refine exists_runs_act_with rfl (.ok ()) m₁ (.inl ⟨rfl, rfl⟩) ?_
  refine exists_runs_act_with rfl "age1r" m₁ ⟨rfl, rfl⟩ ?_
  refine exists_runs_act_with rfl sampleKey m₁ rfl ?_
  refine exists_runs_act_with rfl (Vector.replicate 24 0) m₁ rfl ?_
  refine exists_runs_act_with rfl (.ok sampleKey.toList) m₁ ⟨rfl, 0, rfl⟩ ?_
  refine exists_runs_act_with rfl (.ok ()) m₂ (.inl ⟨rfl, rfl⟩) ?_
  refine exists_runs_act_with rfl (.ok ()) m₃ (.inl ⟨rfl, rfl⟩) ?_
  refine exists_runs_act_with rfl (sampleUuid 1) { m₃ with app := s₁ } ⟨⟨by decide, rfl⟩, rfl⟩ ?_
  refine exists_runs_act_with rfl (sampleUuid 2) { m₃ with app := sampleDrawn }
    ⟨⟨by decide, rfl⟩, rfl⟩ ?_
  refine exists_runs_act_with rfl (.ok ()) m₄ ⟨⟨_, _, hx⟩, rfl⟩ ?_
  refine exists_runs_act_with rfl (Vector.replicate 16 0) m₄ rfl ?_
  refine exists_runs_act_with rfl (.ok (Vector.replicate 32 0)) m₄ ⟨rfl, by rfl⟩ ?_
  refine exists_runs_act_with rfl (Vector.replicate 24 0) m₄ rfl ?_
  refine exists_runs_act_with rfl (.ok ()) m₅ (.inl ⟨rfl, rfl⟩) ?_
  refine exists_runs_act_with rfl (.ok ()) m₆ (.inl ⟨rfl, rfl⟩) ?_
  refine exists_runs_act_with rfl () { sampleEnrolled with app := s } rfl ?_
  exact exists_runs_ret_with rfl ⟨by decide, by decide⟩

/-- The ceremony with a passphrase, and every run after it. -/
theorem enrolled_routes_agree : ∃ s hist vrk, Enrolls hist "p" ∧
    ∀ c, Reachable (keySystem (sampleWorld sampleWrapped)) unguarded
      ({ sampleEnrolled with app := s }, []) c →
      Agrees (sampleWorld sampleWrapped) vrk "age1r" (Enrolls hist) c.state := by
  obtain ⟨s, hist, hrun, henrolls⟩ := sampleEnrolling_runs
  obtain ⟨vrk, -, -, hagrees⟩ := routes_agree _ (sampleWorld_lawful _) (sampleWorld_keyBound _)
    sampleEnrolling _ _ hist _ hrun (by decide) rfl
  exact ⟨s, hist, vrk, henrolls, hagrees⟩

end MerkleVault.App.KeyAgreement
