import MerkleVault.App.BackupKeys
import MerkleVault.App.RecoveryOutcome

/-! # The Pairing of the Master Key and the Wrapped Root Key

An init and a disaster recovery each store a fresh master key and then the root key wrapped under it.
Inits are serialized by a lock; recoveries take none, so that the two stores of one ceremony may have
those of another between them.

* `rewrap_conforms`, `storeKeys_conforms`: what a ceremony owes from its first store to its end;
* `Kept.step`: a stored pair opens, or a ceremony is still to wrap the master key that is stored;
* `pair_opens`: runs in which the wrapped key is only stored over a master key that is still to be
  wrapped, or over none. -/

namespace MerkleVault.App.KeychainPairing

open MerkleVault.Types MerkleVault.External MerkleVault.Lib.Program MerkleVault.App.Context
open MerkleVault.App.Lifecycle MerkleVault.App.Host MerkleVault.App.Restore
open MerkleVault.App.KeyMaterial MerkleVault.App.InitVault MerkleVault.App.RecoveryOutcome
open MerkleVault.App.Recovery MerkleVault.App.BackupKeys MerkleVault.Audit.Integrity

/-! ### The two items -/

/-- The item of the master key. -/
def masterItem : String × String := (keychainService, accountMasterKey)

/-- The item of the wrap under it. -/
def wrapItem : String × String := (keychainService, accountVrkMaster)

theorem wrap_ne_master : wrapItem ≠ masterItem := by decide

variable (W : World)

/-- When both items are stored, the wrapped key opens under the master key. -/
def Opens (K : Keychain) : Prop := ∀ master blob, K masterItem = some master →
  K wrapItem = some blob → rootKey W K none ≠ none

variable {W}

theorem opens_of_none {K : Keychain} (h : K masterItem = none) : Opens W K := by
  intro master blob hm
  rw [h] at hm
  cases hm

theorem rootKey_congr {K K' : Keychain} (hmaster : K' masterItem = K masterItem)
    (hwrap : K' wrapItem = K wrapItem) : rootKey W K' none = rootKey W K none := by
  unfold masterItem at hmaster
  unfold wrapItem at hwrap
  unfold rootKey masterKey
  rw [hmaster, hwrap]

/-! ### What a ceremony owes -/

/-- The master key that a ceremony has stored, whether it is still to wrap it, and whether the AEAD
has refused to. -/
structure Ceremony where
  recovering : Bool
  own : Option (List UInt8)
  pending : Bool
  refused : Prop

/-- The ceremony is still to wrap the master key, or to delete it. -/
def Ceremony.Owes (m : Ceremony) (master : List UInt8) : Prop :=
  m.own = some master ∧ m.pending = true ∧ ¬ m.refused

variable (W)

/-- The AEAD does not encrypt some root key under the master key and the nonce. -/
def Refuses (own : Option (List UInt8)) (nonce : Vector UInt8 24) : Prop :=
  ∃ master vrk : Key, own = some master.toList ∧
    ∃ e, W.aeadEncrypt master nonce vrk.toList vrkMasterAad = .error e

/-- What a call of a port tells. -/
def Ceremony.nextPort (m : Ceremony) {β : Type} : Port β → β → Ceremony
  | .keychainStore service account value, .ok () =>
    if (service, account) = masterItem then
      { m with own := some value, pending := true, refused := False }
    else if (service, account) = wrapItem then { m with pending := false }
    else m
  | .keychainDelete service account, .ok () =>
    if (service, account) = masterItem then { m with pending := false } else m
  -- A recovery that is refused ends there, an init deletes the master key first.
  | .randomBytes24, nonce =>
    { m with refused := m.refused ∨ m.recovering = true ∧ Refuses W m.own nonce }
  | _, _ => m

/-- What an action of the application tells. -/
def Ceremony.nextOp (m : Ceremony) {β : Type} : Op β → β → Ceremony
  | .port p, r => m.nextPort W p r
  | _, _ => m

/-- What an action of the agent tells. -/
def Ceremony.nextVault (m : Ceremony) {β : Type} : VaultOp β → β → Ceremony
  | .lockInit, _ => { m with recovering := false }
  | _, _ => m

/-- What an action tells. -/
def Ceremony.next (m : Ceremony) {β : Type} : NodeOp β → β → Ceremony
  | .app op, r => m.nextOp W op r
  | .vault op, r => m.nextVault op r

/-- A nonce that is drawn. -/
def drawsNonce {β : Type} : Port β → β → Option (Vector UInt8 24)
  | .randomBytes24, nonce => some nonce
  | _, _ => none

/-- The root key is stored wrapped under the ceremony's own master key. -/
def mayCall (m : Ceremony) {β : Type} : Port β → Prop
  | .keychainStore service account value => (service, account) = wrapItem →
    ∃ (master vrk : Key) (nonce : Vector UInt8 24) (ciphertext : List UInt8),
      m.own = some master.toList ∧
      W.aeadEncrypt master nonce vrk.toList vrkMasterAad = .ok ciphertext ∧
      value = wrapBlob W nonce ciphertext
  | _ => True

/-- The actions of the application that a ceremony may take. -/
def mayTakeOp (m : Ceremony) {β : Type} : Op β → Prop
  | .port p => mayCall W m p
  | _ => True

/-- The actions that a ceremony may take. -/
def mayTake (m : Ceremony) {β : Type} : NodeOp β → Prop
  | .app op => mayTakeOp W m op
  | .vault _ => True

/-- The rules of one ceremony over the two items. -/
def ceremony : Monitor NodeOp Ceremony where
  init := ⟨true, none, false, False⟩
  allowed m op := mayTake W m op
  expects _ op r := deletesSucceed ⟨op, r⟩
  next m op r := m.next W op r

/-- The rules for the actions of the context. -/
abbrev ceremonial : Rules Op Ceremony := (ceremony W).rules.pull NodeOp.app

variable {W} {m : Ceremony}

/-! ### Conformance -/

/-- Actions that store neither item, and are no start of an init. -/
def quietPort {β : Type} : Port β → Prop
  | .keychainStore service account _ => (service, account) ≠ masterItem ∧ (service, account) ≠ wrapItem
  | _ => True

/-- An action of the application that leaves both items. -/
def quietOp {β : Type} : Op β → Prop
  | .port p => quietPort p
  | _ => True

/-- An action of the agent that begins no ceremony. -/
def quietVault {β : Type} : VaultOp β → Prop
  | .lockInit => False
  | _ => True

/-- An action that leaves both items and begins no ceremony. -/
def quiet {β : Type} : NodeOp β → Prop
  | .app op => quietOp op
  | .vault op => quietVault op

/-- Nothing is owed. -/
def Settled (recovering : Bool) (m : Ceremony) : Prop := m.recovering = recovering ∧ m.pending = false

theorem quiet_allowed {β : Type} {op : NodeOp β} (h : quiet op) (m : Ceremony) :
    (ceremony W).rules.allowed m op := by
  cases op with
  | vault op => trivial
  | app op =>
    cases op with
    | port p =>
      cases p with
      | keychainStore service account value => exact fun hitem => absurd hitem h.2
      | _ => trivial
    | _ => trivial

/-- Quiet actions leave the master key that the ceremony has stored, and settle what they settle. -/
theorem quiet_next {β : Type} {op : NodeOp β} (h : quiet op) (m : Ceremony) (r : β) :
    (m.next W op r).recovering = m.recovering ∧ (m.next W op r).own = m.own ∧
      (m.pending = false → (m.next W op r).pending = false) := by
  cases op with
  | vault op =>
    cases op with
    | lockInit => exact h.elim
    | _ => exact ⟨rfl, rfl, id⟩
  | app op =>
    cases op with
    | port p =>
      cases p with
      | keychainStore service account value =>
        cases r with
        | error e => exact ⟨rfl, rfl, id⟩
        | ok u =>
          simp only [Ceremony.next, Ceremony.nextOp, Ceremony.nextPort, if_neg h.1, if_neg h.2]
          exact ⟨trivial, trivial, id⟩
      | keychainDelete service account =>
        cases r with
        | error e => exact ⟨rfl, rfl, id⟩
        | ok u =>
          simp only [Ceremony.next, Ceremony.nextOp, Ceremony.nextPort]
          split_ifs
          · exact ⟨rfl, rfl, fun _ => rfl⟩
          · exact ⟨rfl, rfl, id⟩
      | _ => exact ⟨rfl, rfl, id⟩
    | _ => exact ⟨rfl, rfl, id⟩

/-- A program of quiet actions leaves a ceremony settled. -/
theorem settled_of_only {α : Type} {recovering : Bool} {p : Prog NodeOp α} (hp : Only quiet p)
    (h : Settled recovering m) :
    Wp (ceremony W).rules p m fun m' _ => Settled recovering m' := by
  refine wp_of_only (fun hop _ => quiet_allowed hop _) ?_ hp h
  rintro β op m₁ _ r hop ⟨hrec, hpending⟩ ⟨-, rfl⟩
  obtain ⟨hrec', -, hkeeps⟩ := quiet_next (W := W) hop m₁ r
  exact ⟨hrec'.trans hrec, hkeeps hpending⟩

/-- The same for a program of the context. -/
theorem settled_of_onlyOp {α : Type} {recovering : Bool} {p : Prog Op α} (hp : Only quietOp p)
    (h : Settled recovering m) : Wp (ceremonial W) p m fun m' _ => Settled recovering m' :=
  wp_embed.mp (settled_of_only (only_embed (f := NodeOp.app) hp) h)

/-- The deletion of the master key settles a ceremony. -/
theorem deleteItems_settles {recovering : Bool} {accounts : List String}
    (hrec : m.recovering = recovering) (h : m.pending = false ∨ accountMasterKey ∈ accounts) :
    Wp (ceremonial W) (deleteItems accounts).run m fun m' r => r = .ok () ∧ Settled recovering m' := by
  induction accounts generalizing m with
  | nil => exact ⟨rfl, hrec, h.resolve_right List.not_mem_nil⟩
  | cons account accounts ih =>
    show Wp _ ((call (.port (.keychainDelete keychainService account)) : Handler _) >>= fun _ =>
      deleteItems accounts).run m _
    rw [wp_except_bind, wp_call]
    refine ⟨trivial, ?_⟩
    rintro r _ ⟨hdel, rfl⟩
    obtain rfl : r = .ok () := hdel
    dsimp only [ceremony, Ceremony.next, Ceremony.nextOp, Ceremony.nextPort]
    split_ifs with hitem
    · exact ih hrec (.inl rfl)
    · refine ih hrec (h.imp_right fun hmem => (List.mem_cons.mp hmem).resolve_left fun ha => hitem ?_)
      rw [← ha]
      rfl

/-- An error of the AEAD or of age, after which the master key is deleted. -/
theorem orDelete_settles {α : Type} {recovering : Bool} {x : Except CryptoError α}
    (hrec : m.recovering = recovering) {Q : Ceremony → Except AppError α → Prop}
    (hok : ∀ a, x = .ok a → Q m (.ok a)) (herr : ∀ m' e, Settled recovering m' → Q m' (.error e)) :
    Wp (ceremonial W) (orDelete [accountMasterKey] x).run m Q := by
  cases x with
  | ok a => exact hok a rfl
  | error e =>
    show Wp _ (deleteItems [accountMasterKey] >>= fun _ => throw (.crypto e)).run m Q
    rw [wp_except_bind]
    refine (deleteItems_settles hrec (.inr (List.mem_singleton.mpr rfl))).mono ?_
    rintro m' _ ⟨rfl, hm'⟩
    exact herr m' _ hm'

/-- The store of the wrapped key, or its undoing, settles a ceremony. -/
theorem storeWrap_settles {recovering : Bool} {master vrk : Key} {nonce : Vector UInt8 24}
    {ciphertext : List UInt8} (hrec : m.recovering = recovering) (hown : m.own = some master.toList)
    (henc : W.aeadEncrypt master nonce vrk.toList vrkMasterAad = .ok ciphertext) :
    Wp (ceremonial W) (storeOrUndo accountVrkMaster (W.base64Encode (nonce.toList ++ ciphertext))
      [accountMasterKey]).run m fun m' _ => Settled recovering m' := by
  unfold storeOrUndo
  rw [wp_except_bind, wp_call]
  refine ⟨fun _ => ⟨master, vrk, nonce, ciphertext, hown, henc, rfl⟩, ?_⟩
  rintro r _ ⟨-, rfl⟩
  cases r with
  | ok u => exact ⟨hrec, rfl⟩
  | error e =>
    show Wp _ (deleteItems [accountMasterKey] >>= fun _ => throw (keychainFault e)).run m _
    rw [wp_except_bind]
    refine (deleteItems_settles hrec (.inr (List.mem_singleton.mpr rfl))).mono ?_
    rintro m' _ ⟨rfl, hm'⟩
    exact hm'

theorem only_quiet_storeRecovery (value : List UInt8) : Only quietOp
    (storeOrUndo accountVrkRecovery value [accountMasterKey, accountVrkMaster]).run := by
  have hitem : (keychainService, accountVrkRecovery) ≠ masterItem ∧
      (keychainService, accountVrkRecovery) ≠ wrapItem := by decide
  refine only_except_bind (only_call hitem) fun r => ?_
  cases r with
  | ok u => exact only_pure ()
  | error e =>
    refine only_except_bind ?_ fun _ => only_throw _
    refine only_except_bind (only_except_bind (only_call trivial) fun _ => only_pure _) fun _ => ?_
    refine only_except_bind (only_except_bind (only_call trivial) fun _ => only_pure _) fun _ => ?_
    exact only_pure _

/-- The master key is stored. -/
def Holds (recovering : Bool) (master : Key) (m : Ceremony) : Prop :=
  m.recovering = recovering ∧ m.own = some master.toList

/-- A quiet call, and what goes on. -/
theorem wp_quiet_call {recovering : Bool} {master : Key} {α β : Type} (h : Holds recovering master m)
    (p : Port β) (hp : quietPort p) {f : β → Handler α} {Q : Ceremony → Except AppError α → Prop}
    (hf : ∀ r m', Holds recovering master m' → Wp (ceremonial W) (f r).run m' Q) :
    Wp (ceremonial W) (call (.port p) >>= f : Handler α).run m Q := by
  have hquiet : quiet (NodeOp.app (.port p)) := hp
  refine wp_except_bind.mpr (wp_call.mpr ⟨quiet_allowed hquiet m, ?_⟩)
  rintro r _ ⟨-, rfl⟩
  obtain ⟨hrec, hown, -⟩ := quiet_next (W := W) hquiet m r
  exact hf r _ ⟨hrec.trans h.1, hown.trans h.2⟩

/-- The store of a master key, and what goes on. -/
theorem wp_storeMaster {recovering : Bool} {α : Type} (h : Settled recovering m) (master : Key)
    {f : Unit → Handler α} {Q : Ceremony → Except AppError α → Prop}
    (hf : ∀ m', Holds recovering master m' → Wp (ceremonial W) (f ()).run m' Q)
    (herr : ∀ e, Q m (.error e)) :
    Wp (ceremonial W) (attempt keychainFault
      (.port (.keychainStore keychainService accountMasterKey master.toList)) >>= f : Handler α).run m
      Q := by
  refine wp_except_bind.mpr (wp_attempt.mpr ⟨fun hitem => absurd hitem wrap_ne_master.symm, ?_⟩)
  rintro r _ ⟨-, rfl⟩
  cases r with
  | error e => exact herr _
  | ok u => exact hf _ ⟨h.1, rfl⟩

/-- **The keys of an init**: whatever fails, nothing is owed at the end. -/
theorem storeKeys_conforms (h : Settled false m) :
    Wp (ceremonial W) (storeKeys W).run m fun m' _ => Settled false m' := by
  unfold storeKeys
  refine wp_except_bind.mpr (wp_call.mpr ⟨trivial, ?_⟩)
  rintro master _ ⟨-, rfl⟩
  refine wp_storeMaster h master (fun m₁ h₁ => ?_) fun _ => h
  refine wp_quiet_call h₁ .recoveryPubkey trivial fun recoveryRecipient m₂ h₂ => ?_
  refine wp_quiet_call h₂ .randomBytes32 trivial fun vrk m₃ h₃ => ?_
  refine wp_quiet_call h₃ .randomBytes24 trivial fun nonce m₄ h₄ => ?_
  refine wp_except_bind.mpr (orDelete_settles h₄.1 (fun ciphertext henc => ?_) fun _ _ hm => hm)
  refine wp_quiet_call h₄ (.ageEncrypt [recoveryRecipient] vrk.toList) trivial fun encrypted m₅ h₅ => ?_
  refine wp_except_bind.mpr (orDelete_settles h₅.1 (fun forRecovery _ => ?_) fun _ _ hm => hm)
  refine wp_except_bind.mpr ((storeWrap_settles h₅.1 h₅.2 henc).mono fun m₆ r h₆ => ?_)
  cases r with
  | error e => exact h₆
  | ok u =>
    refine wp_except_bind.mpr
      ((settled_of_onlyOp (only_quiet_storeRecovery _) h₆).mono fun m₇ r h₇ => ?_)
    cases r with
    | error e => exact h₇
    | ok u => exact h₇

/-- **The keys of a recovery**: nothing is owed at the end, or the AEAD has refused. -/
theorem rewrap_conforms (h : Settled true m) (vrk : Key) (storedPubkey : String) :
    Wp (ceremonial W) (rewrap W.toEnv vrk storedPubkey).run m fun m' r =>
      Settled true m' ∨ m'.refused ∧ ∃ e, r = .error e := by
  unfold rewrap
  refine wp_except_bind.mpr (wp_call.mpr ⟨trivial, ?_⟩)
  rintro master _ ⟨-, rfl⟩
  refine wp_storeMaster h master (fun m₁ ⟨hrec, hown⟩ => ?_) fun _ => .inl h
  refine wp_except_bind.mpr (wp_call.mpr ⟨trivial, ?_⟩)
  rintro nonce m₂ ⟨-, hm₂⟩
  have hrefused : m₂.refused = (m₁.refused ∨ m₁.recovering = true ∧ Refuses W m₁.own nonce) := by
    rw [← hm₂]
    rfl
  have h₂ : Holds true master m₂ := by
    rw [← hm₂]
    exact ⟨hrec, hown⟩
  refine wp_except_bind.mpr (wp_ofExcept.mpr ⟨fun ciphertext henc => ?_, fun e henc => ?_⟩)
  · refine wp_except_bind.mpr ((storeWrap_settles h₂.1 h₂.2 henc).mono fun m₃ r h₃ => ?_)
    cases r with
    | error e => exact .inl h₃
    | ok u =>
      refine wp_except_bind.mpr (wp_attempt.mpr ⟨trivial, ?_⟩)
      rintro r _ ⟨-, rfl⟩
      cases r with
      | error e => exact .inl h₃
      | ok forRecovery =>
        exact (settled_of_onlyOp (only_quiet_storeRecovery _) h₃).mono fun _ _ hm => .inl hm
  · refine .inr ⟨?_, _, rfl⟩
    rw [hrefused]
    exact .inr ⟨hrec, master, vrk, hown, e, henc⟩

theorem only_quiet_enroll (W : World) (cmd : InitVaultCommand) (master : Key) :
    Only quiet (cmd.enroll W master).run := by
  have hresolve : Only quiet cmd.resolvePassphrase.run := by
    unfold InitVaultCommand.resolvePassphrase
    cases cmd.passphrase with
    | some passphrase => exact only_pure _
    | none => exact only_except_bind (only_call trivial) fun _ => only_pure _
  refine only_except_bind hresolve fun passphrase => ?_
  cases passphrase with
  | none => exact only_pure _
  | some passphrase =>
    refine only_except_bind (only_resultOf ?_) fun _ => only_pure _
    refine (only_enrollPassphraseFallback W master passphrase).mono fun {β} {op} hop => ?_
    cases op with
    | vault op =>
      cases op with
      | randomBytes16 => trivial
      | masterPassphraseVar => trivial
      | _ => exact hop.elim
    | app op =>
      cases op with
      | port p =>
        cases p with
        | keychainStore service account value =>
          have hother : ∀ item : String × String, item.2 ≠ accountArgon2Params →
              item.2 ≠ accountMasterPassphraseWrap → (service, account) ≠ item := by
            rintro item h₁ h₂ rfl
            exact hop.elim h₁ h₂
          exact ⟨hother _ (by decide) (by decide), hother _ (by decide) (by decide)⟩
        | _ => trivial
      | _ => trivial

theorem ceremony_conforms (cmd : InitVaultCommand) (h : Settled false m) :
    Wp (ceremony W).rules (cmd.ceremony W).run m fun m' _ => Settled false m' := by
  have hretrieve : quiet (NodeOp.app (.port (.keychainRetrieve keychainService accountMasterKey))) :=
    trivial
  refine wp_except_bind.mpr ((settled_of_only (only_call hretrieve) h).mono fun m₁ r h₁ => ?_)
  match r with
  | .error e => exact h₁
  | .ok (.ok value) => exact h₁
  | .ok (.error .permissionDenied) => exact h₁
  | .ok (.error (.persistenceFailed _ _)) => exact h₁
  | .ok (.error (.backend _)) => exact h₁
  | .ok (.error .notFound) =>
    refine wp_except_bind.mpr (wp_embedded.mpr ((storeKeys_conforms h₁).mono fun m₂ r h₂ => ?_))
    cases r with
    | error e => exact h₂
    | ok keys =>
      have hrecord : Only quietOp (InitVaultCommand.recordInit W keys.2.1).run := by
        refine only_except_bind (only_except_bind (only_call trivial) fun _ => only_pure _) fun ns => ?_
        refine only_except_bind (only_call trivial) fun vaultId => ?_
        exact only_except_bind (only_attempt trivial) fun _ => only_pure _
      refine wp_except_bind.mpr (wp_embedded.mpr ((settled_of_onlyOp hrecord h₂).mono
        fun m₃ r h₃ => ?_))
      cases r with
      | error e => exact h₃
      | ok vaultId =>
        refine wp_except_bind.mpr
          ((settled_of_only (only_quiet_enroll W cmd keys.1) h₃).mono fun m₄ r h₄ => ?_)
        cases r with
        | error e => exact h₄
        | ok u => exact h₄

theorem quietOp_of_apart {β : Type} {op : Op β} (h : apart op) : quietOp op := by
  cases op with
  | port p =>
    cases p with
    | keychainStore service account value => exact h.elim
    | _ => trivial
  | _ => trivial

/-- **A recovery** owes nothing at its end, or the AEAD has refused. -/
theorem recover_conforms (cmd : DisasterRecoverCommand) (h : Settled true m) :
    Wp (ceremonial W) (cmd.execute W.toEnv).run m fun m' r =>
      Settled true m' ∨ m'.refused ∧ ∃ e, r = .error e := by
  have hquiet : ∀ {α : Type} {p : Prog Op α} {m' : Ceremony}, Only apart p → Settled true m' →
      Wp (ceremonial W) p m' fun m'' _ => Settled true m'' :=
    fun hp hm => settled_of_onlyOp (hp.mono quietOp_of_apart) hm
  unfold DisasterRecoverCommand.execute
  split_ifs
  · exact .inl h
  · exact .inl h
  have hpubkey : apart (.port .recoveryPubkey) := trivial
  refine wp_except_bind.mpr ((hquiet (only_call hpubkey) h).mono fun m₁ r h₁ => ?_)
  cases r with
  | error e => exact .inl h₁
  | ok storedPubkey =>
    refine wp_except_bind.mpr ((hquiet ((only_recoveryIdentityMatches _ _).mono apart_of_readsBackup)
      h₁).mono fun m₂ r h₂ => ?_)
    match r with
    | .error e => exact .inl h₂
    | .ok false =>
      refine wp_except_bind.mpr ((hquiet (only_auditFingerprintMismatch.mono apart_of_records) h₂).mono
        fun m₃ r h₃ => ?_)
      cases r with
      | error e => exact .inl h₃
      | ok u => exact .inl h₃
    | .ok true =>
      refine wp_except_bind.mpr ((hquiet ((only_readBackup cmd).mono apart_of_readsBackup)
        h₂).mono fun m₃ r h₃ => ?_)
      cases r with
      | error e => exact .inl h₃
      | ok read =>
        refine wp_except_bind.mpr ((rewrap_conforms h₃ read.1 storedPubkey).mono fun m₄ r h₄ => ?_)
        cases r with
        | error e => exact h₄.imp_right fun h => ⟨h.1, e, rfl⟩
        | ok u =>
          have h₄ := h₄.resolve_right fun h => absurd h.2.choose_spec.symm error_ne_ok
          refine (settled_of_onlyOp ?_ h₄).mono fun _ _ hm => .inl hm
          refine only_except_bind ((only_rehydrate _ _).mono fun h => quietOp_of_apart (apart_of_records h))
            fun _ => ?_
          refine only_except_bind (only_call trivial) fun _ => ?_
          refine only_except_bind (only_attempt trivial) fun _ => ?_
          refine only_except_bind (only_except_bind (only_call trivial) fun _ => only_pure _) fun _ => ?_
          exact only_except_bind (only_attempt trivial) fun _ => only_pure _

/-- The ceremonies. -/
inductive CeremonyCall (W : World) : Prog NodeOp (Except NodeError NodeReply) → Prop
  | init (cmd : InitVaultCommand) : CeremonyCall W (cmd.execute W).run
  | recover (cmd : DisasterRecoverCommand) : CeremonyCall W (inReply (cmd.execute W.toEnv)).run

/-- **A ceremony that has ended owes nothing.** -/
theorem call_conforms {p : Prog NodeOp (Except NodeError NodeReply)} (hp : CeremonyCall W p) :
    Conforms (ceremony W) p (ceremony W).init fun m _ => ∀ master, ¬ m.Owes master := by
  have hsettled : ∀ {recovering : Bool} {m : Ceremony}, Settled recovering m →
      ∀ master, ¬ m.Owes master := by
    rintro recovering m ⟨-, hpending⟩ master ⟨-, hpending', -⟩
    rw [hpending] at hpending'
    cases hpending'
  cases hp with
  | init cmd =>
    have hunlock : quiet (NodeOp.vault .unlockInit) := trivial
    refine wp_except_bind.mpr (wp_call.mpr ⟨trivial, ?_⟩)
    rintro _ m₁ ⟨-, rfl⟩
    refine wp_except_bind.mpr (wp_resultOf.mpr ((ceremony_conforms cmd ⟨rfl, rfl⟩).mono ?_))
    intro m₂ result h₂
    refine wp_except_bind.mpr ((settled_of_only (only_call hunlock) h₂).mono fun m₃ r h₃ => ?_)
    cases r with
    | error e => exact hsettled h₃
    | ok u =>
      refine wp_ofExcept.mpr ⟨fun _ _ => hsettled h₃, fun _ _ => hsettled h₃⟩
  | recover cmd =>
    have hdone : ∀ {m : Ceremony} {r : Except AppError Reply},
        Settled true m ∨ m.refused ∧ (∃ e, r = .error e) → ∀ master, ¬ m.Owes master := by
      rintro m r (h | ⟨hrefused, -⟩) master
      · exact hsettled h master
      · exact fun howes => howes.2.2 hrefused
    refine wp_except_bind.mpr (wp_embedded.mpr ((recover_conforms cmd ⟨rfl, rfl⟩).mono ?_))
    intro m r h
    cases r with
    | error e => exact hdone h
    | ok reply => exact hdone h

/-! ### The keychain -/

/-- A stored pair opens, or a ceremony is still to wrap the master key that is stored. -/
def Kept (W : World) (n : Node) (ms : List Ceremony) : Prop := ∀ master blob,
  n.keychain masterItem = some master → n.keychain wrapItem = some blob →
    rootKey W n.keychain none = none → ∃ m ∈ ms, m.Owes master

/-- A store or delete of the keychain. -/
def changesKeychainPort {β : Type} : Port β → Prop
  | .keychainStore _ _ _ => True
  | .keychainDelete _ _ => True
  | _ => False

/-- An action of the application that changes the keychain. -/
def changesKeychainOp {β : Type} : Op β → Prop
  | .port p => changesKeychainPort p
  | _ => False

/-- Stores and deletes of keychain items. -/
def changesKeychain {β : Type} : NodeOp β → Prop
  | .app op => changesKeychainOp op
  | .vault _ => False

section Steps

variable {n n' : Node} {ms : List Ceremony} {i : ℕ} {β : Type}

theorem portExec_keychain {p : Port β} {r : β} (hp : ¬ changesKeychainPort p)
    (hx : portExec W p n r n') : n'.keychain = n.keychain := by
  cases p with
  | keychainStore service account value => exact absurd trivial hp
  | keychainDelete service account => exact absurd trivial hp
  | keychainRetrieve service account => rw [keychainRetrieve_same hx]
  | removeFile path =>
    rcases hx with ⟨-, rfl⟩ | ⟨rfl, -⟩ <;> rfl
  | writeFile path contents =>
    rcases hx with ⟨-, rfl⟩ | ⟨rfl, -⟩ <;> rfl
  | masterKeyKeychainRef => rw [hx.1]
  | recoveryPubkey => rw [hx.1]
  | readFile path => rw [hx.1]
  | ageEncrypt recipients plaintext => rw [hx.1]
  | ageDecrypt identity ciphertext => rw [hx.1]
  | argon2idDerive passphrase params => rw [hx.1]
  | _ =>
    obtain rfl : n' = n := hx
    rfl

theorem vaultExec_keychain {op : VaultOp β} {r : β} (hx : vaultExec op n r n') :
    n'.keychain = n.keychain := by
  cases op with
  | lockInit => rw [hx.2]
  | unlockInit =>
    obtain rfl : n' = _ := hx
    rfl
  | selectNamespaceRows id => rw [hx.1]
  | getRestorePlan id => rw [hx.1]
  | restorePlanAppliedAt id => rw [hx.1]
  | markRestorePlanApplied id appliedAt =>
    obtain ⟨fault, hx⟩ := hx
    split at hx
    · rw [hx.2]
    · rw [hx.2]
  | listBackups id => rw [hx.1]
  | putBackup backup =>
    rcases hx with ⟨-, rfl⟩ | ⟨rfl, -⟩ <;> rfl
  | persistArtifact path contents =>
    rcases hx with ⟨-, -, rfl⟩ | ⟨rfl, -⟩ <;> rfl
  | revokeUseTokens => rw [hx.2]
  | _ =>
    obtain rfl : n' = n := hx
    rfl

theorem nodeExec_keychain {op : NodeOp β} {r : β} (hop : ¬ changesKeychain op)
    (hx : nodeExec W op n r n') : n'.keychain = n.keychain := by
  cases op with
  | vault op => exact vaultExec_keychain hx
  | app op =>
    change appExec W op n r n' at hx
    cases op with
    | port p => exact portExec_keychain hop hx
    | _ => rw [appExec_frame rfl hx]

/-- A step that leaves the items, and what its ceremony owes. -/
theorem Kept.same (h : Kept W n ms) (hi : ms[i]? = some m) {m' : Ceremony}
    (hmaster : n'.keychain masterItem = n.keychain masterItem)
    (hwrap : n'.keychain wrapItem = n.keychain wrapItem)
    (howes : ∀ master, n.keychain wrapItem ≠ none → m.Owes master → m'.Owes master) :
    Kept W n' (ms.set i m') := by
  intro master blob hm hb hnone
  rw [hmaster] at hm
  rw [hwrap] at hb
  rw [rootKey_congr hmaster hwrap] at hnone
  obtain ⟨m₁, hmem, hm₁⟩ := h master blob hm hb hnone
  have hstored : n.keychain wrapItem ≠ none := by
    rw [hb]
    exact Option.some_ne_none blob
  obtain ⟨j, hj⟩ := List.getElem?_of_mem hmem
  by_cases hji : j = i
  · subst hji
    obtain rfl := Option.some.inj (hi.symm.trans hj)
    exact ⟨m', List.mem_set (List.getElem?_eq_some_iff.mp hi).1 m', howes master hstored hm₁⟩
  · exact ⟨m₁, List.mem_of_getElem? ((List.getElem?_set_ne (Ne.symm hji)).trans hj), hm₁⟩

/-- One of the items is missing. -/
theorem kept_of_none (h : n.keychain masterItem = none ∨ n.keychain wrapItem = none) :
    Kept W n ms := by
  intro master blob hm hb
  rcases h with h | h
  · rw [h] at hm
    cases hm
  · rw [h] at hb
    cases hb

/-- What a ceremony owes, it owes after an action that changes no item, unless the AEAD refuses. -/
theorem owes_next {op : NodeOp β} {r : β} (hop : ¬ changesKeychain op) {master : List UInt8}
    (hdraw : ∀ nonce, ofApp none (ofPort none drawsNonce) op r = some nonce →
      ¬ (m.recovering = true ∧ Refuses W m.own nonce))
    (h : m.Owes master) : (m.next W op r).Owes master := by
  cases op with
  | vault op =>
    cases op with
    | _ => exact h
  | app op =>
    cases op with
    | port p =>
      cases p with
      | keychainStore service account value => exact absurd trivial hop
      | keychainDelete service account => exact absurd trivial hop
      | randomBytes24 =>
        refine ⟨h.1, h.2.1, fun hrefused => ?_⟩
        rcases hrefused with hrefused | hrefused
        · exact h.2.2 hrefused
        · exact hdraw r rfl hrefused
      | _ => exact h
    | _ => exact h

/-- A fresh master key is owed a wrap. -/
theorem kept_storeMaster (hi : ms[i]? = some m) {value : List UInt8}
    (hkeychain : n'.keychain masterItem = some value) {m' : Ceremony} (howes : m'.Owes value) :
    Kept W n' (ms.set i m') := by
  intro master blob hm _ _
  obtain rfl := Option.some.inj (hkeychain.symm.trans hm)
  exact ⟨m', List.mem_set (List.getElem?_eq_some_iff.mp hi).1 m', howes⟩

/-- The wrapped key is stored over a master key that some ceremony owes: its own, and the pair opens,
or that of another, which owes it still. -/
theorem kept_storeWrap (hW : W.Lawful) (hi : ms[i]? = some m) {value : List UInt8}
    (hkeychain : n'.keychain = Function.update n.keychain wrapItem (some value))
    (hown : ∃ (master vrk : Key) (nonce : Vector UInt8 24) (ciphertext : List UInt8),
      m.own = some master.toList ∧
      W.aeadEncrypt master nonce vrk.toList vrkMasterAad = .ok ciphertext ∧
      value = wrapBlob W nonce ciphertext)
    (howed : ∀ master, n.keychain masterItem = some master → ∃ m₁ ∈ ms, m₁.Owes master)
    (m' : Ceremony) : Kept W n' (ms.set i m') := by
  intro bytes blob hm hb hnone
  have hmaster : n.keychain masterItem = some bytes := by
    rw [hkeychain, Function.update_of_ne wrap_ne_master.symm] at hm
    exact hm
  obtain ⟨m₁, hmem, hm₁⟩ := howed bytes hmaster
  obtain ⟨j, hj⟩ := List.getElem?_of_mem hmem
  by_cases hji : j = i
  · subst hji
    obtain rfl := Option.some.inj (hi.symm.trans hj)
    obtain ⟨master, vrk, nonce, ciphertext, hkey, henc, rfl⟩ := hown
    have hbytes : bytes = master.toList := Option.some.inj (hm₁.1.symm.trans hkey)
    have hopen : rootKey W n'.keychain none = some vrk := by
      refine rootKey_keychain hW ?_ ?_ henc
      · rw [← hbytes]
        exact hm
      · rw [hkeychain]
        exact Function.update_self _ _ _
    rw [hopen] at hnone
    cases hnone
  · exact ⟨m₁, List.mem_of_getElem? ((List.getElem?_set_ne (Ne.symm hji)).trans hj), hm₁⟩

/-- **A step of a ceremony** leaves a stored pair that opens, or a ceremony that is still to wrap the
master key. -/
theorem Kept.step (hW : W.Lawful) (h : Kept W n ms) (hi : ms[i]? = some m) {op : NodeOp β} {r : β}
    (hop : mayTake W m op) (hx : nodeExec W op n r n') (hdel : deletesSucceed ⟨op, r⟩)
    (hwrap : ofApp none (ofPort none (storesItem wrapItem)) op r ≠ none →
      ∀ master, n.keychain masterItem = some master → ∃ m₁ ∈ ms, m₁.Owes master)
    (hdraw : ∀ nonce, ofApp none (ofPort none drawsNonce) op r = some nonce →
      m.recovering = true → Refuses W m.own nonce → n.keychain wrapItem = none)
    (hlate : lateMaster ⟨op, r⟩ = true → n.keychain wrapItem = none) :
    Kept W n' (ms.set i (m.next W op r)) := by
  by_cases hchanges : changesKeychain op
  swap
  · have hkeychain := nodeExec_keychain hchanges hx
    refine h.same hi (by rw [hkeychain]) (by rw [hkeychain]) fun master hstored howes => ?_
    refine owes_next hchanges (fun nonce hnonce hrefused => hstored ?_) howes
    exact hdraw nonce hnonce hrefused.1 hrefused.2
  cases op with
  | vault op => exact hchanges.elim
  | app op =>
    cases op with
    | port p =>
      cases p with
      | keychainStore service account value =>
        change portExec W (.keychainStore service account value) n r n' at hx
        obtain ⟨htook, rfl⟩ | ⟨htook, rfl⟩ := hx
        swap
        · cases r with
          | ok u => cases htook
          | error failure => exact h.same hi rfl rfl fun _ _ howes => howes
        by_cases hmaster : (service, account) = masterItem
        · cases r with
          | ok u =>
            refine kept_storeMaster hi (?_ : _ = some value) ?_
            · rw [← hmaster]
              exact Function.update_self _ _ _
            · simp only [Ceremony.next, Ceremony.nextOp, Ceremony.nextPort, if_pos hmaster]
              exact ⟨rfl, rfl, id⟩
          | error failure =>
            have hlands : landsLate (.keychainStore service account value) (.error failure) = true :=
              landsLate_iff.mpr ⟨rfl, htook, hmaster⟩
            refine kept_of_none (.inr ?_)
            refine (Function.update_of_ne ?_ _ _).trans (hlate hlands)
            rw [hmaster]
            exact wrap_ne_master
        by_cases hitem : (service, account) = wrapItem
        · have hstores : storesItem wrapItem (.keychainStore service account value) r = some value :=
            if_pos ⟨htook, hitem⟩
          refine kept_storeWrap hW hi ?_ (hop hitem) (hwrap ?_) _
          · rw [← hitem]
            rfl
          · exact fun hnone => Option.some_ne_none value (hstores.symm.trans hnone)
        · refine h.same hi (Function.update_of_ne (Ne.symm hmaster) _ _)
            (Function.update_of_ne (Ne.symm hitem) _ _) fun _ _ howes => ?_
          cases r with
          | ok u =>
            simp only [Ceremony.next, Ceremony.nextOp, Ceremony.nextPort, if_neg hmaster, if_neg hitem]
            exact howes
          | error failure => exact howes
      | keychainDelete service account =>
        change portExec W (.keychainDelete service account) n r n' at hx
        obtain rfl : r = .ok () := hdel
        obtain ⟨-, rfl⟩ | ⟨htook, -⟩ := hx
        swap
        · cases htook
        by_cases hmaster : (service, account) = masterItem
        · refine kept_of_none (.inl ?_)
          rw [← hmaster]
          exact Function.update_self _ _ _
        by_cases hitem : (service, account) = wrapItem
        · refine kept_of_none (.inr ?_)
          rw [← hitem]
          exact Function.update_self _ _ _
        · refine h.same hi (Function.update_of_ne (Ne.symm hmaster) _ _)
            (Function.update_of_ne (Ne.symm hitem) _ _) fun _ _ howes => ?_
          simp only [Ceremony.next, Ceremony.nextOp, Ceremony.nextPort, if_neg hmaster]
          exact howes
      | _ => exact hchanges.elim
    | _ => exact hchanges.elim

end Steps

/-! ### Runs of ceremonies -/

/-- The host, the ceremonies under way and what they have returned. -/
abbrev CeremonyConfig := Config Node NodeOp (Except NodeError NodeReply)

/-- Any number of inits and recoveries over one keychain. -/
def ceremonies (W : World) : System Node NodeOp (Except NodeError NodeReply) :=
  nodeSystem W (CeremonyCall W) fun _ _ => False

/-- Deletes succeed; the wrapped key is stored only when the master key there, if there is one, is
one that a ceremony in progress is still to wrap; and the AEAD refuses a recovery, and the store of a
master key fails after its effect, only while no wrapped key is stored. -/
def inStep (W : World) : CeremonyConfig → Guard Node NodeOp := fun c hist n e =>
  deletesSucceed e ∧
  (ofApp none (ofPort none (storesItem wrapItem)) e.op e.res ≠ none → ∀ master,
    n.keychain masterItem = some master → ∃ t ∈ c.tasks, ((ceremony W).after t.hist).Owes master) ∧
  (∀ nonce, ofApp none (ofPort none drawsNonce) e.op e.res = some nonce →
    ((ceremony W).after hist).recovering = true →
      Refuses W ((ceremony W).after hist).own nonce → n.keychain wrapItem = none) ∧
  (lateMaster e = true → n.keychain wrapItem = none)

/-- **The pairing of the keychain.**  From a keychain whose pair opens, every run of ceremonies in
step ends with one whose pair opens. -/
theorem pair_opens (W : World) (hW : W.Lawful) (n₀ : Node) (hopens : Opens W n₀.keychain)
    (c : CeremonyConfig) (h : Overseen (ceremonies W) (inStep W) n₀ c)
    (hended : ∀ t ∈ c.tasks, t.Ended) : Opens W c.state.keychain := by
  obtain ⟨hkept, hconf⟩ := h.rule (ceremony W) (fun _ m _ => ∀ master, ¬ m.Owes master) (Kept W)
    (fun master blob hm hb hnone => absurd hnone (hopens master blob hm hb))
    (fun p hp => call_conforms hp)
    (by
      intro n ms hkept master blob hm hb hnone
      obtain ⟨m, hmem, howes⟩ := hkept master blob hm hb hnone
      exact ⟨m, List.mem_append_left _ hmem, howes⟩)
    (by
      intro β op hist c n' r i hkept hi hop hx ⟨hdel, hwrap, hdraw, hlate⟩
      refine ⟨hdel, hkept.step hW hi hop hx hdel (fun hstores master hm => ?_) hdraw hlate⟩
      obtain ⟨t, ht, howes⟩ := hwrap hstores master hm
      exact ⟨_, List.mem_map_of_mem ht, howes⟩)
    (fun _ h => False.elim h)
  intro master blob hm hb hnone
  obtain ⟨m, hmem, howes⟩ := hkept master blob hm hb hnone
  obtain ⟨t, ht, rfl⟩ := List.mem_map.mp hmem
  obtain ⟨r, hret⟩ := hended t ht
  have hdone := hconf t ht
  rw [hret] at hdone
  exact hdone master howes

/-! ### Two recoveries -/

/-- The keychain of the new machine with a master key and the root key wrapped under another. -/
def sampleStored (master under : Key) : Node :=
  (sampleNewMachine.setKeychain masterItem (some master.toList)).setKeychain wrapItem
    (some (sampleWrapUnder under))

/-- A recovery over a wrapped root key. -/
def sampleCeremony : NodeHandler NodeReply :=
  inReply (sampleRecover.execute (sampleWorld sampleWrapped).toEnv)

/-- What is left of a recovery when it has read the backup. -/
def sampleRest : NodeHandler NodeReply := inReply do
  rewrap (sampleWorld sampleWrapped).toEnv sampleKey "age1r"
  let restored ← rehydrate (sampleWrapped.secrets.map jsonSecret) 0
  call (.writeHmacKey (some (deriveAuditHmacKey (sampleWorld sampleWrapped).toEnv sampleKey)))
  attempt identityFault (.identity (.recover sampleKey))
  let ns ← newNamespaceId
  auditCommit
    { op := .disasterRecovery, outcome := .allow, namespaceId := ns, callerProgram := agent }
    (deriveAuditHmacKey (sampleWorld sampleWrapped).toEnv sampleKey)
  return .recovered restored

/-- Guards that let everything through but what they say of the two items. -/
def Lenient (G : CeremonyConfig → Guard Node NodeOp) : Prop := ∀ c hist n e, deletesSucceed e →
  ofApp none (ofPort none (storesItem wrapItem)) e.op e.res = none →
    ofApp none (ofPort none drawsNonce) e.op e.res = none → lateMaster e = false → G c hist n e

theorem inStep_lenient (W : World) : Lenient (inStep W) := by
  intro c hist n e hdel hstores hdraws hlate
  refine ⟨hdel, fun h => absurd hstores h, fun nonce h => ?_, fun h => ?_⟩
  · rw [hdraws] at h
    cases h
  · rw [hlate] at h
    cases h

/-- A recovery up to its first store. -/
theorem recovery_reads {G : CeremonyConfig → Guard Node NodeOp} (hG : Lenient G) {i : ℕ}
    {ts : List (Task NodeOp (Except NodeError NodeReply))}
    (h : Overseen (ceremonies (sampleWorld sampleWrapped)) G sampleNewMachine ⟨sampleNewMachine, ts⟩)
    (hi : ts[i]? = some ⟨sampleCeremony.run, sampleCeremony.run, []⟩) :
    ∃ hist, ((ceremony (sampleWorld sampleWrapped)).after hist).recovering = true ∧
      Overseen (ceremonies (sampleWorld sampleWrapped)) G sampleNewMachine
        ⟨sampleNewMachine, ts.set i ⟨sampleCeremony.run, sampleRest.run, hist⟩⟩ := by
  obtain ⟨hlt, hget⟩ := List.getElem?_eq_some_iff.mp hi
  have hstep : ∀ {β : Type} {op : NodeOp β} {k : β → Prog NodeOp (Except NodeError NodeReply)}
      {p : Prog NodeOp (Except NodeError NodeReply)} {hist : List (Event NodeOp)},
      Overseen (ceremonies (sampleWorld sampleWrapped)) G sampleNewMachine
        ⟨sampleNewMachine, ts.set i ⟨p, .act op k, hist⟩⟩ → ∀ r, deletesSucceed ⟨op, r⟩ →
      ofApp none (ofPort none (storesItem wrapItem)) op r = none →
      ofApp none (ofPort none drawsNonce) op r = none → lateMaster ⟨op, r⟩ = false →
      nodeExec (sampleWorld sampleWrapped) op sampleNewMachine r sampleNewMachine →
      Overseen (ceremonies (sampleWorld sampleWrapped)) G sampleNewMachine
        ⟨sampleNewMachine, ts.set i ⟨p, k r, hist ++ [⟨op, r⟩]⟩⟩ := by
    intro β op k p hist h r hdel hstores hdraws hlate hx
    have hset : (ts.set i ⟨p, .act op k, hist⟩).set i ⟨p, k r, hist ++ [⟨op, r⟩]⟩ =
        ts.set i ⟨p, k r, hist ++ [⟨op, r⟩]⟩ := List.set_set _
    have h' := h.act i (List.getElem?_set_self hlt) r sampleNewMachine hx
      (hG _ _ _ _ hdel hstores hdraws hlate)
    rw [hset] at h'
    exact h'
  have hself : ts.set i ⟨sampleCeremony.run, sampleCeremony.run, []⟩ = ts := by
    rw [← hget]
    exact List.set_getElem_self hlt
  rw [← hself] at h
  have h₁ := hstep h "age1r" trivial rfl rfl rfl ⟨rfl, rfl⟩
  have h₂ := hstep h₁ (.ok sentinel) trivial rfl rfl rfl ⟨rfl, 0, rfl⟩
  have h₃ := hstep h₂ (.ok sentinel) trivial rfl rfl rfl ⟨rfl, rfl⟩
  have h₄ := hstep h₃ (.ok [0]) trivial rfl rfl rfl ⟨rfl, .inl ⟨_, rfl, rfl⟩⟩
  have h₅ := hstep h₄ (.ok [0]) trivial rfl rfl rfl ⟨rfl, rfl⟩
  have h₆ := hstep h₅ (.ok sampleKey.toList) trivial rfl rfl rfl ⟨rfl, rfl⟩
  exact ⟨_, rfl, h₆⟩

/-- A recovery alone, on a machine without keys, up to a storage failure. -/
theorem one_recovery_opens : ∃ c : CeremonyConfig,
    Overseen (ceremonies (sampleWorld sampleWrapped)) (inStep (sampleWorld sampleWrapped))
      sampleNewMachine c ∧ (∀ t ∈ c.tasks, t.Ended) ∧
    c.state.keychain masterItem = some sampleKey.toList ∧
    Opens (sampleWorld sampleWrapped) c.state.keychain := by
  let n₁ := sampleNewMachine.setKeychain masterItem (some sampleKey.toList)
  let n₂ := sampleStored sampleKey sampleKey
  let n₃ := n₂.setKeychain (keychainService, accountVrkRecovery) (some sampleKey.toList)
  have hG := inStep_lenient (sampleWorld sampleWrapped)
  have h₀ := Overseen.here (ceremonies (sampleWorld sampleWrapped))
    (inStep (sampleWorld sampleWrapped)) sampleNewMachine
  obtain ⟨hist, hrec, h₁⟩ := recovery_reads (i := 0) hG (h₀.start _ (.recover sampleRecover)) rfl
  have h₂ := h₁.act 0 rfl sampleKey sampleNewMachine rfl (hG _ _ _ _ trivial rfl rfl rfl)
  have h₃ := h₂.act 0 rfl (.ok ()) n₁ (.inl ⟨rfl, rfl⟩) (hG _ _ _ _ trivial rfl rfl rfl)
  have h₄ := h₃.act 0 rfl (Vector.replicate 24 0) n₁ rfl
    ⟨trivial, fun h => absurd rfl h, fun _ _ _ _ => rfl, fun h => nomatch h⟩
  have h₅ := h₄.act 0 rfl (.ok ()) n₂ (.inl ⟨rfl, rfl⟩)
    ⟨trivial, fun _ master hm => ?_, ?_, fun h => nomatch h⟩
  have h₆ := h₅.act 0 rfl (.ok sampleKey.toList) n₂ ⟨rfl, 0, rfl⟩ (hG _ _ _ _ trivial rfl rfl rfl)
  have h₇ := h₆.act 0 rfl (.ok ()) n₃ (.inl ⟨rfl, rfl⟩) (hG _ _ _ _ trivial rfl rfl rfl)
  have h₈ := h₇.act 0 rfl (.error (.transient "busy")) n₃ ⟨⟨some (.transient "busy"), rfl⟩, rfl⟩
    (hG _ _ _ _ trivial rfl rfl rfl)
  · obtain ⟨c, hc, hended, hmaster⟩ : ∃ c : CeremonyConfig,
        Overseen (ceremonies (sampleWorld sampleWrapped)) (inStep (sampleWorld sampleWrapped))
          sampleNewMachine c ∧
        (∀ t ∈ c.tasks, t.Ended) ∧ c.state.keychain masterItem = some sampleKey.toList := by
      refine ⟨_, h₈, fun t ht => ?_, rfl⟩
      rw [List.mem_singleton.mp ht]
      exact ⟨_, rfl⟩
    exact ⟨c, hc, hended, hmaster, pair_opens _ (sampleWorld_lawful _) _ (opens_of_none rfl) c hc hended⟩
  · obtain rfl := Option.some.inj hm
    refine ⟨_, List.mem_cons_self, ?_⟩
    dsimp only
    rw [Monitor.after_concat, Monitor.after_concat, Monitor.after_concat]
    refine ⟨rfl, rfl, ?_⟩
    rintro (hrefused | ⟨-, master, vrk, -, e, he⟩)
    · exact hrefused
    · cases he
  · intro nonce hnonce
    cases hnonce

section Pair

variable {S : System Node NodeOp (Except NodeError NodeReply)} {G : CeremonyConfig → Guard Node NodeOp}
  {n₀ n : Node} {β : Type} {op : NodeOp β} {k : β → Prog NodeOp (Except NodeError NodeReply)}
  {p : Prog NodeOp (Except NodeError NodeReply)} {hist : List (Event NodeOp)}
  {t : Task NodeOp (Except NodeError NodeReply)}

/-- The first of two tasks takes a step. -/
theorem act_first (h : Overseen S G n₀ ⟨n, [⟨p, .act op k, hist⟩, t]⟩) (r : β) (n' : Node)
    (hx : S.exec op n r n') (hg : G ⟨n, [⟨p, .act op k, hist⟩, t]⟩ hist n ⟨op, r⟩) :
    Overseen S G n₀ ⟨n', [⟨p, k r, hist ++ [⟨op, r⟩]⟩, t]⟩ := h.act 0 rfl r n' hx hg

/-- The second of them does. -/
theorem act_second (h : Overseen S G n₀ ⟨n, [t, ⟨p, .act op k, hist⟩]⟩) (r : β) (n' : Node)
    (hx : S.exec op n r n') (hg : G ⟨n, [t, ⟨p, .act op k, hist⟩]⟩ hist n ⟨op, r⟩) :
    Overseen S G n₀ ⟨n', [t, ⟨p, k r, hist ++ [⟨op, r⟩]⟩]⟩ := h.act 1 rfl r n' hx hg

end Pair

/-- **Two recoveries that overlap** leave the master key of one with the root key wrapped under that of
the other. -/
theorem overlapping_recoveries_mismatch : ¬ ∀ (W : World), W.Lawful → ∀ n₀ : Node,
    Opens W n₀.keychain → ∀ c : CeremonyConfig,
      Overseen (ceremonies W) (fun _ _ _ e => deletesSucceed e) n₀ c → (∀ t ∈ c.tasks, t.Ended) →
        Opens W c.state.keychain := by
  intro hclaim
  let other : Key := Vector.replicate 32 9
  let n₁ := sampleNewMachine.setKeychain masterItem (some sampleKey.toList)
  let n₂ := n₁.setKeychain masterItem (some other.toList)
  let n₃ := n₂.setKeychain wrapItem (some (sampleWrapUnder other))
  let n₄ := n₃.setKeychain (keychainService, accountVrkRecovery) (some sampleKey.toList)
  let n₅ := n₄.setKeychain wrapItem (some (sampleWrapUnder sampleKey))
  let n₆ := n₅.setKeychain (keychainService, accountVrkRecovery) (some sampleKey.toList)
  have hG : Lenient fun _ _ _ e => deletesSucceed e := fun _ _ _ _ hdel _ _ _ => hdel
  have h₀ := Overseen.here (ceremonies (sampleWorld sampleWrapped)) (fun _ _ _ e => deletesSucceed e)
    sampleNewMachine
  have h₁ := (h₀.start _ (.recover sampleRecover)).start _ (.recover sampleRecover)
  obtain ⟨hist, -, h₂⟩ := recovery_reads (i := 0) hG h₁ rfl
  obtain ⟨hist', -, h₃⟩ := recovery_reads (i := 1) hG h₂ rfl
  -- The first stores its master key, the second its own and all that follows.
  have h₄ := act_first h₃ sampleKey sampleNewMachine rfl trivial
  have h₅ := act_first h₄ (.ok ()) n₁ (.inl ⟨rfl, rfl⟩) trivial
  have h₆ := act_second h₅ other n₁ rfl trivial
  have h₇ := act_second h₆ (.ok ()) n₂ (.inl ⟨rfl, rfl⟩) trivial
  have h₈ := act_second h₇ (Vector.replicate 24 0) n₂ rfl trivial
  have h₉ := act_second h₈ (.ok ()) n₃ (.inl ⟨rfl, rfl⟩) trivial
  have h₁₀ := act_second h₉ (.ok sampleKey.toList) n₃ ⟨rfl, 0, rfl⟩ trivial
  have h₁₁ := act_second h₁₀ (.ok ()) n₄ (.inl ⟨rfl, rfl⟩) trivial
  have h₁₂ := act_second h₁₁ (.error (.transient "busy")) n₄
    ⟨⟨some (.transient "busy"), rfl⟩, rfl⟩ trivial
  -- Then the first wraps the root key under its master key.
  have h₁₃ := act_first h₁₂ (Vector.replicate 24 0) n₄ rfl trivial
  have h₁₄ := act_first h₁₃ (.ok ()) n₅ (.inl ⟨rfl, rfl⟩) trivial
  have h₁₅ := act_first h₁₄ (.ok sampleKey.toList) n₅ ⟨rfl, 0, rfl⟩ trivial
  have h₁₆ := act_first h₁₅ (.ok ()) n₆ (.inl ⟨rfl, rfl⟩) trivial
  have h₁₇ := act_first h₁₆ (.error (.transient "busy")) n₆
    ⟨⟨some (.transient "busy"), rfl⟩, rfl⟩ trivial
  have hopens := hclaim _ (sampleWorld_lawful _) _ (opens_of_none rfl) _ h₁₇
    (by
      intro t ht
      rcases List.mem_cons.mp ht with rfl | ht
      · exact ⟨_, rfl⟩
      · rw [List.mem_singleton.mp ht]
        exact ⟨_, rfl⟩)
  exact hopens other.toList (sampleWrapUnder sampleKey) rfl rfl rfl

end MerkleVault.App.KeychainPairing
