import MerkleVault.App.RecoveryOutcome

/-! # Unsealed Implies Keyed

An unseal publishes the audit key before it flips the state to `Unsealed`, so that an unsealed vault
always has its key.  The key and the state sit behind two locks, though, and each command changes
both, one after the other: between its first change and its last a command is in its window.  A seal
clears the key while the vault is still unsealed, and within the window of one command another may
clear or replace the key.

* `unseal_conforms`, `seal_conforms`, `recover_conforms`: the windows of the commands;
* `Watched.step`: what one step keeps while windows do not overlap;
* `keyed_outside_windows`: the law in every interleaving without overlap and without a failed read
  of the pinned head, but for the windows of seals and recoveries;
* `failed_seal_leaves_vault_keyless`: a seal alone breaks it. -/

namespace MerkleVault.App.UnsealedKeyed

open MerkleVault.Types MerkleVault.Lib.Program MerkleVault.Identity MerkleVault.Audit.Integrity
open MerkleVault.Audit.Writer MerkleVault.Sqlite.Tables MerkleVault.App.Context
open MerkleVault.App.Lifecycle MerkleVault.App.AuditDurability MerkleVault.App.IdentitySections
open MerkleVault.App.RecoveryOutcome

variable (E : Env)

/-- The unsealed vault holds its root key, and the published key is the one derived from it. -/
def Keyed (s : AppState) : Prop :=
  s.identity.state = .unsealed →
    ∃ vrk, s.identity.vaultRootKey = some vrk ∧ s.hmacKey = some (deriveAuditHmacKey E vrk)

variable {E}

theorem Keyed.of_eq {s s' : AppState} (hid : s'.identity = s.identity)
    (hkey : s'.hmacKey = s.hmacKey) : Keyed E s' ↔ Keyed E s := by
  unfold Keyed
  rw [hid, hkey]

theorem keyed_of_not_unsealed {s : AppState} (h : s.identity.state ≠ .unsealed) : Keyed E s :=
  fun hu => absurd hu h

/-- In the unsealed state with a given root key the law is about that key. -/
theorem keyed_unsealed_iff {s : AppState} {vrk : Key} (h : s.identity = ⟨.unsealed, some vrk⟩) :
    Keyed E s ↔ s.hmacKey = some (deriveAuditHmacKey E vrk) := by
  unfold Keyed
  rw [h]
  simp

/-! ### The window of a command -/

/-- What a command has changed of the key and the state, and is still to change. -/
inductive Phase
  /-- Nothing is changed, or all is. -/
  | idle
  /-- An unseal has begun. -/
  | began
  /-- It has published the audit key, and the state is still to follow. -/
  | published (key : Key)
  /-- It has failed, and the audit key is still to be cleared. -/
  | reverting
  /-- A recovery has published its audit key, and the state is still to follow. -/
  | installing (key : Key)
  /-- A seal has cleared the audit key, and the state is still to follow. -/
  | cleared

/-- The key and the state are in step, or the vault is not unsealed. -/
def Phase.Covered : Phase → Prop
  | .cleared => False
  | .installing _ => False
  | _ => True

/-- The phase after a method of the identity. -/
def Phase.nextIdentity (p : Phase) {β : Type} : IdentityOp β → β → Phase
  | .isUnsealed, _ => p
  | .beginUnseal _, .ok false => .began
  | .beginUnseal _, _ => p
  | .completeUnseal _, .ok _ => .idle
  | .completeUnseal _, .error _ => .reverting
  | .rollbackUnsealing, _ => .reverting
  | .sealVault, _ => .idle
  | .recover _, _ => .idle

/-- The phase after a write of the audit key. -/
def Phase.write : Phase → Option Key → Phase
  | .began, some key => .published key
  | _, some key => .installing key
  | .idle, none => .cleared
  | _, none => .idle

/-- The phase after an action. -/
def Phase.next (p : Phase) {β : Type} : Op β → β → Phase
  | .identity o, r => p.nextIdentity o r
  | .writeHmacKey key, _ => p.write key
  | _, _ => p

variable (E)

/-- The state flips only after the audit key of the root key was published, and a seal ends only
after the key was cleared. -/
def mayTakeIdentity (p : Phase) {β : Type} : IdentityOp β → Prop
  | .isUnsealed => True
  | .beginUnseal _ => p = .idle
  | .completeUnseal vrk => p = .published (deriveAuditHmacKey E vrk)
  | .rollbackUnsealing => p = .began
  | .sealVault => p = .cleared
  | .recover vrk => p = .installing (deriveAuditHmacKey E vrk)

/-- When the audit key may be written or cleared. -/
def mayWrite (p : Phase) : Option Key → Prop
  | some _ => p = .idle ∨ p = .began
  | none => p = .idle ∨ p = .reverting

/-- What a command may do in its phase. -/
def mayTake (p : Phase) {β : Type} : Op β → Prop
  | .identity o => mayTakeIdentity E p o
  | .writeHmacKey key => mayWrite p key
  | _ => True

/-- A seal's read of the pinned head succeeds. -/
def headRead (p : Phase) {β : Type} : Query β → Except StorageError β → Prop
  | .pinnedHead, r => p = .cleared → r.isOk = true
  | _, _ => True

/-- The read of the pinned head does not fail after the key was cleared. -/
def headReads (p : Phase) {β : Type} : Op β → β → Prop
  | .query q, r => headRead p q r
  | _, _ => True

/-- The rules of one command, by its phase. -/
def watch : Monitor Op Phase where
  init := .idle
  allowed p op := mayTake E p op
  expects p op r := headReads p op r
  next p op r := p.next op r

/-- The rules alone. -/
abbrev watchRules : Rules Op Phase := (watch E).rules

variable {E}

theorem leavesKeys_allowed {β : Type} {op : Op β} (h : leavesKeys op) (p : Phase) :
    mayTake E p op := by
  cases op with
  | identity o =>
    cases o with
    | isUnsealed => trivial
    | _ => exact h.elim
  | writeHmacKey key => exact h.elim
  | _ => trivial

theorem leavesKeys_next {β : Type} {op : Op β} (h : leavesKeys op) (p : Phase) (r : β) :
    p.next op r = p := by
  cases op with
  | identity o =>
    cases o with
    | isUnsealed => rfl
    | _ => exact h.elim
  | writeHmacKey key => exact h.elim
  | _ => rfl

theorem leavesKeys_of_records {β : Type} {op : Op β} (h : records op) : leavesKeys op := by
  cases op with
  | identity o => exact h.elim
  | writeHmacKey key => exact h.elim
  | _ => trivial

theorem leavesKeys_of_reads {β : Type} {op : Op β} (h : UnsealRoutes.reads op) : leavesKeys op := by
  cases op with
  | port p => trivial
  | _ => exact h.elim

theorem leavesKeys_of_readsBackup {β : Type} {op : Op β} (h : readsBackup op) : leavesKeys op := by
  cases op with
  | port p => trivial
  | _ => exact h.elim

section Commands

variable {p : Phase}

/-- A program of actions that leave the keys. -/
theorem leavesKeys_stays {α : Type} {x : Prog Op α} (hx : Only leavesKeys x) :
    Wp (watchRules E) x p fun p' _ => p' = p := by
  refine wp_of_only (fun hop _ => leavesKeys_allowed hop _) ?_ hx rfl
  rintro β op p₁ p₂ r hop rfl ⟨-, rfl⟩
  exact leavesKeys_next hop _ r

/-- It stands before the rest of a command, or ends it. -/
theorem wp_leavesKeys_bind {α β : Type} {x : Handler α} {f : α → Handler β}
    {Q : Phase → Except AppError β → Prop} (hx : Only leavesKeys x.run)
    (hok : ∀ a, Wp (watchRules E) (f a).run p Q) (herr : ∀ e, Q p (.error e)) :
    Wp (watchRules E) (x >>= f).run p Q := by
  refine wp_except_bind.mpr ((leavesKeys_stays hx).mono ?_)
  rintro _ r rfl
  cases r with
  | ok a => exact hok a
  | error e => exact herr e

theorem only_requireUnsealed : Only leavesKeys requireUnsealed.run := by
  refine only_except_bind (only_call trivial) fun b => ?_
  cases b with
  | true => exact only_pure _
  | false => exact only_throw _

theorem only_auditCommit (params : AppendParams) (key : Key) :
    Only leavesKeys (auditCommit params key).run := only_attempt trivial

theorem only_newNamespaceId : Only leavesKeys newNamespaceId.run :=
  only_except_bind (only_call trivial) fun _ => only_pure _

theorem only_auditSeal (key : Option Key) : Only leavesKeys (auditSeal key).run := by
  cases key with
  | none => exact only_pure _
  | some key =>
    refine only_except_bind only_newNamespaceId fun ns => ?_
    exact only_except_bind (only_resultOf (only_auditCommit _ _)) fun _ => only_pure _

/-- The audit key that an unseal fetches is the one derived from the root key. -/
theorem fetched_derives (route : Option String) :
    Wp (watchRules E) (fetchKeyMaterial E route).run p fun p' r => p' = p ∧
      ∀ vrk hmacKey method, r = .ok (vrk, hmacKey, method) → hmacKey = deriveAuditHmacKey E vrk := by
  refine wp_leavesKeys_bind ((UnsealRoutes.only_loadMasterKey E route).mono leavesKeys_of_reads)
    (fun _ => ?_) fun _ => ⟨rfl, nofun⟩
  refine wp_leavesKeys_bind (only_attempt trivial) (fun _ => ?_) fun _ => ⟨rfl, nofun⟩
  refine wp_leavesKeys_bind (only_ofExcept _ _) (fun _ => ?_) fun _ => ⟨rfl, nofun⟩
  refine wp_leavesKeys_bind (only_orThrow _ _) (fun _ => ?_) fun _ => ⟨rfl, nofun⟩
  refine wp_leavesKeys_bind (only_ofExcept _ _) (fun _ => ?_) fun _ => ⟨rfl, nofun⟩
  refine wp_leavesKeys_bind (only_orThrow _ _) (fun vrk => ⟨rfl, ?_⟩) fun _ => ⟨rfl, nofun⟩
  rintro _ _ _ hr
  obtain ⟨rfl, hrest⟩ := Prod.mk.inj (Except.ok.inj hr)
  exact (Prod.mk.inj hrest).1.symm

/-- **An unseal** publishes the audit key of the root key before it flips the state. -/
theorem unseal_conforms (cmd : UnsealVaultCommand) :
    Conforms (watch E) (cmd.execute E).run .idle fun p' _ => p' = .idle := by
  refine wp_except_bind.mpr (wp_attempt.mpr ⟨rfl, ?_⟩)
  rintro r _ ⟨-, rfl⟩
  match r with
  | .error e => rfl
  | .ok true => rfl
  | .ok false =>
    refine wp_except_bind.mpr (wp_resultOf.mpr ((fetched_derives cmd.passphrase).mono ?_))
    rintro _ r ⟨rfl, hderived⟩
    match r with
    | .error e =>
      refine wp_except_bind.mpr (wp_except_bind.mpr (wp_call.mpr ⟨rfl, ?_⟩))
      rintro _ _ ⟨-, rfl⟩
      refine wp_call.mpr ⟨.inr rfl, ?_⟩
      rintro _ _ ⟨-, rfl⟩
      rfl
    | .ok (vrk, hmacKey, method) =>
      obtain rfl := hderived _ _ _ rfl
      refine wp_except_bind.mpr (wp_except_bind.mpr (wp_call.mpr ⟨.inr rfl, ?_⟩))
      rintro _ _ ⟨-, rfl⟩
      refine wp_except_bind.mpr (wp_call.mpr ⟨rfl, ?_⟩)
      rintro r _ ⟨-, rfl⟩
      cases r with
      | error e =>
        refine wp_except_bind.mpr (wp_call.mpr ⟨.inr rfl, ?_⟩)
        rintro _ _ ⟨-, rfl⟩
        rfl
      | ok _ =>
        refine wp_leavesKeys_bind only_newNamespaceId (fun _ => ?_) fun _ => rfl
        exact wp_leavesKeys_bind (only_auditCommit _ _) (fun _ => rfl) fun _ => rfl

/-- **A seal** clears the key, and ends sealed when the pinned head is read. -/
theorem seal_conforms : Conforms (watch E) sealVaultExecute.run .idle fun p' _ => p' = .idle := by
  refine wp_leavesKeys_bind only_requireUnsealed (fun _ => ?_) fun _ => rfl
  have hread : leavesKeys Op.readHmacKey := trivial
  refine wp_leavesKeys_bind (only_call hread) (fun key => ?_) fun _ => rfl
  refine wp_leavesKeys_bind (only_auditSeal key) (fun _ => ?_) fun _ => rfl
  refine wp_except_bind.mpr (wp_call.mpr ⟨.inl rfl, ?_⟩)
  rintro _ _ ⟨-, rfl⟩
  refine wp_except_bind.mpr (wp_attempt.mpr ⟨trivial, ?_⟩)
  rintro r _ ⟨hreads, rfl⟩
  have hok : r.isOk = true := hreads rfl
  cases r with
  | error e => cases hok
  | ok pinned =>
    refine wp_except_bind.mpr (wp_call.mpr ⟨trivial, ?_⟩)
    rintro _ _ ⟨-, rfl⟩
    refine wp_except_bind.mpr (wp_attempt.mpr ⟨rfl, ?_⟩)
    rintro r _ ⟨-, rfl⟩
    cases r with
    | error e => rfl
    | ok _ => rfl

theorem only_storeOrUndo (account : String) (value : List UInt8) (undo : List String) :
    Only leavesKeys (storeOrUndo account value undo).run := by
  refine only_except_bind (only_call trivial) fun r => ?_
  cases r with
  | ok _ => exact only_pure _
  | error e =>
    refine only_except_bind ?_ fun _ => only_throw _
    induction undo with
    | nil => exact only_pure _
    | cons account accounts ih =>
      exact only_except_bind (only_except_bind (only_call trivial) fun _ => only_pure _) fun _ => ih

theorem only_rewrap (vrk : Key) (storedPubkey : String) :
    Only leavesKeys (rewrap E vrk storedPubkey).run := by
  refine only_except_bind (only_call trivial) fun master => ?_
  refine only_except_bind (only_attempt trivial) fun _ => ?_
  refine only_except_bind (only_call trivial) fun nonce => ?_
  refine only_except_bind (only_ofExcept _ _) fun wrapped => ?_
  refine only_except_bind (only_storeOrUndo _ _ _) fun _ => ?_
  refine only_except_bind (only_attempt trivial) fun forRecovery => ?_
  exact only_storeOrUndo _ _ _

/-- **A recovery** publishes the audit key of the root key before the section that unseals with it. -/
theorem recover_conforms (cmd : DisasterRecoverCommand) :
    Conforms (watch E) (cmd.execute E).run .idle fun p' _ => p' = .idle := by
  unfold DisasterRecoverCommand.execute
  split_ifs
  · exact rfl
  · exact rfl
  have hpubkey : leavesKeys (Op.port .recoveryPubkey) := trivial
  refine wp_leavesKeys_bind (only_call hpubkey) (fun storedPubkey => ?_) fun _ => rfl
  refine wp_leavesKeys_bind ((only_recoveryIdentityMatches _ _).mono leavesKeys_of_readsBackup)
    (fun matched => ?_) fun _ => rfl
  cases matched with
  | false =>
    exact wp_leavesKeys_bind (only_auditFingerprintMismatch.mono leavesKeys_of_records)
      (fun _ => rfl) fun _ => rfl
  | true =>
    refine wp_leavesKeys_bind ((only_readBackup cmd).mono leavesKeys_of_readsBackup)
      (fun read => ?_) fun _ => rfl
    refine wp_leavesKeys_bind (only_rewrap _ _) (fun _ => ?_) fun _ => rfl
    refine wp_leavesKeys_bind ((only_rehydrate _ _).mono leavesKeys_of_records)
      (fun restored => ?_) fun _ => rfl
    refine wp_except_bind.mpr (wp_call.mpr ⟨.inl rfl, ?_⟩)
    rintro _ _ ⟨-, rfl⟩
    refine wp_except_bind.mpr (wp_attempt.mpr ⟨rfl, ?_⟩)
    rintro r _ ⟨-, rfl⟩
    cases r with
    | error e => rfl
    | ok _ =>
      refine wp_leavesKeys_bind only_newNamespaceId (fun _ => ?_) fun _ => rfl
      exact wp_leavesKeys_bind (only_auditCommit _ _) (fun _ => rfl) fun _ => rfl

end Commands

/-! ### Steps and runs -/

/-- What is there while a command is in its window. -/
def Fits (s : AppState) : Phase → Prop
  | .began => s.identity.state = .unsealing
  | .published key => s.identity.state = .unsealing ∧ s.hmacKey = some key
  | .reverting => s.identity.state ≠ .unsealed
  | .installing key => s.hmacKey = some key
  | _ => True

/-- One command at most is in its window, which fits what is there; and the law holds, unless that
is the window of a seal or of a recovery. -/
structure Watched (E : Env) (s : AppState) (ps : List Phase) : Prop where
  alone : ∀ (i j : ℕ) (p q : Phase), ps[i]? = some p → ps[j]? = some q → p ≠ .idle → q ≠ .idle →
    i = j
  fits : ∀ p ∈ ps, Fits s p
  keyed : (∀ p ∈ ps, p.Covered) → Keyed E s

section Steps

variable {s s' : AppState} {ps : List Phase} {i : ℕ} {p p' : Phase}

/-- A command enters its window, or goes on in it, while all others are outside. -/
theorem Watched.set (hi : ps[i]? = some p) (hothers : ∀ j q, ps[j]? = some q → j ≠ i → q = .idle)
    (hfits : Fits s' p') (hkeyed : p'.Covered → Keyed E s') : Watched E s' (ps.set i p') := by
  have hlt : i < ps.length := (List.getElem?_eq_some_iff.mp hi).1
  have hidle : ∀ j q, (ps.set i p')[j]? = some q → q ≠ .idle → j = i := by
    intro j q hj hq
    by_contra hne
    rw [List.getElem?_set_ne (Ne.symm hne)] at hj
    exact hq (hothers j q hj hne)
  refine ⟨fun j k q q' hj hk hq hq' => (hidle j q hj hq).trans (hidle k q' hk hq').symm, ?_, ?_⟩
  · intro q hq
    obtain ⟨j, hj⟩ := List.getElem?_of_mem hq
    by_cases hji : j = i
    · rw [hji, List.getElem?_set_self hlt] at hj
      rw [← Option.some.inj hj]
      exact hfits
    · rw [List.getElem?_set_ne (Ne.symm hji)] at hj
      rw [hothers j q hj hji]
      trivial
  · exact fun hcovered => hkeyed (hcovered p' (List.mem_set hlt p'))

theorem Watched.others (h : Watched E s ps) (hi : ps[i]? = some p) (hp : p ≠ .idle) :
    ∀ j q, ps[j]? = some q → j ≠ i → q = .idle := by
  intro j q hj hne
  by_contra hq
  exact hne (h.alone j i q p hj hi hq hp)

/-- The key and the state are left alone. -/
theorem Watched.same (h : Watched E s ps) (hi : ps[i]? = some p) (hid : s'.identity = s.identity)
    (hkey : s'.hmacKey = s.hmacKey) : Watched E s' (ps.set i p) := by
  have hset : ps.set i p = ps := by
    obtain ⟨hlt, rfl⟩ := List.getElem?_eq_some_iff.mp hi
    exact List.set_getElem_self hlt
  rw [hset]
  refine ⟨h.alone, fun q hq => ?_, fun hcovered => (Keyed.of_eq hid hkey).mpr (h.keyed hcovered)⟩
  have hfits := h.fits q hq
  cases q with
  | idle => trivial
  | cleared => trivial
  | began => exact (congrArg _ hid).trans hfits
  | published key => exact ⟨(congrArg _ hid).trans hfits.1, hkey.trans hfits.2⟩
  | reverting => exact fun hu => hfits ((congrArg _ hid).symm.trans hu)
  | installing key => exact hkey.trans hfits

/-- A command that starts is outside its window. -/
theorem Watched.start (h : Watched E s ps) : Watched E s (ps ++ [.idle]) := by
  have hold : ∀ {i : ℕ} {p : Phase}, (ps ++ [.idle])[i]? = some p → p ≠ .idle → ps[i]? = some p := by
    intro i p hi hp
    rcases Nat.lt_or_ge i ps.length with hlt | hge
    · rw [← hi, List.getElem?_append_left hlt]
    · rw [List.getElem?_append_right hge] at hi
      exact absurd (List.mem_singleton.mp (List.mem_of_getElem? hi)) hp
  refine ⟨fun i j p q hi hj hp hq => h.alone i j p q (hold hi hp) (hold hj hq) hp hq, ?_, ?_⟩
  · intro p hp
    rcases List.mem_append.mp hp with hp | hp
    · exact h.fits p hp
    · rw [List.mem_singleton.mp hp]
      trivial
  · exact fun hcovered => h.keyed fun p hp => hcovered p (List.mem_append_left _ hp)

theorem Watched.nil (h : Keyed E s) : Watched E s [] :=
  ⟨fun _ _ _ _ hi => (nomatch hi), fun _ hp => absurd hp List.not_mem_nil, fun _ => h⟩

/-- A section of the identity lock. -/
theorem Watched.identity (h : Watched E s ps) (hi : ps[i]? = some p) {β : Type} {o : IdentityOp β}
    {r : β} (hop : mayTakeIdentity E p o)
    (halone : p = .idle → p.nextIdentity o r ≠ .idle → ∀ q ∈ ps, q = .idle)
    (hr : r = (o.apply s.identity).1) :
    Watched E { s with identity := (o.apply s.identity).2 } (ps.set i (p.nextIdentity o r)) := by
  have hfits := h.fits p (List.mem_of_getElem? hi)
  cases o with
  | isUnsealed => exact h.same hi rfl rfl
  | beginUnseal pre =>
    obtain rfl : p = .idle := hop
    simp only [IdentityOp.apply] at hr ⊢
    split_ifs at hr ⊢ with hu
    · rw [hr]
      exact h.same hi rfl rfl
    split at hr
    · next i' hb =>
      rw [hr] at halone ⊢
      have hstate : i'.state = .unsealing := by rw [beginUnseal_ok hb]
      refine Watched.set hi (fun j q hj _ => ?_) ?_ fun _ => keyed_of_not_unsealed ?_
      · exact halone rfl (fun he => by cases he) q (List.mem_of_getElem? hj)
      · exact hstate
      · show i'.state ≠ .unsealed
        rw [hstate]
        decide
    · next e hb =>
      rw [hr]
      exact h.same hi rfl rfl
  | completeUnseal vrk =>
    obtain rfl : p = .published (deriveAuditHmacKey E vrk) := hop
    obtain ⟨hstate, hkey⟩ := hfits
    have hothers := h.others hi fun he => by cases he
    simp only [IdentityOp.apply] at hr ⊢
    split at hr
    · next i' hc =>
      rw [hr]
      refine Watched.set hi hothers trivial fun _ => ?_
      exact (keyed_unsealed_iff (completeUnseal_ok hc)).mpr hkey
    · next e hc =>
      rw [hr]
      have hne : (s.identity.revertToSealed.toOption.getD s.identity).state ≠ .unsealed := by
        rcases revertToSealed_getD s.identity with hi' | hi'
        · rw [hi']
          decide
        · rw [hi', hstate]
          decide
      exact Watched.set hi hothers hne fun _ => keyed_of_not_unsealed hne
  | rollbackUnsealing =>
    obtain rfl : p = .began := hop
    have hstate : s.identity.state = .unsealing := hfits
    have hne : (IdentityOp.rollbackUnsealing.apply s.identity).2.state ≠ .unsealed := by
      rcases rollbackUnsealing_staysOrLeaves s.identity with hi' | hi'
      · rw [hi', hstate]
        decide
      · exact hi'
    exact Watched.set hi (h.others hi fun he => by cases he) hne fun _ => keyed_of_not_unsealed hne
  | sealVault =>
    obtain rfl : p = .cleared := hop
    have hne : (IdentityOp.sealVault.apply s.identity).2.state ≠ .unsealed := by
      simp only [IdentityOp.apply]
      split
      · next i' hs =>
        show i'.state ≠ .unsealed
        rw [sealVault_ok hs]
        decide
      · next e hs =>
        intro hu
        unfold VaultIdentity.sealVault at hs
        rw [if_pos (.inl hu)] at hs
        cases hs
    refine Watched.set hi (h.others hi fun he => by cases he) trivial fun _ => ?_
    exact keyed_of_not_unsealed hne
  | recover vrk =>
    obtain rfl : p = .installing (deriveAuditHmacKey E vrk) := hop
    have hkey : s.hmacKey = some (deriveAuditHmacKey E vrk) := hfits
    refine Watched.set hi (h.others hi fun he => by cases he) trivial fun _ => ?_
    rcases recoverIdentity_cases s.identity vrk with ⟨-, hid⟩ | ⟨-, hne⟩
    · exact (keyed_unsealed_iff hid).mpr hkey
    · exact keyed_of_not_unsealed hne

/-- A write of the audit key. -/
theorem Watched.write (h : Watched E s ps) (hi : ps[i]? = some p) {key : Option Key}
    (hop : mayWrite p key) (halone : p = .idle → p.write key ≠ .idle → ∀ q ∈ ps, q = .idle) :
    Watched E { s with hmacKey := key } (ps.set i (p.write key)) := by
  have hfits := h.fits p (List.mem_of_getElem? hi)
  have henters : p = .idle → p.write key ≠ .idle → ∀ j q, ps[j]? = some q → j ≠ i → q = .idle :=
    fun hp hne j q hj _ => halone hp hne q (List.mem_of_getElem? hj)
  cases key with
  | some key =>
    rcases hop with rfl | rfl
    · exact Watched.set hi (henters rfl fun he => nomatch he) rfl fun hcovered => hcovered.elim
    · have hstate : s.identity.state = .unsealing := hfits
      refine Watched.set hi (h.others hi fun he => nomatch he) ⟨hstate, rfl⟩ fun _ => ?_
      refine keyed_of_not_unsealed ?_
      show s.identity.state ≠ .unsealed
      rw [hstate]
      decide
  | none =>
    rcases hop with rfl | rfl
    · exact Watched.set hi (henters rfl fun he => nomatch he) trivial fun hcovered => hcovered.elim
    · exact Watched.set hi (h.others hi fun he => nomatch he) trivial fun _ =>
        keyed_of_not_unsealed hfits

/-- **One step**, of a command that enters its window only while no other is in its own. -/
theorem Watched.step (h : Watched E s ps) (hi : ps[i]? = some p) {β : Type} {op : Op β} {r : β}
    (hop : mayTake E p op) (halone : p = .idle → p.next op r ≠ .idle → ∀ q ∈ ps, q = .idle)
    (hx : exec E.toCrates op s r s') : Watched E s' (ps.set i (p.next op r)) := by
  by_cases hleaves : leavesKeys op
  · obtain ⟨hid, hkey⟩ := exec_leavesKeys hleaves hx
    rw [leavesKeys_next hleaves]
    exact h.same hi hid hkey
  cases op with
  | identity o =>
    obtain ⟨hr, rfl⟩ := Prod.mk.inj hx
    exact h.identity hi hop halone hr
  | writeHmacKey key =>
    obtain rfl : s' = _ := hx
    exact h.write hi hop halone
  | _ => exact absurd trivial hleaves

end Steps

/-- The three lifecycle commands, with any input. -/
inductive LifecycleClient (E : Env) : Prog Op (Except AppError Reply) → Prop
  | unseal (cmd : UnsealVaultCommand) : LifecycleClient E (cmd.execute E).run
  | seal : LifecycleClient E sealVaultExecute.run
  | recover (cmd : DisasterRecoverCommand) : LifecycleClient E (cmd.execute E).run

/-- Every one of them ends outside its window. -/
theorem client_conforms : ∀ {x : Prog Op (Except AppError Reply)}, LifecycleClient E x →
    Conforms (watch E) x .idle fun p _ => p = .idle
  | _, .unseal cmd => unseal_conforms cmd
  | _, .seal => seal_conforms
  | _, .recover cmd => recover_conforms cmd

/-- The vault, the commands under way and what they have returned. -/
abbrev LifecycleConfig := Config AppState Op (Except AppError Reply)

/-- Where a command is in its window. -/
def phaseOf (E : Env) (t : Task Op (Except AppError Reply)) : Phase := (watch E).after t.hist

/-- Windows do not overlap: a command enters its own only while no other is in one.  And the read of
the pinned head does not fail once a seal has cleared the key. -/
def apart (E : Env) : LifecycleConfig → Guard AppState Op := fun c hist _ e =>
  ((watch E).after hist = .idle → ((watch E).after hist).next e.op e.res ≠ .idle →
    ∀ t ∈ c.tasks, phaseOf E t = .idle) ∧
  headReads ((watch E).after hist) e.op e.res

/-- **Unsealed implies keyed**, in every state of every run of unseals, seals, recoveries and restarts
whose windows do not overlap and whose seals read the pinned head, unless a seal or a recovery that
runs is in its window. -/
theorem keyed_outside_windows (E : Env) (s₀ : AppState) (h₀ : Keyed E s₀) (c : LifecycleConfig)
    (h : Overseen (agentSystem E.toCrates (LifecycleClient E)) (apart E) s₀ c)
    (hwindow : ∀ t ∈ c.tasks, ¬ t.Ended → (phaseOf E t).Covered) : Keyed E c.state := by
  obtain ⟨hwatched, hconf⟩ := h.rule (watch E) (fun _ p _ => p = .idle) (Watched E)
    (.nil h₀)
    (fun _ => client_conforms)
    Watched.start
    (fun hI hi hop hx ⟨halone, hreads⟩ => by
      refine ⟨hreads, hI.step hi hop (fun hidle hnext q hq => ?_) hx⟩
      obtain ⟨t, ht, rfl⟩ := List.mem_map.mp hq
      exact halone hidle hnext t ht)
    (fun {s s'} ps _ hs => by
      obtain rfl : s' = rebooted s := hs
      exact .nil (keyed_of_not_unsealed (by simp [rebooted, VaultIdentity.new])))
  refine hwatched.keyed fun p hp => ?_
  obtain ⟨t, ht, rfl⟩ := List.mem_map.mp hp
  by_cases hended : t.Ended
  · -- A command that has ended is outside its window.
    obtain ⟨r, hret⟩ := hended
    have hidle := hconf t ht
    rw [hret] at hidle
    have hphase : (watch E).after t.hist = .idle := hidle
    rw [hphase]
    trivial
  · exact hwindow t ht hended

/-! ### Runs of unseal and seal -/

/-- An unseal from a restart on, its key material in the keychain, and a seal that has started. -/
theorem unseal_keeps_vault_keyed : ∃ c : LifecycleConfig, c.state.identity.state = .unsealed ∧
    c.tasks.length = 2 ∧
    Overseen (agentSystem sampleEnv.toCrates (LifecycleClient sampleEnv)) (apart sampleEnv)
      (rebooted sampleState) c ∧
    Keyed sampleEnv c.state := by
  let s₀ := rebooted sampleState
  let s₁ : AppState := { s₀ with identity := ⟨.unsealing, none⟩ }
  let s₂ : AppState := { s₁ with hmacKey := some (deriveAuditHmacKey sampleEnv sampleKey) }
  let s₃ : AppState := { s₂ with identity := ⟨.unsealed, some sampleKey⟩ }
  have h₀ := Overseen.here (agentSystem sampleEnv.toCrates (LifecycleClient sampleEnv))
    (apart sampleEnv) s₀
  have h₁ := (h₀.start _ (.unseal sampleUnseal)).start _ .seal
  have h₂ := h₁.act 0 rfl (.ok false) s₁ rfl ⟨fun _ _ t ht => ?_, trivial⟩
  have h₃ := h₂.act 0 rfl (keychainService, accountMasterKey) s₁ rfl ⟨(fun h => nomatch h), trivial⟩
  have h₄ := h₃.act 0 rfl (.ok sampleKey.toList) s₁ rfl ⟨(fun h => nomatch h), trivial⟩
  have h₅ := h₄.act 0 rfl (.ok sampleWrap) s₁ rfl ⟨(fun h => nomatch h), trivial⟩
  have h₆ := h₅.act 0 rfl () s₂ rfl ⟨(fun h => nomatch h), trivial⟩
  have h₇ := h₆.act 0 rfl (.ok ()) s₃ rfl ⟨(fun h => nomatch h), trivial⟩
  have h₈ := h₇.act 1 rfl true s₃ rfl ⟨fun _ hne => absurd rfl hne, trivial⟩
  · refine ⟨_, rfl, rfl, h₈, keyed_outside_windows sampleEnv s₀ (keyed_of_not_unsealed (by decide)) _ h₈
      fun t ht _ => ?_⟩
    rcases List.mem_cons.mp ht with rfl | ht
    · trivial
    · rw [List.mem_singleton.mp ht]
      trivial
  · rcases List.mem_cons.mp ht with rfl | ht
    · rfl
    · rw [List.mem_singleton.mp ht]
      rfl

/-- A seal clears the key, then fails to read the pinned head and ends with that error: no command
is running, the vault is unsealed and has no key. -/
theorem failed_seal_leaves_vault_keyless : ∃ s₀ : AppState,
    ∃ c : Config AppState Op (Except AppError Reply), Keyed sampleEnv s₀ ∧
      Reachable (agentSystem sampleEnv.toCrates (LifecycleClient sampleEnv)) unguarded s₀ c ∧
      (∃ p e hist, c.tasks = [⟨p, .ret (.error e), hist⟩]) ∧ ¬ Keyed sampleEnv c.state := by
  let u : Uuid := Vector.replicate 16 1
  let s₁ : AppState := { sampleState with issued := [u] }
  obtain ⟨s₂, hx, -⟩ := first_commit sampleCrates
    { op := .seal, outcome := .allow, namespaceId := ⟨u⟩, callerProgram := agent } sampleKey
    (sampleCall 1).draw s₁ rfl
  have h₀ := Reachable.here (agentSystem sampleEnv.toCrates (LifecycleClient sampleEnv)) unguarded
    sampleState
  have h₁ := h₀.start _ .seal
  have h₂ := h₁.act 0 rfl true sampleState rfl trivial
  have h₃ := h₂.act 0 rfl (some sampleKey) sampleState ⟨rfl, rfl⟩ trivial
  have h₄ := h₃.act 0 rfl u s₁ ⟨List.not_mem_nil, rfl⟩ trivial
  have h₅ := h₄.act 0 rfl (.ok ()) s₂ ⟨_, _, hx⟩ trivial
  have h₆ := h₅.act 0 rfl () { s₂ with hmacKey := none } rfl trivial
  have h₇ := h₆.act 0 rfl (.error (.transient "busy")) { s₂ with hmacKey := none }
    ⟨rfl, some (.transient "busy"), rfl⟩ trivial
  refine ⟨sampleState, _, fun _ => ⟨sampleKey, rfl, rfl⟩, h₇, ⟨_, _, _, rfl⟩, ?_⟩
  intro hk
  have hu : s₂.identity.state = .unsealed := by rw [(auditCommitSection_frame hx).1]; rfl
  obtain ⟨vrk, -, hnone⟩ := hk hu
  cases hnone

end MerkleVault.App.UnsealedKeyed
