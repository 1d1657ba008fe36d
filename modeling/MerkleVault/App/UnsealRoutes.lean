import MerkleVault.App.KeyMaterial

/-! # Unsealing by Either Route

A sealed vault is unsealed through the keychain or through a passphrase, and what it is unsealed with
is what the keychain yields by that route.

* `unseal_watched`: whatever happens, an unsealed vault has the root key that the keychain yields;
* `unseals_iff`: a sealed vault can be unsealed by a route with what the keychain yields by it, and
  with nothing else. -/

namespace MerkleVault.App.UnsealRoutes

open MerkleVault.Types MerkleVault.Lib.Program MerkleVault.Identity MerkleVault.App.Context
open MerkleVault.App.Lifecycle MerkleVault.App.Host MerkleVault.App.Restore
open MerkleVault.App.IdentitySections MerkleVault.App.KeyMaterial

variable {W : World} {n : Node}

/-! ### What an unseal ends with -/

/-- The vault gets unsealed with the root key, its audit key published. -/
def Unseals (W : World) (n : Node) (cmd : UnsealVaultCommand) (vrk : Key) : Prop :=
  ∃ n', Visits (appExec W) (cmd.execute W.toEnv).run n n' ∧
    n'.app.identity = ⟨.unsealed, some vrk⟩ ∧ n'.app.hmacKey = some (deriveAuditHmacKey W.toEnv vrk)

/-- An unsealed vault has the root key that the keychain yields. -/
def Opened (W : World) (K : Keychain) (route : Option String) (m : Node) : Prop :=
  m.app.identity.state = .unsealed → ∃ vrk, m.app.identity.vaultRootKey = some vrk ∧
    rootKey W K route = some vrk

theorem opened_of_not_unsealed {K : Keychain} {route : Option String} {m : Node}
    (h : m.app.identity.state ≠ .unsealed) : Opened W K route m :=
  fun hu => absurd hu h

/-- A call of a port that an unseal reads with. -/
def readsPort {β : Type} : Port β → Prop
  | .keychainRetrieve _ _ => True
  | .masterKeyKeychainRef => True
  | .argon2idDerive _ _ => True
  | _ => False

/-- The actions of a fetch of key material. -/
def reads {β : Type} : Op β → Prop
  | .port p => readsPort p
  | _ => False

theorem reads_same {β : Type} {op : Op β} (hop : reads op) {n' : Node} {r : β}
    (hx : appExec W op n r n') : n' = n := by
  cases op with
  | port p =>
    cases p with
    | keychainRetrieve service account =>
      change portExec W (.keychainRetrieve service account) n r n' at hx
      exact keychainRetrieve_same hx
    | masterKeyKeychainRef => exact hx.1
    | argon2idDerive passphrase params => exact hx.1
    | _ => exact hop.elim
  | _ => exact hop.elim

theorem only_loadMasterViaPassphrase (E : Env) (passphrase : String) :
    Only reads (loadMasterViaPassphrase E passphrase).run := by
  unfold loadMasterViaPassphrase
  split_ifs
  · exact only_throw _
  refine only_except_bind (only_attempt trivial) fun json => ?_
  refine only_except_bind (only_ofExcept _ _) fun params => ?_
  refine only_except_bind (only_attempt trivial) fun kdfKey => ?_
  refine only_except_bind (only_attempt trivial) fun wrapB64 => ?_
  refine only_except_bind (only_ofExcept _ _) fun wrap => ?_
  refine only_except_bind (only_orThrow _ _) fun split => ?_
  exact only_except_bind (only_ofExcept _ _) fun master => only_orThrow _ _

theorem only_loadMasterKey (E : Env) (route : Option String) :
    Only reads (loadMasterKey E route).run := by
  cases route with
  | some passphrase =>
    exact only_except_bind (only_loadMasterViaPassphrase E passphrase) fun _ => only_pure _
  | none =>
    refine only_except_bind (only_call trivial) fun ref => ?_
    refine only_except_bind (only_attempt trivial) fun bytes => ?_
    exact only_except_bind (only_orThrow _ _) fun _ => only_pure _

theorem only_fetchKeyMaterial (E : Env) (route : Option String) :
    Only reads (fetchKeyMaterial E route).run := by
  refine only_except_bind (only_loadMasterKey E route) fun loaded => ?_
  refine only_except_bind (only_attempt trivial) fun wrappedB64 => ?_
  refine only_except_bind (only_ofExcept _ _) fun wrapped => ?_
  refine only_except_bind (only_orThrow _ _) fun split => ?_
  refine only_except_bind (only_ofExcept _ _) fun vrkVec => ?_
  exact only_except_bind (only_orThrow _ _) fun _ => only_pure _

/-- A fetch leaves the node, and what it returns is what the keychain yields. -/
theorem fetch_watched {I : Node → Prop} (hI : I n) (route : Option String) :
    Wp (watchedRules (appExec W) I) (fetchKeyMaterial W.toEnv route).run n fun m r => m = n ∧
      ∀ result, r = .ok result → rootKey W n.keychain route = some result.1 ∧
        result.2.1 = deriveAuditHmacKey W.toEnv result.1 := by
  have hreads : ReadsKeychain W n.keychain (watchedRules (appExec W) I) n :=
    { readsKeychain_node W n with allowed := fun _ => hI }
  have hsame := wp_of_only (R := watchedRules (appExec W) I) (I := fun m => m = n)
    (fun _ hm => by rw [hm]; exact hI)
    (fun hop hm hx => (reads_same hop hx).trans hm) (only_fetchKeyMaterial W.toEnv route) rfl
  refine (hsame.and (fetch_yields hreads route)).mono ?_
  rintro m r ⟨rfl, h⟩
  exact ⟨rfl, fun result hr => (h result hr).2⟩

/-- An action that leaves the lifecycle state and the root key. -/
theorem opened_step {K : Keychain} {route : Option String} {m m' : Node}
    (h : Opened W K route m) (hid : m'.app.identity = m.app.identity) : Opened W K route m' := by
  unfold Opened
  rw [hid]
  exact h

/-- Actions that leave the lifecycle state and the root key. -/
def leavesIdentity {β : Type} : Op β → Prop
  | .newUuid => True
  | .auditCommit _ _ => True
  | .readHmacKey => True
  | .writeHmacKey _ => True
  | .write _ => True
  | _ => False

theorem leavesIdentity_same {β : Type} {o : Op β} (hop : leavesIdentity o) {n' : Node} {r : β}
    (hx : appExec W o n r n') : n'.app.identity = n.app.identity := by
  have hexec := appExec_exec hx
  cases o with
  | newUuid => rw [hexec.2]
  | auditCommit params key =>
    obtain ⟨draw, fault, hcommit⟩ := hexec
    exact (auditCommitSection_frame hcommit).1
  | readHmacKey => rw [hexec.2]
  | writeHmacKey key => rw [show n'.app = _ from hexec]
  | write w =>
    obtain ⟨fault, hwrite⟩ := hexec
    rcases writeSection_eq hwrite with ⟨-, store, -, hs⟩ | ⟨-, hs⟩
    · rw [hs]
    · rw [hs]
  | _ => exact hop.elim

theorem completeUnseal_leaves {i : VaultIdentity} (hi : i.state ≠ .unsealed) (vrk : Key) :
    ((IdentityOp.completeUnseal vrk).apply i).2 = ⟨.unsealed, some vrk⟩ ∨
      ((IdentityOp.completeUnseal vrk).apply i).2.state ≠ .unsealed := by
  simp only [IdentityOp.apply]
  split
  · next i' hi' => exact .inl (completeUnseal_ok hi')
  · refine .inr ?_
    show (i.revertToSealed.toOption.getD i).state ≠ .unsealed
    rcases revertToSealed_staysOrLeaves i with h | h
    · rw [h]
      exact hi
    · exact h

/-- The end of an unseal: the audit key, the completion and the entry. -/
theorem commit_watched {K : Keychain} {route : Option String} {vrk hmacKey : Key}
    {method : UnsealKeyMethod} (hroot : rootKey W K route = some vrk)
    (hstate : n.app.identity.state ≠ .unsealed) :
    Wp (watchedRules (appExec W) (Opened W K route)) (do
      commitUnseal vrk hmacKey
      let ns ← newNamespaceId
      auditCommit { op := .unseal, outcome := .allow, namespaceId := ns, callerProgram := agent }
        hmacKey
      return .unsealed false method : Handler Reply).run n fun m _ => Opened W K route m := by
  refine wp_except_bind.mpr (wp_except_bind.mpr
    (wp_call.mpr ⟨opened_of_not_unsealed hstate, fun _ n₁ hx₁ => ?_⟩))
  have hid₁ : n₁.app.identity = n.app.identity :=
    leavesIdentity_same (o := .writeHmacKey (some hmacKey)) trivial hx₁
  have hopen₁ : Opened W K route n₁ := opened_step (opened_of_not_unsealed hstate) hid₁
  refine wp_except_bind.mpr (wp_call.mpr ⟨hopen₁, fun r n₂ hx₂ => ?_⟩)
  obtain ⟨-, happ⟩ := Prod.mk.inj (appExec_exec (W := W) (o := .identity (.completeUnseal vrk)) hx₂)
  have hopen₂ : Opened W K route n₂ := by
    unfold Opened
    rw [happ]
    rcases completeUnseal_leaves (hid₁ ▸ hstate) vrk with h | h
    · intro _
      refine ⟨vrk, ?_, hroot⟩
      show ((IdentityOp.completeUnseal vrk).apply n₁.app.identity).2.vaultRootKey = _
      rw [h]
    · exact fun hu => absurd hu h
  have hstays : ∀ {β : Type} {o : Op β} {m m' : Node} {r : β}, leavesIdentity o →
      Opened W K route m → appExec W o m r m' → Opened W K route m' :=
    fun hop hm hx => opened_step hm (leavesIdentity_same hop hx)
  cases r with
  | error e =>
    refine wp_except_bind.mpr (wp_call.mpr ⟨hopen₂, fun _ n₃ hx₃ => ?_⟩)
    exact hstays (o := .writeHmacKey none) trivial hopen₂ hx₃
  | ok _ =>
    refine wp_except_bind.mpr (wp_except_bind.mpr (wp_call.mpr ⟨hopen₂, fun u n₃ hx₃ => ?_⟩))
    have hopen₃ := hstays (o := .newUuid) trivial hopen₂ hx₃
    refine wp_except_bind.mpr (wp_attempt.mpr ⟨hopen₃, fun r n₄ hx₄ => ?_⟩)
    have hopen₄ := hstays (o := .auditCommit { op := .unseal, outcome := .allow, namespaceId := ⟨u⟩
                                               callerProgram := agent } hmacKey) trivial hopen₃ hx₄
    cases r with
    | error e => exact hopen₄
    | ok _ => exact hopen₄

/-- **Whatever happens**, an unsealed vault has the root key that the keychain yields. -/
theorem unseal_watched (cmd : UnsealVaultCommand) (hsealed : n.app.identity.state = .sealed) :
    Wp (watchedRules (appExec W) (Opened W n.keychain cmd.passphrase)) (cmd.execute W.toEnv).run n
      fun m _ => Opened W n.keychain cmd.passphrase m := by
  have hstate : n.app.identity.state ≠ .unsealed := by
    rw [hsealed]
    decide
  refine wp_except_bind.mpr (wp_attempt.mpr ⟨opened_of_not_unsealed hstate, fun r n₁ hx₁ => ?_⟩)
  obtain ⟨hr, happ⟩ := Prod.mk.inj
    (appExec_exec (W := W) (o := .identity (.beginUnseal cmd.preconditions)) hx₁)
  have hkeychain : n₁.keychain = n.keychain := by
    rw [appExec_frame (W := W) (o := .identity (.beginUnseal cmd.preconditions)) rfl hx₁]
  have hstate₁ : n₁.app.identity.state ≠ .unsealed := by
    rw [happ]
    rcases beginUnseal_staysOrLeaves cmd.preconditions n.app.identity with h | h
    · show ((IdentityOp.beginUnseal cmd.preconditions).apply n.app.identity).2.state ≠ _
      rw [h]
      exact hstate
    · exact h
  match r, hr with
  | .error e, _ => exact opened_of_not_unsealed hstate₁
  | .ok true, hr =>
    have hsealed' : n.app.identity.isUnsealed = false := by
      simp [VaultIdentity.isUnsealed, hsealed]
    simp only [IdentityOp.apply, hsealed', Bool.false_eq_true, if_false] at hr
    split at hr
    · cases hr
    · cases hr
  | .ok false, _ =>
    rw [← hkeychain]
    refine wp_except_bind.mpr (wp_resultOf.mpr
      ((fetch_watched (opened_of_not_unsealed hstate₁) cmd.passphrase).mono ?_))
    rintro m r ⟨rfl, hfetched⟩
    cases r with
    | ok result =>
      obtain ⟨vrk, hmacKey, method⟩ := result
      exact commit_watched (hfetched _ rfl).1 hstate₁
    | error e =>
      refine wp_except_bind.mpr (wp_except_bind.mpr
        (wp_call.mpr ⟨opened_of_not_unsealed hstate₁, fun _ n₂ hx₂ => ?_⟩))
      have hstate₂ : n₂.app.identity.state ≠ .unsealed := by
        rw [(Prod.mk.inj (appExec_exec (W := W) (o := .identity .rollbackUnsealing) hx₂)).2]
        rcases rollbackUnsealing_staysOrLeaves m.app.identity with h | h
        · show (IdentityOp.rollbackUnsealing.apply m.app.identity).2.state ≠ _
          rw [h]
          exact hstate₁
        · exact h
      refine wp_call.mpr ⟨opened_of_not_unsealed hstate₂, fun _ n₃ hx₃ => ?_⟩
      refine opened_of_not_unsealed ?_
      rw [leavesIdentity_same (W := W) (o := .writeHmacKey none) trivial hx₃]
      exact hstate₂

/-- **A sealed vault is unsealed with what its keychain yields**, and with nothing else. -/
theorem unseals_iff (cmd : UnsealVaultCommand) (hsealed : n.app.identity = ⟨.sealed, none⟩)
    (hpre : cmd.preconditions.validate = .ok ()) (vrk : Key) :
    Unseals W n cmd vrk ↔ rootKey W n.keychain cmd.passphrase = some vrk := by
  constructor
  · rintro ⟨n', hv, hid, -⟩
    have hopened := wp_visits (unseal_watched cmd (by rw [hsealed])) hv
    obtain ⟨vrk', hvrk', hroot⟩ := hopened (by rw [hid])
    rw [hid] at hvrk'
    obtain rfl := Option.some.inj hvrk'
    exact hroot
  · intro hroot
    let n₁ : Node := { n with app := { n.app with identity := ⟨.unsealing, none⟩ } }
    let n₂ : Node := { n₁ with app := { n₁.app with
      hmacKey := some (deriveAuditHmacKey W.toEnv vrk) } }
    let n₃ : Node := { n₂ with app := { n₂.app with identity := ⟨.unsealed, some vrk⟩ } }
    have hbegin : (IdentityOp.beginUnseal cmd.preconditions).apply n.app.identity =
        (.ok false, ⟨.unsealing, none⟩) := by
      rw [hsealed]
      simp [IdentityOp.apply, VaultIdentity.isUnsealed, VaultIdentity.beginUnseal,
        SealedState.canTransitionTo, hpre]
    obtain ⟨hist, method, hfetch⟩ := fetch_runs (n := n₁) hroot
    have hbeginRuns : Runs (appExec W) (attempt identityFault
        (.identity (.beginUnseal cmd.preconditions)) : Handler Bool).run n
        [⟨.identity (.beginUnseal cmd.preconditions), .ok false⟩] (.ok false) n₁ :=
      runs_attempt ⟨by show (_, _) = _; rw [hbegin], rfl⟩
    have hkeyRuns : Runs (appExec W) (call (.writeHmacKey (some (deriveAuditHmacKey W.toEnv vrk))) :
        Handler Unit).run n₁ [⟨.writeHmacKey (some (deriveAuditHmacKey W.toEnv vrk)), ()⟩] (.ok ()) n₂ :=
      runs_call ⟨rfl, rfl⟩
    have hcompleteRuns : Runs (appExec W) (call (.identity (.completeUnseal vrk)) :
        Handler (Except Identity.DomainError Unit)).run n₂
        [⟨.identity (.completeUnseal vrk), .ok ()⟩] (.ok (.ok ())) n₃ :=
      runs_call ⟨rfl, rfl⟩
    refine ⟨n₃, visits_ok_bind hbeginRuns (visits_ok_bind (runs_resultOf hfetch) ?_), rfl, rfl⟩
    exact visits_ok_bind (runs_ok_bind hkeyRuns (runs_ok_bind hcompleteRuns runs_pure)) visits_here

end MerkleVault.App.UnsealRoutes
