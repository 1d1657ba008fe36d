import MerkleVault.App.BackupCommands
import MerkleVault.App.Reveal

/-! # What a Restore Writes

A restore that returns has put, in the order of the backup, what its plan says of each secret, and
nothing else in the tables of secrets and versions.

* `executeRestore_yields`: the tables after a restore;
* `Snapshot`: the secrets that a backup holds. -/

namespace MerkleVault.App.Restore

open MerkleVault.Types MerkleVault.Lib.Program MerkleVault.Audit.Writer
open MerkleVault.Secrets.Aggregate MerkleVault.Sqlite.Tables MerkleVault.Sqlite.Versions
open MerkleVault.Sqlite.Reload
open MerkleVault.App.Context MerkleVault.App.Lifecycle MerkleVault.App.Host
open MerkleVault.App.BackupCommands MerkleVault.App.AuditDurability MerkleVault.App.Reveal
open MerkleVault.Audit.Integrity

/-! ### Actions of one client -/

/-- What the agent's commands may do, as rules. -/
abbrev nodeRules (W : World) : Rules NodeOp Node := execRules (nodeExec W)

/-- The actions of the context. -/
abbrev contextRules (W : World) : Rules Op Node := (nodeRules W).pull NodeOp.app

variable {W : World} {n : Node}

section Actions

variable {α δ : Type} {P : Node → α → Prop}

theorem yields_port {p : Port α} (h : ∀ r n', portExec W p n r n' → P n' r) :
    Yields (nodeRules W) (portCall p) n P :=
  yields_call trivial h

theorem yields_attemptPort {f : δ → NodeError} {p : Port (Except δ α)}
    (h : ∀ a n', portExec W p n (.ok a) n' → P n' a) :
    Yields (nodeRules W) (attempt f (.app (.port p))) n P :=
  yields_attempt trivial h

theorem yields_vault {op : VaultOp α} (h : ∀ r n', vaultExec op n r n' → P n' r) :
    Yields (nodeRules W) (vaultCall op) n P :=
  yields_call trivial h

theorem yields_storage {op : VaultOp (Except StorageError α)}
    (h : ∀ a n', vaultExec op n (.ok a) n' → P n' a) :
    Yields (nodeRules W) (storageCall op) n P :=
  yields_attempt trivial h

theorem yields_app {op : Op α} (h : ∀ r n', appExec W op n r n' → P n' r) :
    Yields (nodeRules W) (call (.app op) : NodeHandler α) n P :=
  yields_call trivial h

theorem yields_context {op : Op α} (h : ∀ r n', appExec W op n r n' → P n' r) :
    Yields (contextRules W) (call op : Handler α) n P :=
  yields_call trivial h

theorem yields_attemptContext {f : δ → AppError} {op : Op (Except δ α)}
    (h : ∀ a n', appExec W op n (.ok a) n' → P n' a) :
    Yields (contextRules W) (attempt f op) n P :=
  yields_attempt trivial h

/-- Nothing is said. -/
theorem yields_any {ε : Type} (x : Cmd NodeOp ε α) : Yields (nodeRules W) x n fun _ _ => True :=
  wp_of_forall (fun _ _ => trivial) fun _ _ _ _ => trivial

theorem yields_anyContext {ε : Type} (x : Cmd Op ε α) :
    Yields (contextRules W) x n fun _ _ => True :=
  wp_of_forall (fun _ _ => trivial) fun _ _ _ _ => trivial

end Actions

theorem requireUnsealed_yields : Yields (contextRules W) requireUnsealed n fun n' _ =>
    n' = n ∧ n.app.identity.isUnsealed = true := by
  refine yields_bind (yields_context fun b n' hx => ?_)
    (P := fun n' b => n' = n ∧ b = n.app.identity.isUnsealed) ?_
  · obtain ⟨hb, hs⟩ := Prod.mk.inj (appExec_exec hx)
    exact ⟨appExec_idle rfl hs hx, hb⟩
  · rintro n' b ⟨rfl, hb⟩
    cases b with
    | true => exact yields_pure ⟨rfl, hb.symm⟩
    | false => exact yields_throw _

theorem requireHmacKey_yields : Yields (contextRules W) requireHmacKey n fun n' key =>
    n' = n ∧ n.app.hmacKey = some key := by
  refine yields_bind (yields_context fun key n' hx => ?_)
    (P := fun n' key => n' = n ∧ key = n.app.hmacKey) ?_
  · obtain ⟨hkey, hs⟩ := appExec_exec hx
    exact ⟨appExec_idle rfl hs hx, hkey⟩
  · rintro n' key ⟨rfl, hkey⟩
    exact yields_orThrow fun k hk => ⟨rfl, hkey.symm.trans hk⟩

theorem query_yields {β : Type} (q : Query β) : Yields (contextRules W) (query q) n fun n' b =>
    n' = n ∧ b = q.answer n.app.store := by
  refine yields_attemptContext fun b n' hx => ?_
  obtain ⟨hs, fault, hb⟩ := appExec_exec hx
  exact ⟨appExec_idle rfl hs hx, (Except.ok.inj (faulty_ok hb.symm).2).symm⟩

theorem loadSecrets_yields : ∀ {rows : List SecretRow} {n : Node},
    Yields (contextRules W) (loadSecrets rows) n fun n' secrets =>
      n' = n ∧ secrets = rows.map (loaded n.app.store)
  | [], _ => yields_pure ⟨rfl, rfl⟩
  | row :: rows, n => by
    refine yields_bind (query_yields (.loadVersionsForSecret row.id)) ?_
    rintro n' versions ⟨rfl, rfl⟩
    refine yields_bind loadSecrets_yields ?_
    rintro n'' secrets ⟨rfl, rfl⟩
    exact yields_pure ⟨rfl, rfl⟩

theorem listSecrets_yields (id : NamespaceId) :
    Yields (nodeRules W) (listSecrets id) n fun n' secrets => n' = n ∧ ∃ rows : List SecretRow,
      rows.Perm (n.app.store.secrets.filter fun row => row.namespaceId = id) ∧
      secrets = rows.map (loaded n.app.store) := by
  refine yields_bind (yields_storage fun rows n' hx => ?_)
    (P := fun n' rows => n' = n ∧
      rows.Perm (n.app.store.secrets.filter fun row => row.namespaceId = id)) ?_
  · obtain ⟨rfl, fault, rows', ⟨hperm, -⟩, hrows⟩ := hx
    obtain rfl := Except.ok.inj (faulty_ok hrows.symm).2
    exact ⟨rfl, hperm⟩
  · rintro n' rows ⟨rfl, hperm⟩
    refine yields_embedded (loadSecrets_yields.mono ?_)
    rintro n'' secrets ⟨rfl, hsecrets⟩
    exact ⟨rfl, rows, hperm, hsecrets⟩

/-! ### Reading the artifact -/

/-- Only the keychain may have changed. -/
def SameButKeychain (n n' : Node) : Prop := n' = { n with keychain := n'.keychain }

theorem SameButKeychain.trans {n n' n'' : Node} (h : SameButKeychain n n')
    (h' : SameButKeychain n' n'') : SameButKeychain n n'' := by
  rw [SameButKeychain, h', h]

theorem keychainRetrieve_same {service account : String} {n' : Node}
    {r : Except KeychainError (List UInt8)}
    (hx : portExec W (.keychainRetrieve service account) n r n') : n' = n := by
  rcases hx with ⟨rfl, -⟩ | ⟨rfl, -⟩ <;> rfl

theorem keychainStore_same {service account : String} {value : List UInt8} {n' : Node}
    {r : Except KeychainFailure Unit} (hx : portExec W (.keychainStore service account value) n r n') :
    SameButKeychain n n' := by
  rcases hx with ⟨-, rfl⟩ | ⟨-, rfl⟩ <;> rfl

theorem ageText_yields (item start : String) (bytes : List UInt8) :
    Yields (nodeRules W) (ageText W item start bytes) n fun n' _ => n' = n := by
  refine yields_bind (yields_ofExcept fun _ _ => rfl) (P := fun n' _ => n' = n) ?_
  rintro n' text rfl
  dsimp only
  split_ifs
  · exact yields_throw _
  · exact yields_pure rfl

theorem loadMasterIdentity_yields :
    Yields (nodeRules W) (loadMasterIdentity W) n fun n' _ => SameButKeychain n n' := by
  refine yields_bind (P := fun n' _ => SameButKeychain n n') ?_ ?_
  · refine yields_bind (yields_port fun r n' hx => keychainRetrieve_same hx)
      (P := fun n' _ => n' = n) ?_
    rintro n' r rfl
    match r with
    | .ok bytes =>
      refine (ageText_yields _ _ bytes).mono ?_
      rintro n' _ rfl
      rfl
    | .error .notFound =>
      refine yields_bind (yields_vault fun _ n' hx => hx) (P := fun m _ => m = n') ?_
      rintro m identity rfl
      refine yields_bind (yields_attemptPort fun _ m hx => keychainStore_same hx) ?_
      intro m₁ _ h₁
      refine yields_bind (yields_attemptPort fun _ m hx => h₁.trans (keychainStore_same hx)) ?_
      exact fun m₂ _ h₂ => yields_pure h₂
    | .error .permissionDenied => exact yields_throw _
    | .error (.persistenceFailed _ _) => exact yields_throw _
    | .error (.backend _) => exact yields_throw _
  · intro n₁ _ h₁
    refine yields_bind (yields_port fun r n' hx => keychainRetrieve_same hx)
      (P := fun n' _ => n' = n₁) ?_
    rintro n' r rfl
    match r with
    | .ok bytes =>
      refine (ageText_yields _ _ bytes).mono ?_
      rintro n' _ rfl
      exact h₁
    | .error .notFound => exact yields_throw _
    | .error .permissionDenied => exact yields_throw _
    | .error (.persistenceFailed _ _) => exact yields_throw _
    | .error (.backend _) => exact yields_throw _

/-- The secrets are those that the artifact of the backup holds. -/
def HeldBy (W : World) (n : Node) (backup : Backup) (secrets : List Secret) : Prop :=
  ∃ ciphertext identity plaintext payload, n.files backup.artifactPath = some ciphertext ∧
    W.ageDecrypt identity ciphertext = .ok plaintext ∧ W.decodeBackup plaintext = .ok payload ∧
    payload.secrets = secrets

theorem readArtifact_yields (backup : Backup) (namespaceId : NamespaceId) :
    Yields (nodeRules W) (readArtifact W backup namespaceId) n fun n' result =>
      SameButKeychain n n' ∧ HeldBy W n backup result.2 := by
  refine yields_bind (yields_attemptPort fun ciphertext n' hx => ?_)
    (P := fun n' ciphertext => n' = n ∧ n.files backup.artifactPath = some ciphertext) ?_
  · obtain ⟨rfl, ⟨contents, hfile, hr⟩ | ⟨e, he⟩⟩ := hx
    · exact ⟨rfl, by rw [hfile, Except.ok.inj hr]⟩
    · cases he
  rintro n' ciphertext ⟨rfl, hfile⟩
  refine yields_bind (yields_embedded requireHmacKey_yields) ?_
  rintro n' key ⟨rfl, -⟩
  split_ifs with hmac
  · exact yields_bind (yields_any _) fun _ _ _ => yields_throw _
  refine yields_bind loadMasterIdentity_yields ?_
  intro n₁ identity h₁
  refine yields_bind (yields_attemptPort fun plaintext n₂ hx => ?_)
    (P := fun n₂ plaintext => n₂ = n₁ ∧ W.ageDecrypt identity ciphertext = .ok plaintext) ?_
  · exact ⟨hx.1, hx.2.symm⟩
  rintro n₂ plaintext ⟨rfl, hplain⟩
  refine yields_bind (yields_ofExcept fun payload hpayload => ⟨rfl, hpayload⟩)
    (P := fun n₃ payload => n₃ = n₂ ∧ W.decodeBackup plaintext = .ok payload) ?_
  rintro n₃ payload ⟨rfl, hpayload⟩
  exact yields_pure ⟨h₁, ciphertext, identity, plaintext, payload, hfile, hplain, hpayload, rfl⟩

/-! ### Writing the secrets -/

theorem write_yields (w : Write) : Yields (contextRules W) (write w) n fun n' _ =>
    ∃ store, w.apply n.app.store = .ok store ∧ n' = { n with app := { n.app with store := store } } := by
  refine yields_attemptContext fun _ n' hx => ?_
  obtain ⟨fault, hw⟩ := appExec_exec hx
  rcases writeSection_eq hw with ⟨-, store, hstore, happ⟩ | ⟨⟨e, he⟩, -⟩
  · refine ⟨store, hstore, ?_⟩
    rw [appExec_frame rfl hx, happ]
  · cases he

/-- What is written for the secrets of a backup, in order. -/
def writes (plan : RestorePlan) (live : List Handle) (secrets : List Secret) : List Secret :=
  secrets.filterMap (restoredAs plan live)

/-- The count stops at its largest value. -/
theorem saturating_succ (count : UInt32) :
    (if count = UInt32.ofNat (2 ^ 32 - 1) then count else count + 1).toNat =
      min (count.toNat + 1) (2 ^ 32 - 1) := by
  have hlt := count.toNat_lt
  have hmax : (UInt32.ofNat (2 ^ 32 - 1)).toNat = 2 ^ 32 - 1 := rfl
  split_ifs with h
  · rw [h, hmax]
    omega
  · have hne : count.toNat ≠ 2 ^ 32 - 1 := fun heq => h (UInt32.toNat_inj.mp (heq.trans hmax.symm))
    rw [UInt32.toNat_add]
    have hone : (1 : UInt32).toNat = 1 := rfl
    omega

theorem applySecrets_yields (plan : RestorePlan) (live : List Handle) :
    ∀ {secrets : List Secret} {count : UInt32} {n : Node},
      Yields (contextRules W) (applySecrets plan live secrets count) n fun n' restored =>
        ∃ store, (writes plan live secrets).foldlM Store.putSecret n.app.store = .ok store ∧
          n' = { n with app := { n.app with store := store } } ∧
          restored.toNat = min (count.toNat + (writes plan live secrets).length) (2 ^ 32 - 1)
  | [], count, n => by
    have hlt := count.toNat_lt
    refine yields_pure ⟨n.app.store, rfl, rfl, ?_⟩
    rw [writes, List.filterMap_nil, List.length_nil]
    omega
  | secret :: rest, count, n => by
    rw [applySecrets]
    cases h : restoredAs plan live secret with
    | none =>
      refine (applySecrets_yields plan live).mono fun n' _ hn' => ?_
      rwa [writes, List.filterMap_cons_none h]
    | some s =>
      refine yields_bind (write_yields (.putSecret s)) ?_
      rintro n₁ _ ⟨store₁, hput, rfl⟩
      refine (applySecrets_yields plan live).mono ?_
      rintro n' restored ⟨store, hrest, rfl, hcount⟩
      refine ⟨store, ?_, rfl, ?_⟩
      · rw [writes, List.filterMap_cons_some h, List.foldlM_cons,
          show Store.putSecret n.app.store s = .ok store₁ from hput]
        exact hrest
      · rw [hcount, saturating_succ, writes, writes, List.filterMap_cons_some h, List.length_cons]
        omega

/-- The handles that are live in a namespace. -/
def liveHandles (st : Store) (id : NamespaceId) : List Handle :=
  (st.secrets.filter fun row => row.namespaceId = id).map (·.handle)

theorem restoredAs_congr {plan : RestorePlan} {live live' : List Handle}
    (h : ∀ handle, handle ∈ live ↔ handle ∈ live') (secret : Secret) :
    restoredAs plan live secret = restoredAs plan live' secret := by
  unfold restoredAs
  split
  · rfl
  · rfl
  · rfl
  · simp only [h]
  · rfl

/-! ### What a backup holds -/

/-- The secrets of a namespace of some store, as JSON holds them. -/
def Snapshot (secrets : List Secret) : Prop :=
  ∃ (st : Store) (id : NamespaceId) (rows : List SecretRow), Schema st ∧
    rows.Perm (st.secrets.filter fun row => row.namespaceId = id) ∧
    secrets = rows.map fun row => jsonSecret (loaded st row)

theorem load_increasing {st : Store} (hs : Schema st) (id : SecretId) :
    (st.loadVersionsForSecret id).Pairwise fun a b => a.versionNo < b.versionNo := by
  have hnodup := (load_nodup hs.versionIds id).of_map
  refine ((load_sorted st id).and hnodup).imp_of_mem ?_
  intro a b ha hb ⟨hle, hne⟩
  rw [mem_load] at ha hb
  refine UInt32.lt_of_le_of_ne hle fun hno => hne ?_
  exact hs.numbers a ha.1 b hb.1 (ha.2.trans hb.2.symm) hno

theorem wellVersioned_json {st : Store} (hs : Schema st) (row : SecretRow) :
    WellVersioned (jsonSecret (loaded st row)) := by
  have hids : ((st.loadVersionsForSecret row.id).map jsonVersion).map (·.id) =
      (st.loadVersionsForSecret row.id).map (·.id) := by
    rw [List.map_map]
    rfl
  refine ⟨List.pairwise_map.mpr (load_increasing hs row.id), ?_, ?_⟩
  · exact hids ▸ load_nodup hs.versionIds row.id
  · intro v hv
    obtain ⟨r, hr, rfl⟩ := List.mem_map.mp hv
    exact (mem_load.mp hr).2

/-- **The secrets of a backup** have nothing in common. -/
theorem Snapshot.distinct {secrets : List Secret} (h : Snapshot secrets) : Distinct secrets := by
  obtain ⟨st, id, rows, hs, hperm, rfl⟩ := h
  have hrows : (rows.map (·.id)).Nodup :=
    (hperm.map _).nodup_iff.mpr (hs.secretIds.sublist (List.filter_sublist.map _))
  refine ⟨?_, by rw [List.map_map]; exact hrows, ?_⟩
  · intro w hw
    obtain ⟨row, -, rfl⟩ := List.mem_map.mp hw
    exact wellVersioned_json hs row
  · -- Versions of different rows have different parents, so they are different rows.
    rw [allVersions, List.flatMap_map, List.map_flatMap, List.nodup_flatMap]
    refine ⟨fun row _ => (wellVersioned_json hs row).ids, ?_⟩
    refine (List.pairwise_map.mp hrows).imp ?_
    intro row row' hne vid hvid hvid'
    obtain ⟨v, hv, rfl⟩ := List.mem_map.mp hvid
    obtain ⟨v', hv', hid⟩ := List.mem_map.mp hvid'
    obtain ⟨r, hr, rfl⟩ := List.mem_map.mp hv
    obtain ⟨r', hr', rfl⟩ := List.mem_map.mp hv'
    have hr := mem_load.mp hr
    have hr' := mem_load.mp hr'
    obtain rfl := List.inj_on_of_nodup_map hs.versionIds hr.1 hr'.1 hid.symm
    exact hne (hr.2.symm.trans hr'.2)

/-! ### The command -/

/-- What a restore reads: its plan and the secrets of its backup. -/
structure Restores (W : World) (n : Node) (cmd : ExecuteRestoreCommand) (plan : RestorePlan)
    (namespaceId : NamespaceId) (secrets : List Secret) : Prop where
  planned : ∃ row, n.restorePlans.find? (fun row => row.plan.id = cmd.planId) = some row ∧
    row.plan = plan ∧ row.appliedAt = none
  noHalt : plan.hasHaltConflict = false
  target : plan.targetNamespace = some namespaceId
  held : ∃ backup ∈ n.backups, backup.namespaceId = namespaceId ∧
    backup.snapshotId = plan.sourceBackupId ∧ HeldBy W n backup secrets

theorem checkedPlan_yields (cmd : ExecuteRestoreCommand) :
    Yields (nodeRules W) cmd.checkedPlan n fun n' result => n' = n ∧
      (∃ row, n.restorePlans.find? (fun row => row.plan.id = cmd.planId) = some row ∧
        row.plan = result.1 ∧ row.appliedAt = none) ∧
      result.1.hasHaltConflict = false ∧ result.1.targetNamespace = some result.2 := by
  refine yields_bind (yields_storage fun plan n' hx => ?_) (P := fun n' plan => n' = n ∧
    plan = (n.restorePlans.find? fun row => row.plan.id = cmd.planId).map (·.plan)) ?_
  · obtain ⟨rfl, fault, hplan⟩ := hx
    exact ⟨rfl, (Except.ok.inj (faulty_ok hplan.symm).2).symm⟩
  rintro n' found ⟨rfl, hfound⟩
  refine yields_bind (yields_orThrow fun plan hplan => ⟨rfl, hfound.symm.trans hplan⟩)
    (P := fun m plan => m = n' ∧
      (n'.restorePlans.find? fun row => row.plan.id = cmd.planId).map (·.plan) = some plan) ?_
  rintro m plan ⟨rfl, hplan⟩
  refine yields_bind (yields_port fun _ m' hx => hx) (P := fun m' _ => m' = m) ?_
  rintro m' now rfl
  by_cases hexp : plan.isExpiredAt now = true
  · rw [if_pos hexp]
    exact yields_throw _
  rw [if_neg hexp]
  refine yields_bind (yields_storage fun applied m hx => ?_) (P := fun m applied => m = m' ∧
    applied = (m'.restorePlans.find? fun row => row.plan.id = cmd.planId).bind (·.appliedAt)) ?_
  · obtain ⟨rfl, fault, happlied⟩ := hx
    exact ⟨rfl, (Except.ok.inj (faulty_ok happlied.symm).2).symm⟩
  rintro m applied ⟨rfl, happlied⟩
  split_ifs with hsome hhalt
  · exact yields_throw _
  · exact yields_throw _
  refine yields_bind (yields_orThrow fun id hid => ⟨rfl, hid⟩)
    (P := fun m' id => m' = m ∧ plan.targetNamespace = some id) ?_
  rintro m' id ⟨rfl, hid⟩
  obtain ⟨row, hrow, rfl⟩ := Option.map_eq_some_iff.mp hplan
  rw [hrow] at happlied
  have hnone : row.appliedAt = none := by
    rw [← Option.not_isSome_iff_eq_none]
    rw [happlied] at hsome
    exact hsome
  exact yields_pure ⟨rfl, ⟨row, hrow, rfl, hnone⟩, by simpa using hhalt, hid⟩

/-- A commit of the audit chain leaves the other tables. -/
theorem auditCommit_yields (params : AppendParams) (key : Key) :
    Yields (contextRules W) (auditCommit params key) n fun n' _ =>
      n'.app.store.secrets = n.app.store.secrets ∧ n'.app.store.versions = n.app.store.versions ∧
        n'.restorePlans = n.restorePlans := by
  refine yields_attemptContext fun _ n' hx => ?_
  obtain ⟨draw, fault, hcommit⟩ := appExec_exec hx
  have hsame := auditCommitSection_same hcommit
  refine ⟨hsame.secrets, hsame.versions, ?_⟩
  rw [appExec_frame rfl hx]

/-- The reply counts what was written, up to the largest count. -/
def Reports (reply : NodeReply) (written : List Secret) (namespaceId : NamespaceId) : Prop :=
  ∃ restored : UInt32, reply = .restored restored namespaceId ∧
    restored.toNat = min written.length (2 ^ 32 - 1)

/-- **The tables after a restore**: what the plan says of each secret of the backup is put. -/
theorem executeRestore_yields (cmd : ExecuteRestoreCommand) :
    Yields (nodeRules W) (cmd.execute W) n fun n' reply => ∃ plan namespaceId secrets store,
      Restores W n cmd plan namespaceId secrets ∧
      (writes plan (liveHandles n.app.store namespaceId) secrets).foldlM Store.putSecret n.app.store =
        .ok store ∧
      n'.app.store.secrets = store.secrets ∧ n'.app.store.versions = store.versions ∧
      Reports reply (writes plan (liveHandles n.app.store namespaceId) secrets) namespaceId := by
  refine yields_bind (yields_embedded requireUnsealed_yields) ?_
  rintro n' _ ⟨rfl, -⟩
  refine yields_bind (checkedPlan_yields cmd) ?_
  rintro n' ⟨plan, namespaceId⟩ ⟨rfl, hplan, hhalt, htarget⟩
  refine yields_bind (yields_storage fun backups m hx => ?_) (P := fun m backups => m = n' ∧
    ∀ b ∈ backups, b ∈ n'.backups ∧ b.namespaceId = namespaceId) ?_
  · obtain ⟨rfl, fault, rows, ⟨hperm, -⟩, hrows⟩ := hx
    obtain rfl := Except.ok.inj (faulty_ok hrows.symm).2
    refine ⟨rfl, fun b hb => ?_⟩
    obtain ⟨hmem, hns⟩ := List.mem_filter.mp (hperm.subset hb)
    exact ⟨hmem, by simpa using hns⟩
  rintro m backups ⟨rfl, hbackups⟩
  refine yields_bind (yields_orThrow fun backup hfound => ⟨rfl, hfound⟩) (P := fun m' backup =>
    m' = m ∧ backups.find? (fun b => b.snapshotId = plan.sourceBackupId) = some backup) ?_
  rintro m' backup ⟨rfl, hfound⟩
  obtain ⟨hmem, hns⟩ := hbackups backup (List.mem_of_find?_eq_some hfound)
  have hsource : backup.snapshotId = plan.sourceBackupId := by simpa using List.find?_some hfound
  refine yields_bind (readArtifact_yields backup namespaceId) ?_
  rintro n₁ ⟨key, secrets⟩ ⟨hsame, hheld⟩
  have happ : n₁.app = m'.app := by rw [hsame]
  refine yields_bind (listSecrets_yields namespaceId) ?_
  rintro n₂ live ⟨rfl, rows, hrows, rfl⟩
  rw [happ] at hrows
  have hlive : ∀ handle, handle ∈ (rows.map (loaded n₂.app.store)).map (·.handle) ↔
      handle ∈ liveHandles m'.app.store namespaceId := by
    intro handle
    rw [List.map_map]
    exact (hrows.map _).mem_iff
  have hwrites : writes plan ((rows.map (loaded n₂.app.store)).map (·.handle)) secrets =
      writes plan (liveHandles m'.app.store namespaceId) secrets :=
    List.filterMap_congr fun secret _ => restoredAs_congr hlive secret
  refine yields_bind (yields_embedded (applySecrets_yields plan _)) ?_
  rintro n₃ restored ⟨store, hstore, rfl, hrestored⟩
  rw [hwrites, happ] at hstore
  rw [hwrites, UInt32.toNat_zero, Nat.zero_add] at hrestored
  refine yields_bind (yields_port fun _ m hx => ?_) (P := fun m _ => m.app.store = store) ?_
  · obtain rfl : m = _ := hx
    rfl
  intro n₄ appliedAt hn₄
  refine yields_bind (yields_storage fun _ m hx => ?_) (P := fun m _ => m.app.store = store) ?_
  · obtain ⟨fault, hx⟩ := hx
    split at hx
    · rw [hx.2]
      exact hn₄
    · cases hx.1
  intro n₅ _ hn₅
  refine yields_bind (yields_embedded (auditCommit_yields _ _)) ?_
  rintro n₆ _ ⟨hsecrets, hversions, -⟩
  rw [hn₅] at hsecrets hversions
  exact yields_pure ⟨plan, namespaceId, secrets, store,
    ⟨hplan, hhalt, htarget, backup, hmem, hns, hsource, hheld⟩, hstore, hsecrets, hversions,
    restored, rfl, hrestored⟩

/-! ### A restore that goes through -/

/-- A plan with one conflict. -/
def samplePlan (resolution : ConflictResolution) : RestorePlan where
  id := sampleUuid 8
  sourceBackupId := sampleUuid 9
  targetNamespace := some ⟨sampleUuid 1⟩
  conflicts := [⟨sampleHandle, resolution⟩]
  expiresAt := epoch

/-- A keychain with the backup keys. -/
def sampleKeychain (item : String × String) : Option (List UInt8) :=
  if item.2 = accountBackupMasterRecipient then some "age1".toUTF8.data.toList
  else if item.2 = accountBackupMasterIdentity then some "AGE-SECRET-KEY-1".toUTF8.data.toList
  else none

/-- The backup that the plan is about. -/
def sampleBackup (payload : BackupPlaintext) : Backup where
  id := sampleUuid 7
  namespaceId := ⟨sampleUuid 1⟩
  snapshotId := sampleUuid 9
  artifactPath := "backup.age"
  hmac := backupHmac (sampleWorld payload) sampleKey [0]
  sizeBytes := 1
  secretCount := 1
  createdAt := epoch

/-- An unsealed vault with a backup of the payload and a plan for it. -/
def sampleNode (payload : BackupPlaintext) (st : Store) (plan : RestorePlan) : Node where
  app := { sampleState with store := st }
  keychain := sampleKeychain
  files _ := some [0]
  recoveryPubkey := "age1"
  backups := [sampleBackup payload]
  restorePlans := [⟨plan, none⟩]
  initLocked := false

/-- The execution of the plan. -/
def sampleRestore : ExecuteRestoreCommand := ⟨sampleUuid 8⟩

theorem heldBy_sample {payload : BackupPlaintext} {n : Node} {backup : Backup} {secrets : List Secret}
    (hfiles : ∀ path, n.files path = some [0]) (h : HeldBy (sampleWorld payload) n backup secrets) :
    secrets = payload.secrets.map jsonSecret := by
  obtain ⟨_, _, _, decoded, hfile, hplain, hdecode, rfl⟩ := h
  obtain rfl := Option.some.inj ((hfiles _).symm.trans hfile)
  obtain rfl := Except.ok.inj hplain
  obtain rfl := Except.ok.inj hdecode
  rfl

/-- A handler of the context, among the actions of the node. -/
theorem exists_runs_inContext {α : Type} {x : Handler α} {r : Except AppError α} {n' : Node}
    (h : ∃ hist, Runs (appExec W) x.run n hist r n') :
    ∃ hist, Runs (nodeExec W) (runInContext x).run n hist (r.mapError NodeError.app) n' := by
  obtain ⟨hist, h⟩ := h
  exact ⟨_, runs_withError.mpr ⟨r, rfl, runs_embed.mpr ⟨hist, rfl, h⟩⟩⟩

theorem loadSecrets_runs (n : Node) : ∀ rows : List SecretRow, ∃ hist, Runs (appExec W)
    (loadSecrets rows).run n hist (.ok (rows.map (loaded n.app.store))) n
  | [] => exists_runs_ret rfl
  | row :: rows => by
    obtain ⟨_, ih⟩ := loadSecrets_runs n rows
    refine exists_runs_act rfl (.ok (n.app.store.loadVersionsForSecret row.id)) n
      ⟨⟨rfl, none, rfl⟩, rfl⟩ ?_
    exact exists_runs_ok_bind ih (exists_runs_ret rfl)

/-- The listing of a namespace without faults. -/
theorem listSecrets_runs {id : NamespaceId} {rows : List SecretRow}
    (hrows : Ordered (fun a b : SecretRow => b.createdAt.lt a.createdAt = false)
      (n.app.store.secrets.filter fun row => row.namespaceId = id) rows) :
    ∃ hist, Runs (nodeExec W) (listSecrets id).run n hist (.ok (rows.map (loaded n.app.store))) n := by
  refine exists_runs_act rfl (.ok rows) n ⟨rfl, none, rows, hrows, rfl⟩ ?_
  exact exists_runs_inContext (loadSecrets_runs n rows)

/-- A plan that is neither expired nor applied and has no halt. -/
theorem checkedPlan_runs {cmd : ExecuteRestoreCommand} {plan : RestorePlan} {id : NamespaceId}
    {now : Rfc3339Timestamp}
    (hfind : n.restorePlans.find? (fun row => row.plan.id = cmd.planId) = some ⟨plan, none⟩)
    (hexp : plan.isExpiredAt now = false) (hhalt : plan.hasHaltConflict = false)
    (htarget : plan.targetNamespace = some id) :
    ∃ hist, Runs (nodeExec W) cmd.checkedPlan.run n hist (.ok (plan, id)) n := by
  refine exists_runs_act rfl (.ok (some plan)) n ⟨rfl, none, by rw [hfind]; rfl⟩ ?_
  refine exists_runs_ok_bind (runs_orThrow (a := plan) rfl) ?_
  refine exists_runs_ok_bind (runs_call (r := now) (show nodeExec W _ n _ n from rfl)) ?_
  rw [if_neg (by rw [hexp]; decide)]
  refine exists_runs_ok_bind (runs_attempt (r := .ok none) (show nodeExec W _ n _ n from
    ⟨rfl, none, by rw [hfind]; rfl⟩)) ?_
  rw [if_neg (by decide), if_neg (by rw [hhalt]; decide)]
  exact exists_runs_ok_bind (runs_orThrow htarget) (exists_runs_ret rfl)

/-- The writes of secrets leave the audit tables. -/
theorem puts_audit {ws : List Secret} : ∀ {st store : Store},
    ws.foldlM Store.putSecret st = .ok store → store.auditEntries = st.auditEntries := by
  induction ws with
  | nil =>
    intro st store h
    rw [Except.ok.inj h]
  | cons w ws ih =>
    intro st store h
    rw [List.foldlM_cons] at h
    cases hput : st.putSecret w with
    | error e =>
      rw [hput] at h
      cases h
    | ok st₁ =>
      rw [hput] at h
      rw [ih h]
      exact (Write.apply_audit (w := .putSecret w) hput).1

/-- The loop without faults. -/
theorem applySecrets_runs (plan : RestorePlan) (live : List Handle) :
    ∀ {secrets : List Secret} {count : UInt32} {n : Node} {store : Store},
      (writes plan live secrets).foldlM Store.putSecret n.app.store = .ok store →
      ∃ restored hist, Runs (appExec W) (applySecrets plan live secrets count).run n hist (.ok restored)
        { n with app := { n.app with store := store } }
  | [], count, n, store, h => by
    obtain rfl := Except.ok.inj h
    exact ⟨count, exists_runs_ret rfl⟩
  | secret :: rest, count, n, store, h => by
    rw [applySecrets]
    cases hs : restoredAs plan live secret with
    | none =>
      rw [writes, List.filterMap_cons_none hs] at h
      exact applySecrets_runs plan live h
    | some s =>
      rw [writes, List.filterMap_cons_some hs, List.foldlM_cons] at h
      cases hput : n.app.store.putSecret s with
      | error e =>
        rw [hput] at h
        cases h
      | ok store₁ =>
        rw [hput] at h
        let n₁ : Node := { n with app := { n.app with store := store₁ } }
        let count₁ := if count = UInt32.ofNat (2 ^ 32 - 1) then count else count + 1
        obtain ⟨restored, hist, hrun⟩ := @applySecrets_runs plan live rest count₁ n₁ _ h
        refine ⟨restored, exists_runs_act rfl (.ok ()) n₁ ⟨⟨none, ?_⟩, rfl⟩ ⟨hist, hrun⟩⟩
        unfold writeSection
        rw [show (Write.putSecret s).apply _ = .ok store₁ from hput]
        rfl

/-- A restore without faults. -/
theorem sampleRestore_runs_writes (payload : BackupPlaintext) (st : Store) {r : List SecretRow}
    {store : Store} {c : List Conflict} {t : Rfc3339Timestamp}
    (hrows : Ordered (fun a b : SecretRow => b.createdAt.lt a.createdAt = false)
      (st.secrets.filter fun row => row.namespaceId = ⟨sampleUuid 1⟩) r)
    (hhalt : c.any (fun c => c.resolution = .halt) = false)
    (hexp : t.lt epoch = false) (hes : st.auditEntries = []) {ws : List Secret}
    (hws : writes { samplePlan .halt with conflicts := c, expiresAt := t } (r.map (·.handle))
      (payload.secrets.map jsonSecret) = ws)
    (hputs : ws.foldlM Store.putSecret st = .ok store) :
    ∃ n', n'.app.store.secrets = store.secrets ∧ n'.app.store.versions = store.versions ∧
      ∃ restored hist,
      Runs (nodeExec (sampleWorld payload)) (sampleRestore.execute (sampleWorld payload)).run
        (sampleNode payload st { samplePlan .halt with conflicts := c, expiresAt := t })
        hist (.ok (.restored restored ⟨sampleUuid 1⟩)) n' ∧
      restored.toNat = min ws.length (2 ^ 32 - 1) := by
  let plan : RestorePlan := { samplePlan .halt with conflicts := c, expiresAt := t }
  let n := sampleNode payload st plan
  let n₁ : Node := { n with app := { sampleState with store := store } }
  let n₂ : Node := { n₁ with restorePlans := [⟨plan, some epoch⟩] }
  have hes₁ : store.auditEntries = [] := (puts_audit hputs).trans hes
  obtain ⟨s, hx, -⟩ := first_commit (sampleWorld payload).toCrates
    { op := .restore, outcome := .allow, namespaceId := ⟨sampleUuid 1⟩, callerProgram := agent }
    sampleKey (sampleCall 1).draw n₂.app hes₁
  have hsame := auditCommitSection_same hx
  have hchecked : ∃ hist, Runs (nodeExec (sampleWorld payload)) sampleRestore.checkedPlan.run n hist
      (.ok (plan, ⟨sampleUuid 1⟩)) n := checkedPlan_runs rfl hexp hhalt rfl
  obtain ⟨_, hchecked⟩ := hchecked
  have hlist : ∃ hist, Runs (nodeExec (sampleWorld payload)) (listSecrets ⟨sampleUuid 1⟩).run n hist
      (.ok (r.map (loaded st))) n := listSecrets_runs hrows
  obtain ⟨_, hlist⟩ := hlist
  have hhandles : (r.map (loaded st)).map (·.handle) = r.map (·.handle) := List.map_map
  rw [← hhandles] at hws
  subst hws
  obtain ⟨restored, happly⟩ := @applySecrets_runs (sampleWorld payload) plan _ _ 0 n _ hputs
  obtain ⟨-, -, -, hcount⟩ := wp_runs (applySecrets_yields plan _) happly.choose_spec restored rfl
  obtain ⟨_, happly⟩ := exists_runs_inContext happly
  refine ⟨{ n₂ with app := s }, hsame.secrets, hsame.versions, restored, ?_⟩
  rw [UInt32.toNat_zero, Nat.zero_add] at hcount
  refine exists_and_right.mpr ⟨?_, hcount⟩
  refine exists_runs_act rfl true n ⟨rfl, rfl⟩ ?_
  refine exists_runs_ok_bind hchecked ?_
  refine exists_runs_act rfl (.ok n.backups) n
    ⟨rfl, none, _, ⟨List.Perm.refl _, List.pairwise_singleton _ _⟩, rfl⟩ ?_
  refine exists_runs_act rfl (.ok [0]) n ⟨rfl, .inl ⟨_, rfl, rfl⟩⟩ ?_
  refine exists_runs_act rfl (some sampleKey) n ⟨⟨rfl, rfl⟩, rfl⟩ ?_
  refine exists_runs_act rfl (.ok "age1".toUTF8.data.toList) n (.inl ⟨rfl, rfl⟩) ?_
  refine exists_runs_act rfl (.ok "AGE-SECRET-KEY-1".toUTF8.data.toList) n (.inl ⟨rfl, rfl⟩) ?_
  refine exists_runs_act rfl (.ok [0]) n ⟨rfl, rfl⟩ ?_
  refine exists_runs_ok_bind hlist ?_
  refine exists_runs_ok_bind happly ?_
  refine exists_runs_act rfl epoch n₁ rfl ?_
  refine exists_runs_act rfl (.ok ()) n₂ ⟨none, rfl, rfl⟩ ?_
  refine exists_runs_act rfl (.ok ()) { n₂ with app := s } ⟨⟨_, _, hx⟩, rfl⟩ ?_
  exact exists_runs_ret rfl

/-- One secret in the backup, and no faults. -/
theorem sampleRestore_runs_of (payload : BackupPlaintext) (st : Store) {r : List SecretRow}
    {store : Store} {c : List Conflict} {t : Rfc3339Timestamp} {b w : Secret}
    (hrows : Ordered (fun a b : SecretRow => b.createdAt.lt a.createdAt = false)
      (st.secrets.filter fun row => row.namespaceId = ⟨sampleUuid 1⟩) r)
    (hhalt : c.any (fun c => c.resolution = .halt) = false)
    (hexp : t.lt epoch = false) (hes : st.auditEntries = [])
    (hb : payload.secrets.map jsonSecret = [b])
    (hw : restoredAs { samplePlan .halt with conflicts := c, expiresAt := t }
      (r.map (·.handle)) b = some w)
    (hput : st.putSecret w = .ok store) :
    ∃ n', n'.app.store.secrets = store.secrets ∧ n'.app.store.versions = store.versions ∧ ∃ hist,
      Runs (nodeExec (sampleWorld payload)) (sampleRestore.execute (sampleWorld payload)).run
        (sampleNode payload st { samplePlan .halt with conflicts := c, expiresAt := t })
        hist (.ok (.restored 1 ⟨sampleUuid 1⟩)) n' := by
  have hws : writes { samplePlan .halt with conflicts := c, expiresAt := t } (r.map (·.handle))
      (payload.secrets.map jsonSecret) = [w] := by
    rw [hb, writes, List.filterMap_cons_some hw, List.filterMap_nil]
  have hputs : [w].foldlM Store.putSecret st = .ok store := by
    rw [List.foldlM_cons, hput]
    rfl
  obtain ⟨n', hsecrets, hversions, restored, hist, hrun, hcount⟩ :=
    sampleRestore_runs_writes payload st hrows hhalt hexp hes hws hputs
  obtain rfl : restored = 1 := UInt32.toNat_inj.mp hcount
  exact ⟨n', hsecrets, hversions, hist, hrun⟩

/-- The same with one live secret, whose handle is in conflict. -/
theorem sampleRestore_runs (payload : BackupPlaintext) (st : Store) (row : SecretRow) {store : Store}
    {resolution : ConflictResolution} {b w : Secret}
    (hrow : (st.secrets.filter fun r => r.namespaceId = ⟨sampleUuid 1⟩) = [row])
    (hhalt : resolution ≠ .halt) (hes : st.auditEntries = [])
    (hb : payload.secrets.map jsonSecret = [b])
    (hw : restoredAs (samplePlan resolution) [row.handle] b = some w)
    (hput : st.putSecret w = .ok store) :
    ∃ n', n'.app.store.secrets = store.secrets ∧ n'.app.store.versions = store.versions ∧ ∃ hist,
      Runs (nodeExec (sampleWorld payload)) (sampleRestore.execute (sampleWorld payload)).run
        (sampleNode payload st (samplePlan resolution)) hist (.ok (.restored 1 ⟨sampleUuid 1⟩)) n' := by
  refine sampleRestore_runs_of payload st (r := [row]) (c := [⟨sampleHandle, resolution⟩])
    ⟨hrow ▸ List.Perm.refl _, List.pairwise_singleton _ _⟩ ?_ rfl hes hb hw hput
  simpa using hhalt

end MerkleVault.App.Restore
