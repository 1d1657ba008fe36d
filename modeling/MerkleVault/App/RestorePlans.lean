import MerkleVault.App.MergeRestore

/-! # Restore Plans

A plan compares the secrets of a backup with those that are live and says, for each handle that both
sides have, which side a restore takes.  The times that it compares are those at which the secrets
were created; the values that a restore would exchange are those of their current versions.

* `RestorePlanCommand.execute`, `createRestorePlan`: the command and its endpoint;
* `resolutionFor_planConflicts`: what a plan says of a handle that both sides have;
* `restore_modes_iff`: when a plan does what its mode promises. -/

namespace MerkleVault.App.RestorePlans

open MerkleVault.Types MerkleVault.External MerkleVault.Lib.Program
open MerkleVault.Secrets.Aggregate MerkleVault.Sqlite.Tables MerkleVault.Sqlite.Versions
open MerkleVault.Sqlite.Reload MerkleVault.Sqlite.Retention
open MerkleVault.App.Context MerkleVault.App.SecretCommands MerkleVault.App.Host
open MerkleVault.App.BackupCommands
open MerkleVault.App.AuditDurability MerkleVault.App.Restore MerkleVault.App.MergeRestore
open MerkleVault.App.Reveal MerkleVault.Audit.Integrity MerkleVault.App.AuditCoverage

/-! ### Actions -/

/-- The actions of the planner besides those of the node. -/
inductive PlanOp : Type → Type 1
  | node {β : Type} (op : NodeOp β) : PlanOp β
  | listNamespaces : PlanOp (Except StorageError (List Namespace))
  /-- The `INSERT OR REPLACE` of `put_restore_plan`. -/
  | insertRestorePlan (plan : RestorePlan) : PlanOp (Except StorageError Unit)

/-- The row of a plan, its times as text. -/
def planRow (plan : RestorePlan) : RestorePlanRow :=
  ⟨{ plan with expiresAt := atMicros plan.expiresAt }, none⟩

/-- The rows after the insert. -/
def insertPlan (rows : List RestorePlanRow) (plan : RestorePlan) : List RestorePlanRow :=
  rows.filter (fun row => row.plan.id ≠ plan.id) ++ [planRow plan]

/-- What one action of the plan request does. -/
def planExec (W : World) {β : Type} : PlanOp β → Node → β → Node → Prop
  | .node op, n, r, n' => nodeExec W op n r n'
  | .listNamespaces, n, r, n' => n' = n ∧ ∃ fault rows,
      Ordered (fun a b => b.createdAt.lt a.createdAt = false) n.app.store.namespaces rows ∧
        r = faulty fault (.ok rows)
  | .insertRestorePlan plan, n, r, n' =>
      r = .ok () ∧ n' = { n with restorePlans := insertPlan n.restorePlans plan } ∨
        n' = n ∧ ∃ e, r = .error e

/-- What the endpoint answers when there is no plan. -/
inductive PlanFault
  | namespaceNotFound
  | snapshotNotFound (filename : String)
  | command (e : NodeError)
deriving DecidableEq

/-- A program of the plan request. -/
abbrev PlanHandler (ε α : Type) := Cmd PlanOp ε α

/-- A command of the agent. -/
def runOnNode {α : Type} (x : NodeHandler α) : PlanHandler NodeError α := embedded PlanOp.node id x

/-! ### The command -/

variable (W : World)

/-- `put_restore_plan`: a plan that was applied is not written again. -/
def putRestorePlan (plan : RestorePlan) : PlanHandler NodeError Unit := do
  match ← runOnNode (storageCall (.restorePlanAppliedAt plan.id)) with
  | some existingApplied =>
    throw (.app (.storage (.conflict ("restore plan " ++ uuidText plan.id ++ " already applied at " ++
      W.toRfc3339 existingApplied))))
  | none =>
    if plan.targetNamespace.isNone then
      throw (.app (.storage (.constraint "restore plan requires target_namespace")))
    else attempt (fun e => .app (.storage e)) (.insertRestorePlan plan)

/-- Ten minutes later; a leap second is not kept. -/
def planExpiry (validatedAt : Rfc3339Timestamp) : Rfc3339Timestamp where
  timestamp := validatedAt.timestamp + 600
  subsec := validatedAt.subsec % 1000000000
  subsec_lt := by omega
  leap h := absurd h (by omega)

/-- The handle of each secret and the time that the planner is given for it. -/
def planSide (secrets : List Secret) : List (Handle × Rfc3339Timestamp) :=
  secrets.map fun s => (s.handle, s.createdAt)

/-- A count as a `u32` that saturates. -/
def saturateU32 (n : Nat) : UInt32 := UInt32.ofNat (min n (2 ^ 32 - 1))

/-- A plan with its counts. -/
structure RestorePlanOutput where
  plan : RestorePlan
  secretsToAdd : UInt32
  secretsToOverwrite : UInt32
  secretsToSkip : UInt32

/-- The resolution writes the secret of the backup. -/
def takesBackup : ConflictResolution → Bool
  | .newestWinsBackup | .preserveBoth => true
  | .newestWinsExisting | .halt => false

/-- The plan with its counts: the conflicts, and the secrets that only the backup has. -/
def RestorePlanOutput.counted (plan : RestorePlan)
    (backupSide liveSide : List (Handle × Rfc3339Timestamp)) : RestorePlanOutput where
  plan := plan
  secretsToAdd := saturateU32 (backupSide.countP fun s => s.1 ∉ liveSide.map (·.1))
  secretsToOverwrite := saturateU32 (plan.conflicts.countP fun c => takesBackup c.resolution)
  secretsToSkip := saturateU32 (plan.conflicts.countP fun c => !takesBackup c.resolution)

/-- `RestorePlanCommand`. -/
structure RestorePlanCommand where
  namespaceId : NamespaceId
  backupSnapshotId : Uuid
  mode : RestoreMode

/-- `RestorePlanCommand::execute`. -/
def RestorePlanCommand.execute (cmd : RestorePlanCommand) : PlanHandler NodeError RestorePlanOutput := do
  runOnNode (runInContext requireUnsealed)
  let backups ← runOnNode (storageCall (.listBackups cmd.namespaceId))
  let backup ← orThrow (.app .notFound) (backups.find? fun b => b.snapshotId = cmd.backupSnapshotId)
  let (_, backupSecrets) ← runOnNode (readArtifact W backup cmd.namespaceId)
  -- The columns hold times as text, which the rows of the model do not.
  let liveSecrets := (← runOnNode (listSecrets cmd.namespaceId)).map asStored
  let backupSide := planSide backupSecrets
  let liveSide := planSide liveSecrets
  let validatedAt ← runOnNode (portCall .now)
  let id ← runOnNode (call (.app .newUuid))
  let plan : RestorePlan := ⟨id, backup.snapshotId, some cmd.namespaceId,
    planConflicts backupSide liveSide cmd.mode, planExpiry validatedAt⟩
  putRestorePlan W plan
  return .counted plan backupSide liveSide

/-! ### The endpoint -/

/-- The modes of the product. -/
inductive ProductMode
  | overwrite | merge | newestWins
deriving DecidableEq, Repr

/-- The mode of the planner that a product mode stands for. -/
def ProductMode.domainMode : ProductMode → RestoreMode
  | .overwrite => .newestWinsBackup
  | .merge => .mergePreserveBoth
  | .newestWins => .newestWinsExisting

/-- The body of the plan request. -/
structure CreateRestorePlanRequest where
  snapshotFilename : String
  mode : ProductMode

/-- `Path::file_name`: the last component, unless it is `..`. -/
def fileName (path : String) : Option String :=
  (((path.toList.splitOn '/').filter fun c => c ≠ [] ∧ c ≠ ['.']).getLast?.filter fun c =>
    c ≠ ['.', '.']).map String.ofList

/-- The text of a resolution. -/
def conflictResolutionStr : ConflictResolution → String
  | .newestWinsExisting => "newest_wins_existing"
  | .newestWinsBackup => "newest_wins_backup"
  | .halt => "halt"
  | .preserveBoth => "preserve_both"

/-- What the plan request answers. -/
structure RestorePlanResponse where
  planId : String
  mode : ProductMode
  snapshotFilename : String
  namespacesToAdd : UInt32
  namespacesToSkip : UInt32
  secretsToAdd : UInt32
  secretsToOverwrite : UInt32
  secretsToSkip : UInt32
  conflicts : List (Handle × String)
  expiresAt : Rfc3339Timestamp

/-- The answer of a plan that was made. -/
def RestorePlanOutput.response (output : RestorePlanOutput) (body : CreateRestorePlanRequest) :
    RestorePlanResponse where
  planId := uuidText output.plan.id
  mode := body.mode
  snapshotFilename := body.snapshotFilename
  namespacesToAdd := 0
  namespacesToSkip := 0
  secretsToAdd := output.secretsToAdd
  secretsToOverwrite := output.secretsToOverwrite
  secretsToSkip := output.secretsToSkip
  conflicts := output.plan.conflicts.map fun c => (c.handle, conflictResolutionStr c.resolution)
  expiresAt := output.plan.expiresAt

/-- The first namespace, if the vault is unsealed and there is one. -/
def defaultNamespaceId : PlanHandler PlanFault (Option NamespaceId) := do
  let listed ← withError PlanFault.command (resultOf do
    runOnNode (runInContext requireUnsealed)
    attempt (fun e => .app (.storage e)) .listNamespaces)
  match listed with
  | .ok namespaces => return namespaces.head?.map (·.id)
  | .error _ => return none

/-- `ListBackupsQuery`: newest first. -/
def listBackupsQuery (namespaceId : NamespaceId) : PlanHandler NodeError (List Backup) := do
  runOnNode (runInContext requireUnsealed)
  let backups ← runOnNode (storageCall (.listBackups namespaceId))
  return backups.mergeSort fun a b => !a.createdAt.lt b.createdAt

/-- The handler of the plan request. -/
def createRestorePlan (body : CreateRestorePlanRequest) : PlanHandler PlanFault RestorePlanResponse := do
  let namespaceId ← orThrow .namespaceNotFound (← defaultNamespaceId)
  let backups ← withError .command (listBackupsQuery namespaceId)
  let found ← orThrow (.snapshotNotFound body.snapshotFilename) (backups.find? fun b =>
    fileName b.artifactPath = some body.snapshotFilename || uuidText b.snapshotId = body.snapshotFilename)
  let cmd : RestorePlanCommand := ⟨namespaceId, found.snapshotId, body.mode.domainMode⟩
  let output ← withError .command (cmd.execute W)
  return output.response body

variable {W} {n : Node}

/-! ### What a plan says of a handle -/

section Conflicts

variable {plan : RestorePlan} {backupSide liveSide : List (Handle × Rfc3339Timestamp)}
  {mode : RestoreMode}

theorem resolutionFor_of_mem (hnodup : (plan.conflicts.map (·.handle)).Nodup) {c : Conflict}
    (hc : c ∈ plan.conflicts) : resolutionFor plan c.handle = some c.resolution := by
  have hrev : (plan.conflicts.reverse.map (·.handle)).Nodup := by
    rw [List.map_reverse]
    exact List.nodup_reverse.mpr hnodup
  have hfind : plan.conflicts.reverse.find? (fun r => r.handle = c.handle) = some c :=
    find?_of_nodup hrev (List.mem_reverse.mpr hc)
  rw [resolutionFor, hfind, Option.map_some]

theorem planConflicts_handles : ∀ {backupSide : List (Handle × Rfc3339Timestamp)},
    ((planConflicts backupSide liveSide mode).map (·.handle)).Sublist (backupSide.map (·.1))
  | [] => List.Sublist.refl _
  | (handle, ts) :: rest => by
    have ih : ((planConflicts rest liveSide mode).map (·.handle)).Sublist (rest.map (·.1)) :=
      planConflicts_handles
    rw [planConflicts, List.filterMap_cons]
    split
    · exact ih.cons _
    · rename_i c hc
      obtain ⟨_, -, rfl⟩ := Option.map_eq_some_iff.mp hc
      exact ih.cons_cons _

/-- **A handle that both sides have**: the mode decides by the two times. -/
theorem resolutionFor_planConflicts (hplan : plan.conflicts = planConflicts backupSide liveSide mode)
    (hbackup : (backupSide.map (·.1)).Nodup) (hlive : (liveSide.map (·.1)).Nodup) {handle : Handle}
    {backupTs vaultTs : Rfc3339Timestamp} (hb : (handle, backupTs) ∈ backupSide)
    (hl : (handle, vaultTs) ∈ liveSide) :
    resolutionFor plan handle = some (resolve mode backupTs vaultTs) := by
  have hnodup : (plan.conflicts.map (·.handle)).Nodup :=
    hplan ▸ hbackup.sublist planConflicts_handles
  have hfind : liveSide.find? (fun s => s.1 = handle) = some (handle, vaultTs) :=
    find?_of_nodup hlive hl
  have hc : (⟨handle, resolve mode backupTs vaultTs⟩ : Conflict) ∈ plan.conflicts := by
    rw [hplan, planConflicts, List.mem_filterMap]
    refine ⟨(handle, backupTs), hb, ?_⟩
    change (liveSide.find? fun s => s.1 = handle).map _ = _
    rw [hfind, Option.map_some]
  exact resolutionFor_of_mem hnodup hc

end Conflicts

/-! ### The runs of the endpoint -/

/-- What the plan request may do, as rules. -/
abbrev planRules (W : World) : Rules PlanOp Node := execRules (planExec W)

theorem yields_onNode {α : Type} {x : NodeHandler α} {P : Node → α → Prop}
    (h : Yields (nodeRules W) x n P) : Yields (planRules W) (runOnNode x) n P :=
  yields_embedded h

theorem putRestorePlan_yields (plan : RestorePlan) :
    Yields (planRules W) (putRestorePlan W plan) n fun n' _ =>
      planRow plan ∈ n'.restorePlans := by
  refine yields_bind (yields_onNode (yields_any _)) ?_
  rintro n₁ applied -
  cases applied with
  | some t => exact yields_throw _
  | none =>
    dsimp only
    split_ifs
    · exact yields_throw _
    · refine yields_attempt trivial ?_
      rintro _ n₂ (⟨-, rfl⟩ | ⟨-, e, he⟩)
      · exact List.mem_append_right _ (List.mem_singleton_self _)
      · cases he

/-- The live secrets of a namespace, as their rows hold them. -/
def liveSecrets (st : Store) (id : NamespaceId) : List Secret :=
  (st.secrets.filter fun row => row.namespaceId = id).map fun row => asStored (loaded st row)

/-- A plan for a backup of the namespace against what is live. -/
structure PlannedFrom (W : World) (n : Node) (namespaceId : NamespaceId) (mode : RestoreMode)
    (plan : RestorePlan) (secrets : List Secret) : Prop where
  held : ∃ backup ∈ n.backups, backup.namespaceId = namespaceId ∧
    backup.snapshotId = plan.sourceBackupId ∧ HeldBy W n backup secrets
  target : plan.targetNamespace = some namespaceId
  conflicts : ∃ live : List Secret, live.Perm (liveSecrets n.app.store namespaceId) ∧
    plan.conflicts = planConflicts (planSide secrets) (planSide live) mode

theorem listBackups_yields (id : NamespaceId) :
    Yields (nodeRules W) (storageCall (.listBackups id)) n fun n' backups => n' = n ∧
      ∀ b ∈ backups, b ∈ n.backups ∧ b.namespaceId = id := by
  refine yields_storage ?_
  rintro backups m ⟨rfl, fault, rows, ⟨hperm, -⟩, hrows⟩
  obtain rfl := Except.ok.inj (faulty_ok hrows.symm).2
  refine ⟨rfl, fun b hb => ?_⟩
  obtain ⟨hmem, hns⟩ := List.mem_filter.mp (hperm.subset hb)
  exact ⟨hmem, by simpa using hns⟩

/-- A plan and its counts, for the backup of the command against what is live. -/
structure Previews (W : World) (n : Node) (cmd : RestorePlanCommand) (output : RestorePlanOutput)
    (secrets live : List Secret) : Prop where
  source : output.plan.sourceBackupId = cmd.backupSnapshotId
  held : ∃ backup ∈ n.backups, backup.namespaceId = cmd.namespaceId ∧
    backup.snapshotId = cmd.backupSnapshotId ∧ HeldBy W n backup secrets
  target : output.plan.targetNamespace = some cmd.namespaceId
  listed : live.Perm (liveSecrets n.app.store cmd.namespaceId)
  conflicts : output.plan.conflicts = planConflicts (planSide secrets) (planSide live) cmd.mode
  counted : output = .counted output.plan (planSide secrets) (planSide live)

theorem Previews.planned {cmd : RestorePlanCommand} {output : RestorePlanOutput}
    {secrets live : List Secret} (h : Previews W n cmd output secrets live) :
    PlannedFrom W n cmd.namespaceId cmd.mode output.plan secrets :=
  ⟨h.source ▸ h.held, h.target, live, h.listed, h.conflicts⟩

theorem restorePlan_yields (cmd : RestorePlanCommand) :
    Yields (planRules W) (cmd.execute W) n fun n' output =>
      planRow output.plan ∈ n'.restorePlans ∧
        ∃ secrets live, Previews W n cmd output secrets live := by
  refine yields_bind (yields_onNode (yields_embedded requireUnsealed_yields)) ?_
  rintro n' _ ⟨rfl, -⟩
  refine yields_bind (yields_onNode (listBackups_yields cmd.namespaceId)) ?_
  rintro m backups ⟨rfl, hbackups⟩
  refine yields_bind (yields_orThrow fun backup hfound => ⟨rfl, hfound⟩) (P := fun m' backup =>
    m' = m ∧ backups.find? (fun b => b.snapshotId = cmd.backupSnapshotId) = some backup) ?_
  rintro m' backup ⟨rfl, hfound⟩
  obtain ⟨hmem, hns⟩ := hbackups backup (List.mem_of_find?_eq_some hfound)
  have hsource : backup.snapshotId = cmd.backupSnapshotId := by simpa using List.find?_some hfound
  refine yields_bind (yields_onNode (readArtifact_yields backup cmd.namespaceId)) ?_
  rintro n₁ ⟨key, secrets⟩ ⟨hsame, hheld⟩
  have happ : n₁.app = m'.app := by rw [hsame]
  refine yields_bind (yields_onNode (listSecrets_yields cmd.namespaceId)) ?_
  rintro n₂ live ⟨rfl, rows, hrows, rfl⟩
  refine yields_bind (yields_onNode (yields_any _)) ?_
  rintro n₃ validatedAt -
  refine yields_bind (yields_onNode (yields_any _)) ?_
  rintro n₄ id -
  refine yields_bind (putRestorePlan_yields _) ?_
  intro n₅ _ hrow
  refine yields_pure ⟨hrow, secrets, (rows.map (loaded n₂.app.store)).map asStored,
    hsource, ⟨backup, hmem, hns, hsource, hheld⟩, rfl, ?_, rfl, rfl⟩
  rw [List.map_map, happ]
  rw [happ] at hrows
  exact hrows.map _

theorem defaultNamespaceId_yields :
    Yields (planRules W) defaultNamespaceId n fun n' _ => n' = n := by
  have hstill : Still (planRules W) (do
      runOnNode (runInContext requireUnsealed)
      attempt (fun e => NodeError.app (.storage e)) .listNamespaces) := by
    refine still_bind (still_embedded (still_embedded (still_requireUnsealed ?_))) fun _ => ?_
    · refine fun m => ⟨trivial, fun b m' hx => ?_⟩
      change appExec W (.identity .isUnsealed) m b m' at hx
      exact appExec_idle rfl (Prod.mk.inj (appExec_exec hx)).2 hx
    · exact still_attempt fun m => ⟨trivial, fun _ _ hx => hx.1⟩
  refine yields_bind (yields_withError (still_resultOf hstill).yields) ?_
  rintro n' listed rfl
  cases listed with
  | ok namespaces => exact yields_pure rfl
  | error e => exact yields_pure rfl

theorem listBackupsQuery_yields (id : NamespaceId) :
    Yields (planRules W) (listBackupsQuery id) n fun n' _ => n' = n := by
  refine yields_bind (yields_onNode (yields_embedded requireUnsealed_yields)) ?_
  rintro n' _ ⟨rfl, -⟩
  refine yields_bind (yields_onNode (listBackups_yields id)) ?_
  rintro n' backups ⟨rfl, -⟩
  exact yields_pure rfl

/-- **What the endpoint stores**: a plan in the mode that the product mode stands for. -/
theorem createRestorePlan_yields (body : CreateRestorePlanRequest) :
    Yields (planRules W) (createRestorePlan W body) n fun n' reply =>
      ∃ plan namespaceId secrets, planRow plan ∈ n'.restorePlans ∧ reply.planId = uuidText plan.id ∧
        PlannedFrom W n namespaceId body.mode.domainMode plan secrets := by
  refine yields_bind defaultNamespaceId_yields ?_
  rintro n' found rfl
  refine yields_bind (yields_orThrow fun id _ => rfl) (P := fun m _ => m = n') ?_
  rintro m namespaceId rfl
  refine yields_bind (yields_withError (listBackupsQuery_yields namespaceId)) ?_
  rintro n' backups rfl
  refine yields_bind (yields_orThrow fun backup _ => rfl) (P := fun m _ => m = n') ?_
  rintro m backup rfl
  refine yields_bind (yields_withError (restorePlan_yields _)) ?_
  rintro n₁ output ⟨hrow, secrets, live, hpreviews⟩
  exact yields_pure ⟨output.plan, namespaceId, secrets, hrow, rfl, hpreviews.planned⟩

/-! ### What the modes promise -/

/-- What a mode says of a secret of the backup and the live secret under its handle: under
`newest_wins` the side whose current version is newer, the live one on a tie, and under `overwrite`
the backup.  What `merge` says is not about the sides. -/
def ProductMode.Means (mode : ProductMode) (backup live : Secret)
    (resolution : Option ConflictResolution) : Prop :=
  match mode with
  | .newestWins => ∀ vb vl, backup.currentVersion = some vb → live.currentVersion = some vl →
      resolution = some (if vl.createdAt.lt vb.createdAt then .newestWinsBackup else .newestWinsExisting)
  | .overwrite => resolution = some .newestWinsBackup
  | .merge => True

/-- The times of creation stand for what the mode is about: those of the current versions are in the
same order, and the live secret is not the younger one. -/
def ProductMode.Told (mode : ProductMode) (backup live : Secret) : Prop :=
  match mode with
  | .newestWins => ∀ vb vl, backup.currentVersion = some vb → live.currentVersion = some vl →
      (live.createdAt.lt backup.createdAt = true ↔ vl.createdAt.lt vb.createdAt = true)
  | .overwrite => backup.createdAt.lt live.createdAt = false
  | .merge => True

theorem means_iff (mode : ProductMode) (backup live : Secret) :
    mode.Means backup live (some (resolve mode.domainMode backup.createdAt live.createdAt)) ↔
      mode.Told backup live := by
  cases mode with
  | merge => exact Iff.rfl
  | overwrite =>
    simp only [ProductMode.Means, ProductMode.Told, ProductMode.domainMode, resolve, Option.some.injEq]
    cases backup.createdAt.lt live.createdAt with
    | true => simp
    | false => simp
  | newestWins =>
    simp only [ProductMode.Means, ProductMode.Told, ProductMode.domainMode, resolve, Option.some.injEq]
    refine forall_congr' fun vb => forall_congr' fun vl => imp_congr_right fun _ =>
      imp_congr_right fun _ => ?_
    cases live.createdAt.lt backup.createdAt with
    | true => cases vl.createdAt.lt vb.createdAt <;> simp
    | false => cases vl.createdAt.lt vb.createdAt <;> simp

theorem snapshot_handles {secrets : List Secret} (h : Snapshot secrets) :
    (secrets.map (·.handle)).Nodup := by
  obtain ⟨st, id, rows, hs, hperm, rfl⟩ := h
  rw [List.map_map]
  exact (hperm.map _).nodup_iff.mpr (hs.handles.sublist (List.filter_sublist.map _))

theorem liveSecrets_handles {st : Store} (hs : Schema st) (id : NamespaceId) :
    ((liveSecrets st id).map (·.handle)).Nodup := by
  rw [liveSecrets, List.map_map]
  exact hs.handles.sublist (List.filter_sublist.map _)

/-- A plan does what its mode promises for every handle that both sides have. -/
def KeepsPromise (mode : ProductMode) (plan : RestorePlan) (secrets live : List Secret) : Prop :=
  ∀ b ∈ secrets, ∀ l ∈ live, l.handle = b.handle → mode.Means b l (resolutionFor plan b.handle)

theorem keepsPromise_iff {namespaceId : NamespaceId} {mode : ProductMode} {plan : RestorePlan}
    {secrets : List Secret} (hs : Schema n.app.store) (hsnap : Snapshot secrets)
    (hplanned : PlannedFrom W n namespaceId mode.domainMode plan secrets) :
    KeepsPromise mode plan secrets (liveSecrets n.app.store namespaceId) ↔
      ∀ b ∈ secrets, ∀ l ∈ liveSecrets n.app.store namespaceId, l.handle = b.handle →
        mode.Told b l := by
  obtain ⟨-, -, live, hperm, hconflicts⟩ := hplanned
  have hbackup : ((planSide secrets).map (·.1)).Nodup := by
    rw [planSide, List.map_map]
    exact snapshot_handles hsnap
  have hlive : ((planSide live).map (·.1)).Nodup := by
    rw [planSide, List.map_map]
    exact (hperm.map _).nodup_iff.mpr (liveSecrets_handles hs namespaceId)
  refine forall_congr' fun b => forall_congr' fun hb => forall_congr' fun l => forall_congr' fun hl =>
    forall_congr' fun hhandle => ?_
  have hside : (b.handle, l.createdAt) ∈ planSide live :=
    List.mem_map.mpr ⟨l, hperm.mem_iff.mpr hl, by rw [hhandle]⟩
  rw [resolutionFor_planConflicts hconflicts hbackup hlive
    (List.mem_map.mpr ⟨b, hb, rfl⟩) hside]
  exact means_iff mode b l

/-- **Restore modes.**  A plan does what its mode promises exactly when the times at which the secrets
were created tell it. -/
theorem restore_modes_iff (W : World) (n n' : Node) (body : CreateRestorePlanRequest)
    (reply : RestorePlanResponse) (hist : List (Event PlanOp)) (hs : Schema n.app.store)
    (hsnap : ∀ backup ∈ n.backups, ∀ secrets, HeldBy W n backup secrets → Snapshot secrets)
    (hrun : Runs (planExec W) (createRestorePlan W body).run n hist (.ok reply) n') :
    ∃ plan namespaceId secrets, planRow plan ∈ n'.restorePlans ∧ reply.planId = uuidText plan.id ∧
      PlannedFrom W n namespaceId body.mode.domainMode plan secrets ∧
      (KeepsPromise body.mode plan secrets (liveSecrets n.app.store namespaceId) ↔
        ∀ b ∈ secrets, ∀ l ∈ liveSecrets n.app.store namespaceId, l.handle = b.handle →
          body.mode.Told b l) := by
  obtain ⟨plan, namespaceId, secrets, hrow, hid, hplanned⟩ :=
    wp_runs (createRestorePlan_yields body) hrun reply rfl
  obtain ⟨backup, hmem, -, -, hheld⟩ := hplanned.held
  exact ⟨plan, namespaceId, secrets, hrow, hid, hplanned,
    keepsPromise_iff hs (hsnap backup hmem secrets hheld) hplanned⟩

/-! ### Plans that go through -/

/-- Whole seconds after the epoch. -/
def atSecond (t : Int) : Rfc3339Timestamp := .ofSeconds t

/-- The secret number `id` under `sampleHandle`, put with its version number `version`. -/
def samplePut (id version : UInt8) (t : Rfc3339Timestamp) : Secret where
  id := ⟨sampleUuid id⟩
  namespaceId := sampleNamespace.id
  handle := sampleHandle
  category := .database
  sensitivity := .medium
  tags := []
  publicMetadata := ⟨none, false⟩
  createdAt := t
  versions := [⟨⟨sampleUuid version⟩, ⟨sampleUuid id⟩, 1, sampleBlob sampleKey [version], 1, t, none⟩]
  currentVersionId := ⟨sampleUuid version⟩

/-- A store with the secrets, in one namespace. -/
def sampleSecrets (secrets : List Secret) : Store := { Store.empty with
  namespaces := [sampleNamespace]
  secrets := secrets.map rowOf
  versions := allVersions secrets }

/-- A vault with a backup of some secrets and no plans. -/
def sampleUnplanned (payload : BackupPlaintext) (st : Store) : Node :=
  { sampleNode payload st (samplePlan .halt) with restorePlans := [] }

/-- The plan for the backup against what is live. -/
def samplePlanned (payload : BackupPlaintext) (live : List Secret) (mode : RestoreMode) :
    RestorePlan where
  id := sampleUuid 8
  sourceBackupId := sampleUuid 9
  targetNamespace := some sampleNamespace.id
  conflicts := planConflicts (planSide (payload.secrets.map jsonSecret)) (planSide live) mode
  expiresAt := planExpiry epoch

/-- The command without faults. -/
theorem restorePlan_runs (payload : BackupPlaintext) (st : Store) (mode : RestoreMode)
    {rows : List SecretRow} (hrows : Ordered (fun a b : SecretRow => b.createdAt.lt a.createdAt = false)
      (st.secrets.filter fun row => row.namespaceId = sampleNamespace.id) rows)
    {live : List Secret} (hlive : (rows.map (loaded st)).map asStored = live) :
    ∃ n', n'.restorePlans = [planRow (samplePlanned payload live mode)] ∧ ∃ hist,
      Runs (planExec (sampleWorld payload))
        ((RestorePlanCommand.mk sampleNamespace.id (sampleUuid 9) mode).execute (sampleWorld payload)).run
        (sampleUnplanned payload st) hist (.ok (.counted (samplePlanned payload live mode)
          (planSide (payload.secrets.map jsonSecret)) (planSide live))) n' := by
  subst hlive
  let n := sampleUnplanned payload st
  let plan := samplePlanned payload ((rows.map (loaded st)).map asStored) mode
  let n₁ : Node := { n with app := { n.app with issued := [sampleUuid 8] } }
  have hlist : ∃ hist, Runs (planExec (sampleWorld payload)) (runOnNode (listSecrets sampleNamespace.id)).run
      n hist (.ok (rows.map (loaded st))) n := by
    obtain ⟨hist, h⟩ := listSecrets_runs (W := sampleWorld payload) (n := n) hrows
    exact ⟨_, runs_withError.mpr ⟨.ok _, rfl, runs_embed.mpr ⟨hist, rfl, h⟩⟩⟩
  obtain ⟨_, hlist⟩ := hlist
  refine ⟨{ n₁ with restorePlans := [planRow plan] }, rfl, ?_⟩
  refine exists_runs_act rfl true n ⟨rfl, rfl⟩ ?_
  refine exists_runs_act rfl (.ok n.backups) n
    ⟨rfl, none, _, ⟨List.Perm.refl _, List.pairwise_singleton _ _⟩, rfl⟩ ?_
  refine exists_runs_act rfl (.ok [0]) n ⟨rfl, .inl ⟨_, rfl, rfl⟩⟩ ?_
  refine exists_runs_act rfl (some sampleKey) n ⟨⟨rfl, rfl⟩, rfl⟩ ?_
  refine exists_runs_act rfl (.ok "age1".toUTF8.data.toList) n (.inl ⟨rfl, rfl⟩) ?_
  refine exists_runs_act rfl (.ok "AGE-SECRET-KEY-1".toUTF8.data.toList) n (.inl ⟨rfl, rfl⟩) ?_
  refine exists_runs_act rfl (.ok [0]) n ⟨rfl, rfl⟩ ?_
  refine exists_runs_ok_bind hlist ?_
  refine exists_runs_act rfl epoch n rfl ?_
  refine exists_runs_act rfl (sampleUuid 8) n₁ ⟨⟨List.not_mem_nil, rfl⟩, rfl⟩ ?_
  refine exists_runs_act rfl (.ok none) n₁ ⟨rfl, none, rfl⟩ ?_
  refine exists_runs_act rfl (.ok ()) { n₁ with restorePlans := [planRow plan] } (.inl ⟨rfl, rfl⟩) ?_
  exact exists_runs_ret rfl

/-- A vault with a backup of one secret and another live under the handle. -/
def sampleBackedUp (backup live : Secret) : Node :=
  sampleUnplanned ⟨none, [backup]⟩ (sampleSecrets [live])

theorem samplePlan_runs (backup live : Secret) (mode : ProductMode)
    (hns : live.namespaceId = sampleNamespace.id) :
    ∃ reply n' hist, Runs (planExec (sampleWorld ⟨none, [backup]⟩))
      (createRestorePlan (sampleWorld ⟨none, [backup]⟩) ⟨uuidText (sampleUuid 9), mode⟩).run
      (sampleBackedUp backup live) hist (.ok reply) n' := by
  let n := sampleBackedUp backup live
  have hrows : Ordered (fun a b : SecretRow => b.createdAt.lt a.createdAt = false)
      (n.app.store.secrets.filter fun row => row.namespaceId = sampleNamespace.id) [rowOf live] := by
    have hfilter : ([rowOf live].filter fun row => row.namespaceId = sampleNamespace.id) =
        [rowOf live] := List.filter_cons_of_pos (decide_eq_true hns)
    exact ⟨hfilter ▸ List.Perm.refl _, List.pairwise_singleton _ _⟩
  have hquery : ∃ hist, Runs (planExec (sampleWorld ⟨none, [backup]⟩))
      (listBackupsQuery sampleNamespace.id).run n hist (.ok n.backups) n := by
    refine exists_runs_act rfl true n ⟨rfl, rfl⟩ ?_
    refine exists_runs_act rfl (.ok n.backups) n
      ⟨rfl, none, _, ⟨List.Perm.refl _, List.pairwise_singleton _ _⟩, rfl⟩ ?_
    refine exists_runs_ret ?_
    exact congrArg (fun l => Prog.ret (Except.ok l)) (List.mergeSort_singleton _)
  obtain ⟨_, hquery⟩ := hquery
  have hfound : n.backups.find? (fun b => fileName b.artifactPath = some (uuidText (sampleUuid 9)) ||
      uuidText b.snapshotId = uuidText (sampleUuid 9)) = some (sampleBackup ⟨none, [backup]⟩) :=
    List.find?_cons_of_pos (by simp [sampleBackup])
  obtain ⟨n', -, _, hrun⟩ := restorePlan_runs ⟨none, [backup]⟩ (sampleSecrets [live]) mode.domainMode
    hrows rfl
  generalize RestorePlanOutput.counted _ _ _ = output at hrun
  refine ⟨output.response ⟨uuidText (sampleUuid 9), mode⟩, n', ?_⟩
  refine exists_runs_act rfl true n ⟨rfl, rfl⟩ ?_
  refine exists_runs_act rfl (.ok [sampleNamespace]) n
    ⟨rfl, none, _, ⟨List.Perm.refl _, List.pairwise_singleton _ _⟩, rfl⟩ ?_
  refine exists_runs_ok_bind (runs_orThrow (a := sampleNamespace.id) rfl) ?_
  refine exists_runs_ok_bind (runs_withError.mpr ⟨.ok n.backups, rfl, hquery⟩) ?_
  refine exists_runs_ok_bind (runs_orThrow hfound) ?_
  exact exists_runs_ok_bind (runs_withError.mpr ⟨.ok _, rfl, hrun⟩) (exists_runs_ret rfl)

theorem sampleSecrets_loaded {s : Secret} (h : WellVersioned s) :
    loaded (sampleSecrets [s]) (rowOf s) = s := by
  have hfilter : (allVersions [s]).filter (fun v => v.secretId = s.id) = s.versions := by
    rw [List.filter_eq_self.mpr]
    · exact List.append_nil _
    · intro v hv
      obtain ⟨_, hs, hmem⟩ := mem_allVersions.mp hv
      obtain rfl := List.mem_singleton.mp hs
      simpa using h.parents v hmem
  have hsort : s.versions.mergeSort (fun a b => a.versionNo ≤ b.versionNo) = s.versions :=
    List.mergeSort_of_pairwise (h.increasing.imp fun hlt => decide_eq_true (UInt32.le_of_lt hlt))
  have hload : (sampleSecrets [s]).loadVersionsForSecret s.id = s.versions := by
    change ((allVersions [s]).filter fun v => v.secretId = s.id).mergeSort _ = _
    rw [hfilter, hsort]
  change secretOf (rowOf s) ((sampleSecrets [s]).loadVersionsForSecret s.id) = s
  rw [hload]
  rfl

theorem sampleSecrets_schema {s : Secret} (h : WellVersioned s) : Schema (sampleSecrets [s]) := by
  have hversions : (sampleSecrets [s]).versions = s.versions := List.append_nil _
  refine ⟨⟨List.nodup_singleton _, List.nodup_singleton _, ?_⟩, ?_⟩
  · rw [hversions]
    exact h.ids
  · intro r hr r' hr' _ hno
    rw [hversions] at hr hr'
    have hnodup : (s.versions.map (·.versionNo)).Nodup :=
      List.pairwise_map.mpr (h.increasing.imp fun hlt => UInt32.ne_of_lt hlt)
    exact List.inj_on_of_nodup_map hnodup hr hr' hno

theorem sampleBackedUp_snapshot {backup live : Secret} (h : WellVersioned backup)
    (hns : backup.namespaceId = sampleNamespace.id) {b : Backup} {secrets : List Secret}
    (hheld : HeldBy (sampleWorld ⟨none, [backup]⟩) (sampleBackedUp backup live) b secrets) :
    secrets = [jsonSecret backup] ∧ Snapshot secrets := by
  obtain rfl := heldBy_sample (fun _ => rfl) hheld
  have hfilter : ([rowOf backup].filter fun row => row.namespaceId = sampleNamespace.id) =
      [rowOf backup] := List.filter_cons_of_pos (decide_eq_true hns)
  refine ⟨rfl, sampleSecrets [backup], sampleNamespace.id, [rowOf backup], sampleSecrets_schema h, ?_, ?_⟩
  · exact hfilter ▸ List.Perm.refl _
  · change [jsonSecret backup] = [jsonSecret (loaded (sampleSecrets [backup]) (rowOf backup))]
    rw [sampleSecrets_loaded h]

/-- A plan for a backup of one secret against another does not keep the promise of its mode. -/
def Misread (mode : ProductMode) (backup live : Secret) : Prop :=
  ∃ reply n' hist, Runs (planExec (sampleWorld ⟨none, [backup]⟩))
    (createRestorePlan (sampleWorld ⟨none, [backup]⟩) ⟨uuidText (sampleUuid 9), mode⟩).run
    (sampleBackedUp backup live) hist (.ok reply) n' ∧
  ∃ plan namespaceId secrets, planRow plan ∈ n'.restorePlans ∧ reply.planId = uuidText plan.id ∧
    PlannedFrom (sampleWorld ⟨none, [backup]⟩) (sampleBackedUp backup live) namespaceId mode.domainMode
      plan secrets ∧
    Snapshot secrets ∧
    ¬ KeepsPromise mode plan secrets (liveSecrets (sampleSecrets [live]) namespaceId)

theorem misread_of_told {mode : ProductMode} {backup live : Secret} (hb : WellVersioned backup)
    (hl : WellVersioned live) (hbackup : backup.namespaceId = sampleNamespace.id)
    (hlive : live.namespaceId = sampleNamespace.id) (hhandle : live.handle = backup.handle)
    (htold : ¬ mode.Told (jsonSecret backup) (asStored live)) : Misread mode backup live := by
  obtain ⟨reply, n', hist, hrun⟩ := samplePlan_runs backup live mode hlive
  refine ⟨reply, n', hist, hrun, ?_⟩
  obtain ⟨plan, namespaceId, secrets, hrow, hid, hplanned⟩ :=
    wp_runs (createRestorePlan_yields _) hrun reply rfl
  obtain ⟨b, hmem, hns, -, hheld⟩ := hplanned.held
  obtain ⟨rfl, hsnap⟩ := sampleBackedUp_snapshot hb hbackup hheld
  obtain rfl := List.mem_singleton.mp hmem
  refine ⟨plan, namespaceId, _, hrow, hid, hplanned, hsnap, fun hkeeps => htold ?_⟩
  have hfilter : ([rowOf live].filter fun row => row.namespaceId = namespaceId) = [rowOf live] :=
    List.filter_cons_of_pos (decide_eq_true (hlive.trans hns))
  refine (keepsPromise_iff (sampleSecrets_schema hl) hsnap hplanned).mp hkeeps _
    (List.mem_singleton_self _) _ ?_ hhandle
  change asStored live ∈ ([rowOf live].filter fun row => row.namespaceId = namespaceId).map fun row =>
    asStored (loaded (sampleSecrets [live]) row)
  rw [hfilter, List.map_singleton, sampleSecrets_loaded hl]
  exact List.mem_singleton_self _

theorem samplePut_wellVersioned (id version : UInt8) (t : Rfc3339Timestamp) :
    WellVersioned (samplePut id version t) :=
  ⟨List.pairwise_singleton _ _, List.nodup_singleton _, fun _ hv => by
    obtain rfl := List.mem_singleton.mp hv
    rfl⟩

/-- The version of a rotation at the tenth second. -/
def sampleNext : SecretVersion :=
  ⟨⟨sampleUuid 13⟩, ⟨sampleUuid 12⟩, 2, sampleBlob sampleKey [13], 1, atSecond 10, none⟩

/-- A secret put at the epoch and rotated. -/
def sampleRotated : Secret := { samplePut 12 11 epoch with
  versions := (samplePut 12 11 epoch).versions.map (setDeprecated (atSecond 10)) ++ [sampleNext]
  currentVersionId := sampleNext.id }

theorem sampleRotated_wellVersioned : WellVersioned sampleRotated := by
  refine ⟨?_, by decide, ?_⟩
  · exact List.pairwise_pair.mpr (by decide)
  · intro v hv
    rcases List.mem_cons.mp hv with rfl | hv
    · rfl
    · obtain rfl := List.mem_singleton.mp hv
      rfl

/-- **Modes misread**: a secret that was deleted and put again is not overwritten, and one that was
rotated after the other side was put gives way to it. -/
theorem modes_misread :
    (∃ st₁ st₂, (sampleSecrets []).putSecret (samplePut 2 1 epoch) = .ok st₁ ∧
      st₁ = sampleSecrets [samplePut 2 1 epoch] ∧ st₁.deleteSecret ⟨sampleUuid 2⟩ = .ok st₂ ∧
      st₂.putSecret (samplePut 12 11 (atSecond 5)) = .ok (sampleSecrets [samplePut 12 11 (atSecond 5)])) ∧
    Misread .overwrite (samplePut 2 1 epoch) (samplePut 12 11 (atSecond 5)) ∧
    (samplePut 12 11 epoch).rotate sampleNext retainCount (atSecond 10) = .ok sampleRotated ∧
    Misread .newestWins (samplePut 2 1 (atSecond 5)) sampleRotated := by
  refine ⟨⟨_, _, rfl, rfl, rfl, rfl⟩, ?_, rfl, ?_⟩
  · refine misread_of_told (samplePut_wellVersioned _ _ _) (samplePut_wellVersioned _ _ _) rfl rfl rfl ?_
    exact fun h : epoch.lt (atSecond 5) = false => absurd h (by decide)
  · refine misread_of_told (samplePut_wellVersioned _ _ _) sampleRotated_wellVersioned rfl rfl rfl ?_
    intro h
    have hnewer := (h _ _ rfl rfl).mp rfl
    exact absurd hnewer (by decide)

/-- The backup of a secret against that secret: it is resolved to the backup. -/
theorem overwrite_kept : ∃ reply n' hist,
    Runs (planExec (sampleWorld ⟨none, [samplePut 2 1 epoch]⟩))
      (createRestorePlan (sampleWorld ⟨none, [samplePut 2 1 epoch]⟩)
        ⟨uuidText (sampleUuid 9), .overwrite⟩).run
      (sampleBackedUp (samplePut 2 1 epoch) (samplePut 2 1 epoch)) hist (.ok reply) n' ∧
    ∃ plan namespaceId secrets, planRow plan ∈ n'.restorePlans ∧
      KeepsPromise .overwrite plan secrets
        (liveSecrets (sampleSecrets [samplePut 2 1 epoch]) namespaceId) ∧
      secrets = [jsonSecret (samplePut 2 1 epoch)] := by
  have hwell := samplePut_wellVersioned 2 1 epoch
  obtain ⟨reply, n', hist, hrun⟩ :=
    samplePlan_runs (samplePut 2 1 epoch) (samplePut 2 1 epoch) .overwrite rfl
  obtain ⟨plan, namespaceId, secrets, hrow, -, hplanned, hiff⟩ := restore_modes_iff _ _ n' _ reply hist
    (sampleSecrets_schema hwell) (fun _ _ _ h => (sampleBackedUp_snapshot hwell rfl h).2) hrun
  obtain ⟨b, -, -, -, hheld⟩ := hplanned.held
  obtain ⟨rfl, -⟩ := sampleBackedUp_snapshot hwell rfl hheld
  refine ⟨reply, n', hist, hrun, plan, namespaceId, _, hrow, hiff.mpr ?_, rfl⟩
  intro b hb l hl _
  obtain rfl := List.mem_singleton.mp hb
  obtain ⟨row, hrow, rfl⟩ := List.mem_map.mp hl
  obtain rfl := List.mem_singleton.mp (List.mem_of_mem_filter hrow)
  rfl

end MerkleVault.App.RestorePlans
