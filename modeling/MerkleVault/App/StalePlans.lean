import MerkleVault.App.RestoreOnce
import MerkleVault.App.RestorePlans

/-! # Executions of Stale Plans

A plan is made against the secrets that were live then, and executed against those that are live
minutes later.  An execution writes what the plan lets through whatever has become live meanwhile: a
secret of the backup that met no live one when the plan was made is upserted over the one with its
identifier.

* `executeRestore_writes`: what an execution has written when it ends, returning or failing;
* `stale_plan_iff`: when the secrets that the plan does not overwrite are left as they are. -/

namespace MerkleVault.App.StalePlans

open MerkleVault.Types MerkleVault.Lib.Program
open MerkleVault.Secrets.Aggregate MerkleVault.Sqlite.Tables MerkleVault.Sqlite.Versions
open MerkleVault.Sqlite.Reload MerkleVault.Sqlite.Retention
open MerkleVault.App.Context MerkleVault.App.Lifecycle MerkleVault.App.Host
open MerkleVault.App.BackupCommands MerkleVault.App.AuditDurability MerkleVault.App.Restore
open MerkleVault.App.MergeRestore MerkleVault.App.RestorePlans MerkleVault.App.RestoreOnce
open MerkleVault.App.Reveal MerkleVault.App.AuditCoverage MerkleVault.Audit.Integrity

variable {W : World} {n n' : Node}

/-! ### Parts that write no secrets -/

/-- The tables of secrets and versions hold what they held. -/
def SameSecrets (n n' : Node) : Prop :=
  n'.app.store.secrets = n.app.store.secrets ∧ n'.app.store.versions = n.app.store.versions

/-- Every action but a write of the context. -/
def writesNone {β : Type} : NodeOp β → Prop
  | .app op => appReads op
  | .vault _ => True

theorem SameSecrets.of_content (h : content n'.app.store = content n.app.store) : SameSecrets n n' := by
  have hsecrets := congrArg Store.secrets h
  have hversions := congrArg Store.versions h
  exact ⟨hsecrets, hversions⟩

theorem sameSecrets_of_exec {β : Type} {op : NodeOp β} {r : β} (h : writesNone op)
    (hx : nodeExec W op n r n') : SameSecrets n n' := by
  cases op with
  | app op =>
    refine .of_content (exec_content (appExec_exec hx) ?_)
    cases op with
    | write w => exact h.elim
    | _ => rfl
  | vault op =>
    change vaultExec op n r n' at hx
    cases op with
    | markRestorePlanApplied id appliedAt =>
      obtain ⟨fault, hx⟩ := hx
      split at hx
      · rw [hx.2]
        exact ⟨rfl, rfl⟩
      · rw [hx.2]
        exact ⟨rfl, rfl⟩
    | _ => exact .of_content (congrArg Prod.fst (vaultExec_tables hx rfl))

theorem writesNone_of_reads {β : Type} {op : NodeOp β} (h : reads op) : writesNone op := by
  cases op with
  | app op => exact h
  | vault op => trivial

theorem SameSecrets.trans {n'' : Node} (h : SameSecrets n n') (h' : SameSecrets n' n'') :
    SameSecrets n n'' := ⟨h'.1.trans h.1, h'.2.trans h.2⟩

theorem wp_writesNone {α : Type} {x : NodeHandler α} (h : Only writesNone x.run) :
    Wp (nodeRules W) x.run n fun n' _ => SameSecrets n n' :=
  wp_of_only (I := SameSecrets n) (fun _ _ => trivial)
    (fun hop hsame hx => hsame.trans (sameSecrets_of_exec hop hx)) h ⟨rfl, rfl⟩

/-- **Composition after a part that writes no secrets.** -/
theorem wp_after {α β : Type} {x : NodeHandler α} {f : α → NodeHandler β} {P : Node → α → Prop}
    {Q : Node → Except NodeError β → Prop} (hx : Yields (nodeRules W) x n P)
    (hx' : Only writesNone x.run)
    (hok : ∀ n' a, SameSecrets n n' → P n' a → Wp (nodeRules W) (f a).run n' Q)
    (herr : ∀ n' e, SameSecrets n n' → Q n' (.error e)) : Wp (nodeRules W) (x >>= f).run n Q := by
  rw [wp_except_bind]
  refine (Wp.and hx (wp_writesNone hx')).mono ?_
  rintro n' r ⟨hP, hsame⟩
  cases r with
  | ok a => exact hok n' a hsame (hP a rfl)
  | error e => exact herr n' e hsame

/-! ### What an execution has written -/

theorem write_leaves (w : Write) : Wp (contextRules W) (write w).run n fun n' r =>
    (r = .ok () ∧ ∃ store, w.apply n.app.store = .ok store ∧
      n' = { n with app := { n.app with store := store } }) ∨ (∃ e, r = .error e) ∧ n' = n := by
  refine wp_attempt.mpr ⟨trivial, fun r n' hx => ?_⟩
  change appExec W (.write w) n r n' at hx
  obtain ⟨fault, hw⟩ := appExec_exec hx
  rcases writeSection_eq hw with ⟨rfl, store, hstore, happ⟩ | ⟨⟨e, rfl⟩, happ⟩
  · refine .inl ⟨rfl, store, hstore, ?_⟩
    rw [appExec_frame rfl hx, happ]
  · exact .inr ⟨⟨_, rfl⟩, appExec_idle rfl happ hx⟩

/-- The loop has put the first of what it is to write, and all of it when it returns. -/
theorem applySecrets_writes (plan : RestorePlan) (live : List Handle) :
    ∀ {secrets : List Secret} {count : UInt32} {n : Node},
      Wp (contextRules W) (applySecrets plan live secrets count).run n fun n' r =>
        ∃ ws store, ws <+: writes plan live secrets ∧
          ((∃ restored, r = .ok restored) → ws = writes plan live secrets) ∧
          ws.foldlM Store.putSecret n.app.store = .ok store ∧
          n' = { n with app := { n.app with store := store } }
  | [], _, n => ⟨[], n.app.store, List.nil_prefix, fun _ => rfl, rfl, rfl⟩
  | secret :: rest, count, n => by
    rw [applySecrets]
    cases h : restoredAs plan live secret with
    | none =>
      rw [writes, List.filterMap_cons_none h]
      exact applySecrets_writes plan live
    | some s =>
      rw [writes, List.filterMap_cons_some h]
      refine wp_except_bind.mpr ((write_leaves (.putSecret s)).mono ?_)
      rintro n₁ r (⟨rfl, store₁, hput, rfl⟩ | ⟨⟨e, rfl⟩, rfl⟩)
      · refine (applySecrets_writes plan live).mono ?_
        rintro n' r ⟨ws, store, hprefix, hall, hputs, rfl⟩
        refine ⟨s :: ws, store, List.prefix_cons_inj s |>.mpr hprefix,
          fun hok => congrArg (s :: ·) (hall hok), ?_, rfl⟩
        rw [List.foldlM_cons, show Store.putSecret n.app.store s = .ok store₁ from hput]
        exact hputs
      · exact ⟨[], n₁.app.store, List.nil_prefix, fun h => absurd h.choose_spec error_ne_ok, rfl, rfl⟩

theorem only_writesNone_checkedPlan (cmd : ExecuteRestoreCommand) :
    Only writesNone cmd.checkedPlan.run := by
  refine only_except_bind (only_attempt trivial) fun found => ?_
  refine only_except_bind (only_orThrow _ _) fun plan => ?_
  refine only_except_bind (only_call trivial) fun now => ?_
  by_cases hexp : plan.isExpiredAt now = true
  · rw [if_pos hexp]
    exact only_throw _
  rw [if_neg hexp]
  refine only_except_bind (only_attempt trivial) fun applied => ?_
  split_ifs
  · exact only_throw _
  · exact only_throw _
  exact only_except_bind (only_orThrow _ _) fun _ => only_pure _

/-- What is put of a plan by an execution that ends with the result: the first of what the plan says,
and all of it if the execution returns. -/
def Puts (W : World) (n : Node) (cmd : ExecuteRestoreCommand) (plan : RestorePlan)
    (r : Except NodeError NodeReply) (ws : List Secret) : Prop :=
  ws = [] ∧ (∃ e, r = .error e) ∨ ∃ namespaceId secrets, Restores W n cmd plan namespaceId secrets ∧
    ws <+: writes plan (liveHandles n.app.store namespaceId) secrets ∧
    ((∃ reply, r = .ok reply) → ws = writes plan (liveHandles n.app.store namespaceId) secrets)

/-- **What an execution has written when it ends.** -/
theorem executeRestore_writes {cmd : ExecuteRestoreCommand} {row : RestorePlanRow}
    (hrow : n.restorePlans.find? (fun row => row.plan.id = cmd.planId) = some row) :
    Wp (nodeRules W) (cmd.execute W).run n fun n' r => ∃ ws store, Puts W n cmd row.plan r ws ∧
      ws.foldlM Store.putSecret n.app.store = .ok store ∧
      n'.app.store.secrets = store.secrets ∧ n'.app.store.versions = store.versions := by
  have hfail : ∀ (n' : Node) (e : NodeError), SameSecrets n n' → ∃ ws store,
      Puts W n cmd row.plan (.error e) ws ∧ ws.foldlM Store.putSecret n.app.store = .ok store ∧
      n'.app.store.secrets = store.secrets ∧ n'.app.store.versions = store.versions :=
    fun _ e hsame => ⟨[], n.app.store, .inl ⟨rfl, e, rfl⟩, rfl, hsame⟩
  refine wp_after (yields_embedded requireUnsealed_yields)
    (only_reads_requireUnsealed.mono writesNone_of_reads) ?_ hfail
  rintro n' _ - ⟨rfl, -⟩
  refine wp_after (checkedPlan_yields cmd) (only_writesNone_checkedPlan cmd) ?_ hfail
  rintro n' ⟨plan, namespaceId⟩ - ⟨rfl, hplan, hhalt, htarget⟩
  obtain rfl : row.plan = plan := by
    obtain ⟨row', hrow', hplan', -⟩ := hplan
    rwa [Option.some.inj (hrow.symm.trans hrow')]
  refine wp_after (listBackups_yields namespaceId) (only_attempt trivial) ?_ hfail
  rintro m backups - ⟨rfl, hbackups⟩
  refine wp_after (yields_orThrow fun backup hfound => ⟨rfl, hfound⟩) (P := fun m' backup =>
    m' = m ∧ backups.find? (fun b => b.snapshotId = row.plan.sourceBackupId) = some backup)
    (only_orThrow _ _) ?_ hfail
  rintro m' backup - ⟨rfl, hfound⟩
  obtain ⟨hmem, hns⟩ := hbackups backup (List.mem_of_find?_eq_some hfound)
  have hsource : backup.snapshotId = row.plan.sourceBackupId := by simpa using List.find?_some hfound
  refine wp_after (readArtifact_yields backup namespaceId)
    ((only_reads_readArtifact W backup namespaceId).mono writesNone_of_reads) ?_ hfail
  rintro n₁ ⟨key, secrets⟩ hsame₁ ⟨hsame, hheld⟩
  have happ : n₁.app = m'.app := by rw [hsame]
  refine wp_after (listSecrets_yields namespaceId)
    ((only_reads_listSecrets namespaceId).mono writesNone_of_reads) ?_
    fun n₂ e hsame₂ => hfail n₂ e (hsame₁.trans hsame₂)
  rintro n₂ live - ⟨rfl, rows, hrows, rfl⟩
  rw [happ] at hrows
  have hlive : ∀ handle, handle ∈ (rows.map (loaded n₂.app.store)).map (·.handle) ↔
      handle ∈ liveHandles m'.app.store namespaceId := by
    intro handle
    rw [List.map_map]
    exact (hrows.map _).mem_iff
  have hwrites : writes row.plan ((rows.map (loaded n₂.app.store)).map (·.handle)) secrets =
      writes row.plan (liveHandles m'.app.store namespaceId) secrets :=
    List.filterMap_congr fun secret _ => restoredAs_congr hlive secret
  have hrestores : Restores W m' cmd row.plan namespaceId secrets :=
    ⟨hplan, hhalt, htarget, backup, hmem, hns, hsource, hheld⟩
  refine wp_except_bind.mpr (wp_embedded.mpr ((applySecrets_writes row.plan _).mono ?_))
  rintro n₃ r ⟨ws, store, hprefix, hall, hputs, rfl⟩
  rw [hwrites] at hprefix hall
  rw [happ] at hputs
  cases r with
  | error e =>
    exact ⟨ws, store, .inr ⟨namespaceId, secrets, hrestores, hprefix, fun ⟨_, h⟩ => nomatch h⟩,
      hputs, rfl, rfl⟩
  | ok restored =>
    refine (wp_writesNone ?_).mono fun n₄ r hsame₄ => ⟨ws, store, .inr ⟨namespaceId, secrets,
      hrestores, hprefix, fun _ => hall ⟨restored, rfl⟩⟩, hputs, hsame₄⟩
    refine only_except_bind (only_call trivial) fun _ => ?_
    refine only_except_bind (only_attempt trivial) fun _ => ?_
    exact only_except_bind (only_embedded (only_attempt trivial)) fun _ => only_pure _

/-! ### What an execution leaves -/

/-- The live secrets for which the plan records no overwriting resolution are what they were, with
their versions. -/
def LeavesOthers (plan : RestorePlan) (st st' : Store) : Prop :=
  ∀ row ∈ st.secrets, resolutionFor plan row.handle ≠ some .newestWinsBackup →
    row ∈ st'.secrets ∧ st'.loadVersionsForSecret row.id = st.loadVersionsForSecret row.id

theorem distinct_prefix {ws vs : List Secret} (h : Distinct vs) (hp : ws <+: vs) : Distinct ws := by
  obtain ⟨rest, rfl⟩ := hp
  have hids := h.ids
  have hversions := h.versionIds
  rw [List.map_append] at hids
  rw [allVersions, List.flatMap_append, List.map_append] at hversions
  exact ⟨fun w hw => h.wellVersioned w (List.mem_append_left _ hw), hids.of_append_left,
    hversions.of_append_left⟩

theorem loadVersions_congr {st st' : Store} (h : st'.versions = st.versions) (id : SecretId) :
    st'.loadVersionsForSecret id = st.loadVersionsForSecret id := by
  unfold Store.loadVersionsForSecret
  rw [h]

/-- **Stale plans.**  An execution leaves the live secrets that its plan does not overwrite exactly
when what it puts is what is stored for them. -/
theorem stale_plan_iff (W : World) (n n' : Node) (cmd : ExecuteRestoreCommand) (row : RestorePlanRow)
    (r : Except NodeError NodeReply) (hist : List (Event NodeOp)) (hs : Schema n.app.store)
    (hsnap : ∀ backup ∈ n.backups, ∀ secrets, HeldBy W n backup secrets → Snapshot secrets)
    (hrow : n.restorePlans.find? (fun row => row.plan.id = cmd.planId) = some row)
    (hrun : Runs (nodeExec W) (cmd.execute W).run n hist r n') :
    ∃ ws, Puts W n cmd row.plan r ws ∧ (LeavesOthers row.plan n.app.store n'.app.store ↔
      ∀ w ∈ ws, ∀ live ∈ n.app.store.secrets,
        resolutionFor row.plan live.handle ≠ some .newestWinsBackup → Spares n.app.store live w) := by
  obtain ⟨ws, store, hwrote, hputs, hsecrets, hversions⟩ :=
    wp_runs (executeRestore_writes hrow) hrun
  refine ⟨ws, hwrote, ?_⟩
  have hd : Distinct ws := by
    rcases hwrote with ⟨rfl, -⟩ | ⟨namespaceId, secrets, hrestores, hprefix, -⟩
    · exact ⟨fun _ h => absurd h List.not_mem_nil, List.nodup_nil, List.nodup_nil⟩
    · obtain ⟨backup, hmem, -, -, hheld⟩ := hrestores.held
      have hwritten := distinct_writes (hsnap backup hmem secrets hheld).distinct row.plan
        (liveHandles n.app.store namespaceId)
      exact distinct_prefix hwritten hprefix
  have hleaves : LeavesOthers row.plan n.app.store n'.app.store ↔ ∀ live ∈ n.app.store.secrets,
      resolutionFor row.plan live.handle ≠ some .newestWinsBackup →
        ∀ w ∈ ws, Spares n.app.store live w := by
    refine forall_congr' fun live => forall_congr' fun hlive => forall_congr' fun _ => ?_
    rw [hsecrets, loadVersions_congr hversions]
    exact puts_spare_iff hs hd hputs hlive
  rw [hleaves]
  exact ⟨fun h w hw live hlive hres => h live hlive hres w hw,
    fun h live hlive hres w hw => h w hw live hlive hres⟩

/-! ### Two executions -/

/-- The merge of a backup of an earlier secret leaves the live one. -/
theorem merge_leaves_live : ∃ n' hist,
    Runs (nodeExec (sampleWorld (samplePayload 12 11)))
      (sampleRestore.execute (sampleWorld (samplePayload 12 11))).run
      (sampleNode (samplePayload 12 11) (sampleStoreOf 2 1) (samplePlan .preserveBoth)) hist
      (.ok (.restored 1 ⟨sampleUuid 1⟩)) n' ∧
    LeavesOthers (samplePlan .preserveBoth) (sampleStoreOf 2 1) n'.app.store := by
  obtain ⟨n', -, -, hist, hrun⟩ := sampleRestore_runs (samplePayload 12 11)
    (sampleStoreOf 2 1) (sampleRowOf 2 1) rfl (by decide) rfl rfl (sample_restoredAs rfl) rfl
  refine ⟨n', hist, hrun, ?_⟩
  obtain ⟨ws, hputs, hiff⟩ := stale_plan_iff _ _ n' _ ⟨samplePlan .preserveBoth, none⟩ _ hist
    (sampleStoreOf_schema 2 1) (fun _ _ secrets hheld => by
      rw [heldBy_sample (fun _ => rfl) hheld]
      exact samplePayload_snapshot 12 11) rfl hrun
  refine hiff.mpr fun w hw live hlive _ => ?_
  obtain ⟨rfl, -⟩ | ⟨namespaceId, secrets, hrestores, hpre, -⟩ := hputs
  · exact absurd hw List.not_mem_nil
  obtain ⟨-, rfl⟩ := sampleNode_held hrestores
  obtain ⟨b, hb, hwb⟩ := mem_writes.mp (hpre.subset hw)
  obtain rfl := List.mem_singleton.mp hb
  have hid : (sampleRowOf 12 11).id ∉ (sampleStoreOf 2 1).secrets.map (·.id) := by decide
  have hvid : ∀ v ∈ [jsonVersion (sampleVersionOf 12 11)],
      v.id ∉ (sampleStoreOf 2 1).versions.map (·.id) := by decide
  have hunknown : Unknown (sampleStoreOf 2 1) w := by
    rw [restoredAs_same hwb]
    exact ⟨hid, hvid⟩
  exact (changesNothing_iff (sampleStoreOf_parents 2 1)).mp hunknown.changesNothing live hlive

/-- A backup of one secret. -/
def sampleOneBackup : BackupPlaintext := ⟨none, [samplePut 12 11 epoch]⟩

/-- The plan that halts on conflicts, made when nothing was live. -/
def sampleHaltPlan : RestorePlan := (planRow (samplePlanned sampleOneBackup [] .conflictHalt)).plan

/-- **A plan that halts on conflicts overwrites**: it is made while its secret is not live, another
execution makes the secret live, the secret is rotated, and the plan then turns it back. -/
theorem halt_plan_overwrites :
    (∃ n₁ output hist, Runs (planExec (sampleWorld sampleOneBackup))
      ((RestorePlanCommand.mk sampleNamespace.id (sampleUuid 9) .conflictHalt).execute
        (sampleWorld sampleOneBackup)).run
      (sampleUnplanned sampleOneBackup (sampleSecrets [])) hist (.ok output) n₁ ∧
      n₁.restorePlans = [⟨sampleHaltPlan, none⟩]) ∧
    (∃ n₂ hist, Runs (nodeExec (sampleWorld sampleOneBackup))
      (sampleRestore.execute (sampleWorld sampleOneBackup)).run
      (sampleNode sampleOneBackup (sampleSecrets []) sampleHaltPlan) hist
      (.ok (.restored 1 ⟨sampleUuid 1⟩)) n₂ ∧
      n₂.app.store.secrets = (sampleSecrets [samplePut 12 11 epoch]).secrets ∧
      n₂.app.store.versions = (sampleSecrets [samplePut 12 11 epoch]).versions) ∧
    (samplePut 12 11 epoch).rotate sampleNext retainCount (atSecond 10) = .ok sampleRotated ∧
    (sampleSecrets [samplePut 12 11 epoch]).putSecret sampleRotated =
      .ok (sampleSecrets [sampleRotated]) ∧
    ∃ n' hist, Runs (nodeExec (sampleWorld sampleOneBackup))
      (sampleRestore.execute (sampleWorld sampleOneBackup)).run
      (sampleNode sampleOneBackup (sampleSecrets [sampleRotated]) sampleHaltPlan) hist
      (.ok (.restored 1 ⟨sampleUuid 1⟩)) n' ∧
      ¬ LeavesOthers sampleHaltPlan (sampleSecrets [sampleRotated]) n'.app.store := by
  refine ⟨?_, ?_, rfl, rfl, ?_⟩
  · obtain ⟨n₁, hplans, hist, hrun⟩ := restorePlan_runs sampleOneBackup (sampleSecrets [])
      .conflictHalt ⟨List.Perm.refl _, List.Pairwise.nil⟩ rfl
    exact ⟨n₁, _, hist, hrun, hplans⟩
  · obtain ⟨n₂, hsecrets, hversions, hist, hrun⟩ := sampleRestore_runs_of sampleOneBackup
      (sampleSecrets []) (r := []) (c := []) (t := atMicros (planExpiry epoch))
      ⟨List.Perm.refl _, List.Pairwise.nil⟩ rfl rfl rfl rfl rfl rfl
    exact ⟨n₂, hist, hrun, hsecrets, hversions⟩
  · obtain ⟨n', hsecrets, -, hist, hrun⟩ := sampleRestore_runs_of sampleOneBackup
      (sampleSecrets [sampleRotated]) (r := [rowOf sampleRotated]) (c := [])
      (t := atMicros (planExpiry epoch)) ⟨List.Perm.refl _, List.pairwise_singleton _ _⟩
      rfl rfl rfl rfl rfl rfl
    refine ⟨n', hist, hrun, fun hleaves => ?_⟩
    have hrow := (hleaves (rowOf sampleRotated) (List.mem_singleton_self _) (by decide)).1
    rw [hsecrets] at hrow
    exact absurd hrow (by decide)

end MerkleVault.App.StalePlans
