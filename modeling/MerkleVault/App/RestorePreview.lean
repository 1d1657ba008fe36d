import MerkleVault.App.StalePlans

/-! # What a Preview Promises

The preview of a restore counts what the plan adds, takes from the backup and leaves.  The execution
counts what it writes.  A merge writes the copy of a secret under its suffixed handle, and skips it
when there is no such handle or the handle is live; the preview counts it as taken in any case.

* `preview_counts`: the counters, by what the planner says of each secret;
* `writes_length`: what an execution writes, and what it skips unseen;
* `preview_predicts_iff`: when the preview predicts the execution. -/

namespace MerkleVault.App.RestorePreview

open MerkleVault.Types MerkleVault.Lib.Program
open MerkleVault.Secrets.Aggregate MerkleVault.Sqlite.Tables MerkleVault.Sqlite.Versions
open MerkleVault.Sqlite.Retention
open MerkleVault.App.Context MerkleVault.App.Host MerkleVault.App.BackupCommands
open MerkleVault.App.Restore MerkleVault.App.MergeRestore MerkleVault.App.RestorePlans
open MerkleVault.App.Reveal MerkleVault.App.AuditCoverage MerkleVault.Audit.Integrity

/-! ### Verdicts -/

/-- What the planner says of a secret of the backup: nothing when its handle is not live. -/
def verdict (mode : RestoreMode) (live : List Secret) (s : Secret) : Option ConflictResolution :=
  ((planSide live).find? fun l => l.1 = s.handle).map fun l => resolve mode s.createdAt l.2

section Verdict

variable {mode : RestoreMode} {live secrets : List Secret} {plan : RestorePlan} {s : Secret}

theorem planConflicts_eq : planConflicts (planSide secrets) (planSide live) mode =
    secrets.filterMap fun s => (verdict mode live s).map (Conflict.mk s.handle) := by
  rw [planConflicts, show planSide secrets = secrets.map fun s => (s.handle, s.createdAt) from rfl,
    List.filterMap_map]
  refine List.filterMap_congr fun s _ => ?_
  rw [verdict, Option.map_map]
  rfl

theorem verdict_eq_none : verdict mode live s = none ↔ s.handle ∉ live.map (·.handle) := by
  rw [verdict, Option.map_eq_none_iff, List.find?_eq_none, planSide, List.forall_mem_map]
  simp

theorem mem_live_of_verdict {r : ConflictResolution} (h : verdict mode live s = some r) :
    s.handle ∈ live.map (·.handle) := by
  by_contra hnot
  rw [verdict_eq_none.mpr hnot] at h
  cases h

/-- Only a merge preserves both. -/
theorem verdict_eq_preserveBoth : verdict mode live s = some .preserveBoth ↔
    mode = .mergePreserveBoth ∧ s.handle ∈ live.map (·.handle) := by
  have hresolve : ∀ a b, resolve mode a b = .preserveBoth ↔ mode = .mergePreserveBoth := by
    intro a b
    cases mode <;> simp [resolve] <;> split_ifs <;> simp
  cases h : verdict mode live s with
  | none => exact iff_of_false (by simp) fun hmerge => verdict_eq_none.mp h hmerge.2
  | some r =>
    have hlive : s.handle ∈ live.map (·.handle) := mem_live_of_verdict h
    obtain ⟨l, -, rfl⟩ := Option.map_eq_some_iff.mp h
    rw [Option.some.injEq, hresolve]
    exact (and_iff_left hlive).symm

/-- The executor looks the verdict up. -/
theorem resolutionFor_eq (hplan : plan.conflicts = planConflicts (planSide secrets) (planSide live) mode)
    (hnodup : (secrets.map (·.handle)).Nodup) (hs : s ∈ secrets) :
    resolutionFor plan s.handle = verdict mode live s := by
  rw [planConflicts_eq] at hplan
  have hsub : (plan.conflicts.map (·.handle)).Nodup := by
    have h := @planConflicts_handles (planSide live) mode (planSide secrets)
    rw [planConflicts_eq, ← hplan, planSide, List.map_map] at h
    exact hnodup.sublist h
  cases h : verdict mode live s with
  | some r =>
    refine resolutionFor_of_mem (c := ⟨s.handle, r⟩) hsub ?_
    rw [hplan, List.mem_filterMap]
    exact ⟨s, hs, by rw [h]; rfl⟩
  | none =>
    rw [resolutionFor, Option.map_eq_none_iff, List.find?_eq_none]
    intro c hc hhandle
    rw [List.mem_reverse, hplan, List.mem_filterMap] at hc
    obtain ⟨s', hs', hc⟩ := hc
    obtain ⟨r, hr, rfl⟩ := Option.map_eq_some_iff.mp hc
    have heq : s' = s := List.inj_on_of_nodup_map hnodup hs' hs (of_decide_eq_true hhandle)
    rw [heq, h] at hr
    cases hr

/-- **The conflicts** are the handles that both sides have, in the order of the backup. -/
theorem conflicts_handles :
    (planConflicts (planSide secrets) (planSide live) mode).map (·.handle) =
      (secrets.map (·.handle)).filter (· ∈ live.map (·.handle)) := by
  rw [planConflicts_eq, List.map_filterMap, List.filter_map, ← List.filterMap_eq_filter,
    List.map_filterMap]
  refine List.filterMap_congr fun s _ => ?_
  cases h : verdict mode live s with
  | none =>
    have hnot : ¬decide (s.handle ∈ live.map (·.handle)) = true := by simpa using verdict_eq_none.mp h
    simp only [Option.map_none, Option.guard, Function.comp_apply, hnot, if_false, Bool.false_eq_true]
  | some r =>
    have hmem : decide (s.handle ∈ live.map (·.handle)) = true := decide_eq_true (mem_live_of_verdict h)
    simp only [Option.map_some, Option.guard, Function.comp_apply, hmem, if_true]

end Verdict

/-! ### Counting -/

/-- The plan adds the secret or takes it from the backup. -/
def taken (mode : RestoreMode) (live : List Secret) (s : Secret) : Bool :=
  (verdict mode live s).all takesBackup

/-- The plan leaves the live secret. -/
def kept (mode : RestoreMode) (live : List Secret) (s : Secret) : Bool := !taken mode live s

/-- The copy of the secret that a merge writes: none when its handle cannot be built or is live. -/
def mergeCopy (live : List Secret) (s : Secret) : Option Secret :=
  (suffixSecretHandle s).filter fun copy => copy.handle ∉ live.map (·.handle)

/-- A merge takes the secret and writes nothing for it. -/
def skippedUnseen (mode : RestoreMode) (live : List Secret) (s : Secret) : Bool :=
  verdict mode live s = some .preserveBoth && (mergeCopy live s).isNone

/-- A test that is one of two others, never both. -/
theorem countP_split {α : Type} {p q r : α → Bool} (h : ∀ a, (q a).toNat + (r a).toNat = (p a).toNat)
    (l : List α) : l.countP q + l.countP r = l.countP p := by
  induction l with
  | nil => rfl
  | cons a l ih =>
    have ha := h a
    rw [List.countP_cons, List.countP_cons, List.countP_cons]
    cases hp : p a <;> cases hq : q a <;> cases hr : r a <;>
      simp only [hp, hq, hr, Bool.toNat_true, Bool.toNat_false, if_true, if_false,
        Bool.false_eq_true] at ha ⊢ <;>
      omega

section Counting

variable {mode : RestoreMode} {live secrets : List Secret} {plan : RestorePlan}

theorem countP_added : (planSide secrets).countP (fun s => s.1 ∉ (planSide live).map (·.1)) =
    secrets.countP fun s => (verdict mode live s).isNone := by
  have hside : (planSide live).map (·.1) = live.map (·.handle) := List.map_map
  rw [hside, planSide, List.countP_map]
  refine List.countP_congr fun s _ => ?_
  rw [Function.comp_apply, decide_eq_true_iff, Option.isNone_iff_eq_none, verdict_eq_none]

theorem countP_conflicts (p : ConflictResolution → Bool) :
    (planConflicts (planSide secrets) (planSide live) mode).countP (fun c => p c.resolution) =
      secrets.countP fun s => (verdict mode live s).any p := by
  rw [planConflicts_eq, List.countP_filterMap]
  refine List.countP_congr fun s _ => ?_
  cases verdict mode live s <;> simp

/-- Added or taken over. -/
theorem countP_taken (mode : RestoreMode) (live secrets : List Secret) :
    secrets.countP (fun s => (verdict mode live s).isNone) +
      secrets.countP (fun s => (verdict mode live s).any takesBackup) =
    secrets.countP (taken mode live) := by
  refine countP_split (fun s => ?_) secrets
  unfold taken
  cases verdict mode live s with
  | none => rfl
  | some r => cases h : takesBackup r <;> simp [h]

theorem countP_kept (mode : RestoreMode) (live secrets : List Secret) :
    secrets.countP (fun s => (verdict mode live s).any fun r => !takesBackup r) =
      secrets.countP (kept mode live) := by
  refine List.countP_congr fun s _ => ?_
  unfold kept taken
  cases verdict mode live s with
  | none => rfl
  | some r => cases h : takesBackup r <;> simp [h]

theorem countP_taken_kept (mode : RestoreMode) (live secrets : List Secret) :
    secrets.countP (taken mode live) + secrets.countP (kept mode live) = secrets.length := by
  have h := countP_split (p := fun _ => true) (q := taken mode live) (r := kept mode live)
    (fun s => by unfold kept; cases taken mode live s <;> rfl) secrets
  rwa [List.countP_true] at h

/-- **What an execution writes**: what the plan takes, but for the copies that it skips. -/
theorem writes_length (hplan : plan.conflicts = planConflicts (planSide secrets) (planSide live) mode)
    (hnodup : (secrets.map (·.handle)).Nodup) {handles : List Handle}
    (hhandles : ∀ handle, handle ∈ handles ↔ handle ∈ live.map (·.handle)) :
    (writes plan handles secrets).length + secrets.countP (skippedUnseen mode live) =
      secrets.countP (taken mode live) := by
  have hwritten : (writes plan handles secrets).length =
      secrets.countP fun s => taken mode live s && !skippedUnseen mode live s := by
    rw [writes, List.length_filterMap_eq_countP]
    refine List.countP_congr fun s hs => ?_
    rw [restoredAs_congr hhandles, restoredAs, resolutionFor_eq hplan hnodup hs]
    unfold taken skippedUnseen mergeCopy
    cases h : verdict mode live s with
    | none => simp
    | some r =>
      cases r with
      | newestWinsExisting => simp [takesBackup]
      | newestWinsBackup => simp [takesBackup]
      | preserveBoth =>
        simp only [takesBackup, Option.all_some, decide_true, Bool.true_and, Option.not_isNone]
      | halt => simp [takesBackup]
  rw [hwritten]
  refine countP_split (fun s => ?_) secrets
  unfold taken skippedUnseen
  cases h : verdict mode live s with
  | none => simp
  | some r =>
    cases r with
    | preserveBoth => cases (mergeCopy live s).isNone <;> simp [takesBackup]
    | _ => simp [takesBackup]

end Counting

/-! ### The prediction -/

/-- The preview says what the execution reports. -/
structure Predicts (output : RestorePlanOutput) (reply : NodeReply) (namespaceId : NamespaceId)
    (secrets live : List Secret) : Prop where
  conflicts : output.plan.conflicts.map (·.handle) =
    (secrets.map (·.handle)).filter (· ∈ live.map (·.handle))
  counts : output.secretsToAdd.toNat + output.secretsToOverwrite.toNat + output.secretsToSkip.toNat =
    secrets.length
  restored : ∃ restored : UInt32, reply = .restored restored namespaceId ∧
    restored.toNat = output.secretsToAdd.toNat + output.secretsToOverwrite.toNat

/-- The counters hold what is taken and what is left, and a merge finds a free handle for the copy of
every secret whose handle is live. -/
structure Foreseen (mode : RestoreMode) (secrets live : List Secret) : Prop where
  taken : secrets.countP (taken mode live) < 2 ^ 32
  kept : secrets.countP (kept mode live) < 2 ^ 32
  copies : mode = .mergePreserveBoth → ∀ s ∈ secrets, s.handle ∈ live.map (·.handle) →
    ∃ copy, suffixSecretHandle s = some copy ∧ copy.handle ∉ live.map (·.handle)

theorem copies_iff {mode : RestoreMode} {secrets live : List Secret} :
    secrets.countP (skippedUnseen mode live) = 0 ↔ (mode = .mergePreserveBoth → ∀ s ∈ secrets,
      s.handle ∈ live.map (·.handle) →
        ∃ copy, suffixSecretHandle s = some copy ∧ copy.handle ∉ live.map (·.handle)) := by
  have hskipped : ∀ s, skippedUnseen mode live s = true ↔ (mode = .mergePreserveBoth ∧
      s.handle ∈ live.map (·.handle)) ∧ ¬∃ copy, suffixSecretHandle s = some copy ∧
        copy.handle ∉ live.map (·.handle) := by
    intro s
    rw [skippedUnseen, Bool.and_eq_true, decide_eq_true_iff, verdict_eq_preserveBoth, mergeCopy,
      Option.isNone_iff_eq_none, Option.filter_eq_none_iff]
    simp
  rw [List.countP_eq_zero]
  constructor
  · intro h hmode s hs hlive
    by_contra hnone
    exact h s hs ((hskipped s).mpr ⟨⟨hmode, hlive⟩, hnone⟩)
  · intro h s hs hskip
    obtain ⟨⟨hmode, hlive⟩, hnone⟩ := (hskipped s).mp hskip
    exact hnone (h hmode s hs hlive)

theorem saturateU32_toNat (n : ℕ) : (saturateU32 n).toNat = min n (2 ^ 32 - 1) := by
  rw [saturateU32, UInt32.toNat_ofNat']
  omega

section Run

variable {W : World} {n m : Node} {cmd : RestorePlanCommand} {output : RestorePlanOutput}
  {secrets live : List Secret}

/-- The three counters. -/
theorem preview_counts (h : Previews W n cmd output secrets live) :
    output.secretsToAdd.toNat =
      min (secrets.countP fun s => (verdict cmd.mode live s).isNone) (2 ^ 32 - 1) ∧
    output.secretsToOverwrite.toNat =
      min (secrets.countP fun s => (verdict cmd.mode live s).any takesBackup) (2 ^ 32 - 1) ∧
    output.secretsToSkip.toNat = min (secrets.countP (kept cmd.mode live)) (2 ^ 32 - 1) := by
  rw [h.counted]
  simp only [RestorePlanOutput.counted, saturateU32_toNat, h.conflicts]
  rw [@countP_added cmd.mode, countP_conflicts takesBackup,
    countP_conflicts fun r => !takesBackup r, countP_kept]
  exact ⟨rfl, rfl, rfl⟩

/-- The preview predicts a reply that counts what the plan writes just when everything is foreseen. -/
theorem predicts_iff (h : Previews W n cmd output secrets live)
    (hnodup : (secrets.map (·.handle)).Nodup) {plan : RestorePlan}
    (hplan : plan.conflicts = output.plan.conflicts) {handles : List Handle}
    (hhandles : ∀ handle, handle ∈ handles ↔ handle ∈ live.map (·.handle)) {reply : NodeReply}
    (hreply : Reports reply (writes plan handles secrets) cmd.namespaceId) :
    Predicts output reply cmd.namespaceId secrets live ↔ Foreseen cmd.mode secrets live := by
  obtain ⟨hadd, hover, hskip⟩ := preview_counts h
  have hwritten := writes_length (hplan.trans h.conflicts) hnodup hhandles
  have htaken := countP_taken cmd.mode live secrets
  have hall := countP_taken_kept cmd.mode live secrets
  obtain ⟨restored, hreply, hcount⟩ := hreply
  have hconflicts : output.plan.conflicts.map (·.handle) =
      (secrets.map (·.handle)).filter (· ∈ live.map (·.handle)) := by
    rw [h.conflicts, conflicts_handles]
  constructor
  · rintro ⟨-, hcounts, restored', hreply', hrestored⟩
    obtain ⟨rfl, -⟩ := NodeReply.restored.inj (hreply.symm.trans hreply')
    -- a counter at its largest value would be short, and so would the reply after a skip
    refine ⟨by omega, by omega, copies_iff.mp (by omega)⟩
  · rintro ⟨htakenFits, hkeptFits, hcopies⟩
    have hnone := copies_iff.mpr hcopies
    exact ⟨hconflicts, by omega, restored, hreply, by omega⟩

/-- The live secrets, the backups and their files are as they were. -/
structure Unchanged (n m : Node) : Prop where
  secrets : m.app.store.secrets = n.app.store.secrets
  versions : m.app.store.versions = n.app.store.versions
  backups : m.backups = n.backups
  files : m.files = n.files

/-- Whatever is read of the backup, these are its secrets. -/
def Holds (W : World) (n : Node) (snapshotId : Uuid) (secrets : List Secret) : Prop :=
  ∀ backup ∈ n.backups, backup.snapshotId = snapshotId → ∀ held, HeldBy W n backup held →
    held = secrets

theorem heldBy_congr {backup : Backup} (h : HeldBy W m backup secrets) (hfiles : m.files = n.files) :
    HeldBy W n backup secrets := by
  obtain ⟨ciphertext, identity, plaintext, payload, hfile, hrest⟩ := h
  exact ⟨ciphertext, identity, plaintext, payload, hfiles ▸ hfile, hrest⟩

theorem liveSecrets_map_handle (st : Store) (id : NamespaceId) :
    (liveSecrets st id).map (·.handle) = liveHandles st id := by
  rw [liveSecrets, liveHandles, List.map_map]
  rfl

/-- **The preview predicts the execution** just when everything is foreseen. -/
theorem preview_predicts_iff (W : World) (n n' m m' : Node) (cmd : RestorePlanCommand)
    (output : RestorePlanOutput) (reply : NodeReply) (hist : List (Event PlanOp))
    (hist' : List (Event NodeOp)) (secrets : List Secret)
    (hholds : Holds W n cmd.backupSnapshotId secrets) (hnodup : (secrets.map (·.handle)).Nodup)
    (hpreview : Runs (planExec W) (cmd.execute W).run n hist (.ok output) n')
    (hsame : Unchanged n m)
    (hrow : m.restorePlans.find? (fun row => row.plan.id = output.plan.id) = some (planRow output.plan))
    (hrun : Runs (nodeExec W) ((ExecuteRestoreCommand.mk output.plan.id).execute W).run m hist'
      (.ok reply) m') :
    planRow output.plan ∈ n'.restorePlans ∧
    ∃ live, live.Perm (liveSecrets n.app.store cmd.namespaceId) ∧
      (Predicts output reply cmd.namespaceId secrets live ↔ Foreseen cmd.mode secrets live) := by
  obtain ⟨hstored, secrets₁, live, hpreviews⟩ := wp_runs (restorePlan_yields cmd) hpreview output rfl
  obtain ⟨plan, namespaceId, secrets₂, -, hrestores, -, -, -, hreports⟩ :=
    wp_runs (executeRestore_yields _) hrun reply rfl
  obtain ⟨row, hfound, rfl, -⟩ := hrestores.planned
  obtain rfl : planRow output.plan = row := Option.some.inj (hrow.symm.trans hfound)
  obtain rfl : cmd.namespaceId = namespaceId :=
    Option.some.inj (hpreviews.target.symm.trans hrestores.target)
  -- both commands read the one backup
  obtain ⟨backup₁, hmem₁, -, hid₁, hheld₁⟩ := hpreviews.held
  obtain rfl := hholds backup₁ hmem₁ hid₁ secrets₁ hheld₁
  obtain ⟨backup₂, hmem₂, -, hid₂, hheld₂⟩ := hrestores.held
  obtain rfl := hholds backup₂ (hsame.backups ▸ hmem₂) (hid₂.trans hpreviews.source) secrets₂
    (heldBy_congr hheld₂ hsame.files)
  refine ⟨hstored, live, hpreviews.listed, predicts_iff hpreviews hnodup rfl (fun handle => ?_) hreports⟩
  have hlive : liveHandles m.app.store cmd.namespaceId = liveHandles n.app.store cmd.namespaceId := by
    rw [liveHandles, liveHandles, hsame.secrets]
  rw [hlive, ← liveSecrets_map_handle]
  exact (hpreviews.listed.map _).mem_iff.symm

end Run

/-! ### Two merges -/

/-- A merge of a backup into the live secrets. -/
def sampleMerge : RestorePlanCommand := ⟨sampleNamespace.id, sampleUuid 9, .mergePreserveBoth⟩

/-- The backup of one secret under `sampleHandle`. -/
def sampleMergeBackup : BackupPlaintext := ⟨none, [samplePut 12 11 epoch]⟩

/-- The preview of a merge. -/
def sampleMergeOutput (live : List Secret) : RestorePlanOutput :=
  .counted (samplePlanned sampleMergeBackup live .mergePreserveBoth)
    (planSide (sampleMergeBackup.secrets.map jsonSecret)) (planSide live)

/-- The vault with the plan of the merge. -/
def sampleMergeNode (st : Store) (live : List Secret) : Node :=
  sampleNode sampleMergeBackup st (planRow (sampleMergeOutput live).plan).plan

/-- The preview of a merge, and its execution. -/
theorem sampleMerge_runs (st : Store) {rows : List SecretRow} {ws : List Secret} {store : Store}
    (hrows : Ordered (fun a b : SecretRow => b.createdAt.lt a.createdAt = false)
      (st.secrets.filter fun row => row.namespaceId = sampleNamespace.id) rows)
    {live : List Secret} (hlive : (rows.map (loaded st)).map asStored = live)
    (hhalt : (sampleMergeOutput live).plan.hasHaltConflict = false) (hes : st.auditEntries = [])
    (hws : writes (planRow (sampleMergeOutput live).plan).plan (rows.map (·.handle))
      (sampleMergeBackup.secrets.map jsonSecret) = ws)
    (hputs : ws.foldlM Store.putSecret st = .ok store) :
    (∃ n' hist, Runs (planExec (sampleWorld sampleMergeBackup))
      (sampleMerge.execute (sampleWorld sampleMergeBackup)).run (sampleUnplanned sampleMergeBackup st)
      hist (.ok (sampleMergeOutput live)) n') ∧
    ∃ m' restored hist, Runs (nodeExec (sampleWorld sampleMergeBackup))
      ((ExecuteRestoreCommand.mk (sampleMergeOutput live).plan.id).execute
        (sampleWorld sampleMergeBackup)).run (sampleMergeNode st live) hist
      (.ok (.restored restored sampleNamespace.id)) m' ∧
      restored.toNat = min ws.length (2 ^ 32 - 1) := by
  obtain ⟨n', -, hist, hrun⟩ := restorePlan_runs sampleMergeBackup st .mergePreserveBoth hrows hlive
  obtain ⟨m', -, -, restored, hist', hrun', hcount⟩ := sampleRestore_runs_writes sampleMergeBackup st
    (t := atMicros (planExpiry epoch)) hrows hhalt (by decide) hes hws hputs
  exact ⟨⟨n', hist, hrun⟩, m', restored, hist', hrun', hcount⟩

theorem restoredAs_conflicts {plan plan' : RestorePlan} (h : plan.conflicts = plan'.conflicts)
    (live : List Handle) (s : Secret) : restoredAs plan live s = restoredAs plan' live s := by
  unfold restoredAs resolutionFor
  rw [h]

theorem sampleMerge_holds (st : Store) : Holds (sampleWorld sampleMergeBackup)
    (sampleUnplanned sampleMergeBackup st) (sampleUuid 9) (sampleMergeBackup.secrets.map jsonSecret) :=
  fun _ _ _ _ h => heldBy_sample (fun _ => rfl) h

/-- A live secret, stored as it was put. -/
def sampleLive : Secret := asStored (samplePut 2 1 epoch)

theorem sampleLive_rows : Ordered (fun a b : SecretRow => b.createdAt.lt a.createdAt = false)
    ((sampleSecrets [samplePut 2 1 epoch]).secrets.filter fun row =>
      row.namespaceId = sampleNamespace.id) [rowOf (samplePut 2 1 epoch)] :=
  ⟨List.Perm.refl _, List.pairwise_singleton _ _⟩

theorem merge_foreseen : ∃ n' m' reply hist hist',
    Runs (planExec (sampleWorld sampleMergeBackup))
      (sampleMerge.execute (sampleWorld sampleMergeBackup)).run
      (sampleUnplanned sampleMergeBackup (sampleSecrets [samplePut 2 1 epoch])) hist
      (.ok (sampleMergeOutput [sampleLive])) n' ∧
    Runs (nodeExec (sampleWorld sampleMergeBackup))
      ((ExecuteRestoreCommand.mk (sampleMergeOutput [sampleLive]).plan.id).execute
        (sampleWorld sampleMergeBackup)).run
      (sampleMergeNode (sampleSecrets [samplePut 2 1 epoch]) [sampleLive]) hist' (.ok reply) m' ∧
    ∃ live, Predicts (sampleMergeOutput [sampleLive]) reply sampleNamespace.id
      (sampleMergeBackup.secrets.map jsonSecret) live := by
  have hlive : ([rowOf (samplePut 2 1 epoch)].map (loaded (sampleSecrets [samplePut 2 1 epoch]))).map
      asStored = [sampleLive] := by
    rw [List.map_singleton, sampleSecrets_loaded (samplePut_wellVersioned 2 1 epoch)]
    rfl
  have hw : restoredAs (planRow (sampleMergeOutput [sampleLive]).plan).plan [sampleHandle]
      (jsonSecret (samplePut 12 11 epoch)) =
      some { jsonSecret (samplePut 12 11 epoch) with handle := sampleSuffixed } := by
    refine (restoredAs_conflicts ?_ _ _).trans (sample_restoredAs rfl)
    rfl
  have hws : writes (planRow (sampleMergeOutput [sampleLive]).plan).plan
      ([rowOf (samplePut 2 1 epoch)].map (·.handle)) (sampleMergeBackup.secrets.map jsonSecret) =
      [{ jsonSecret (samplePut 12 11 epoch) with handle := sampleSuffixed }] :=
    List.filterMap_cons_some hw
  obtain ⟨⟨n', hist, hpreview⟩, m', restored, hist', hrun, -⟩ :=
    sampleMerge_runs (sampleSecrets [samplePut 2 1 epoch]) sampleLive_rows hlive rfl rfl hws rfl
  refine ⟨n', m', _, hist, hist', hpreview, hrun, ?_⟩
  obtain ⟨-, live, hlisted, hiff⟩ := preview_predicts_iff _ _ n'
    (sampleMergeNode (sampleSecrets [samplePut 2 1 epoch]) [sampleLive]) m' sampleMerge
    (sampleMergeOutput [sampleLive]) _ hist hist' (sampleMergeBackup.secrets.map jsonSecret)
    (sampleMerge_holds _) (List.nodup_singleton _) hpreview ⟨rfl, rfl, rfl, rfl⟩ rfl hrun
  have hlisted' : live = [sampleLive] := by
    have hall : liveSecrets (sampleSecrets [samplePut 2 1 epoch]) sampleNamespace.id = [sampleLive] := by
      rw [← hlive]
      rfl
    exact List.perm_singleton.mp (hall ▸ hlisted)
  subst hlisted'
  refine ⟨_, hiff.mpr ⟨lt_of_le_of_lt List.countP_le_length (by decide),
    lt_of_le_of_lt List.countP_le_length (by decide), ?_⟩⟩
  rintro - s hs -
  obtain rfl := List.mem_singleton.mp hs
  exact ⟨_, sample_suffix rfl, by decide⟩

/-- A live secret under the handle that the copy would get. -/
def sampleCopy : Secret := { samplePut 3 4 epoch with handle := sampleSuffixed }

/-- Two live secrets. -/
def sampleBoth : List Secret := [samplePut 2 1 epoch, sampleCopy]

/-- The handle of the copy is live: the preview counts the secret of the backup as taken, and the
execution reports nothing restored. -/
theorem merge_skips_unseen : ∃ live n' m' hist hist',
    Holds (sampleWorld sampleMergeBackup) (sampleUnplanned sampleMergeBackup (sampleSecrets sampleBoth))
      (sampleUuid 9) (sampleMergeBackup.secrets.map jsonSecret) ∧
    Runs (planExec (sampleWorld sampleMergeBackup))
      (sampleMerge.execute (sampleWorld sampleMergeBackup)).run
      (sampleUnplanned sampleMergeBackup (sampleSecrets sampleBoth)) hist
      (.ok (sampleMergeOutput live)) n' ∧
    Runs (nodeExec (sampleWorld sampleMergeBackup))
      ((ExecuteRestoreCommand.mk (sampleMergeOutput live).plan.id).execute
        (sampleWorld sampleMergeBackup)).run (sampleMergeNode (sampleSecrets sampleBoth) live) hist'
      (.ok (.restored 0 sampleNamespace.id)) m' ∧
    (sampleMergeOutput live).secretsToAdd = 0 ∧ (sampleMergeOutput live).secretsToOverwrite = 1 := by
  have hrows : Ordered (fun a b : SecretRow => b.createdAt.lt a.createdAt = false)
      ((sampleSecrets sampleBoth).secrets.filter fun row => row.namespaceId = sampleNamespace.id)
      (sampleBoth.map rowOf) := ⟨List.Perm.refl _, List.pairwise_pair.mpr (by decide)⟩
  let live := ((sampleBoth.map rowOf).map (loaded (sampleSecrets sampleBoth))).map asStored
  have hconflicts : (planRow (sampleMergeOutput live).plan).plan.conflicts =
      (samplePlan .preserveBoth).conflicts := rfl
  have hws : writes (planRow (sampleMergeOutput live).plan).plan ((sampleBoth.map rowOf).map (·.handle))
      (sampleMergeBackup.secrets.map jsonSecret) = [] := by
    refine List.filterMap_cons_none ?_
    refine (restoredAs_conflicts hconflicts _ _).trans ?_
    have hresolution : resolutionFor (samplePlan .preserveBoth) sampleHandle = some .preserveBoth := by
      decide
    unfold restoredAs
    rw [show (jsonSecret (samplePut 12 11 epoch)).handle = sampleHandle from rfl, hresolution]
    dsimp only
    rw [sample_suffix rfl]
    exact Option.filter_some_neg (by decide)
  obtain ⟨⟨n', hist, hpreview⟩, m', restored, hist', hrun, hcount⟩ :=
    sampleMerge_runs (sampleSecrets sampleBoth) hrows (rfl : _ = live) (by decide) rfl hws rfl
  obtain rfl : restored = 0 := UInt32.toNat_inj.mp hcount
  exact ⟨live, n', m', hist, hist', sampleMerge_holds _, hpreview, hrun, by decide, by decide⟩

end MerkleVault.App.RestorePreview
