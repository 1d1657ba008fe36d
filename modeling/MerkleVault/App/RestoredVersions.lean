import MerkleVault.App.MergeRestore

/-! # The Versions of a Restored Secret

A secret that a restore writes under its own handle, as a pure add or because the backup wins, is
loaded back as the backup has it exactly when no stored version is in its way.  A reveal reads the
first active version; rotations and rollbacks keep that the current one when it is the only active
version and among the two newest, which are the ones that a rotation writes back.

* `keepsRevealing_iff`: when reveals go on to read the current version;
* `restore_faithful_iff`: when a restore is faithful. -/

namespace MerkleVault.App.RestoredVersions

open MerkleVault.Types MerkleVault.Lib.Program MerkleVault.Secrets.Aggregate
open MerkleVault.Sqlite.Tables MerkleVault.Sqlite.Versions MerkleVault.Sqlite.Reload
open MerkleVault.Sqlite.Retention MerkleVault.App.Host MerkleVault.App.BackupCommands
open MerkleVault.App.Restore MerkleVault.App.MergeRestore MerkleVault.App.Reveal
open MerkleVault.Audit.Integrity

/-! ### Rotations and rollbacks -/

/-- The retention policy of the rotate and rollback commands. -/
def commandPolicy : RetentionPolicy := ⟨UInt32.ofNat retainCount, by decide⟩

/-- An operation of these commands: its version is active, with an identifier drawn anew. -/
inductive Commanded (st : Store) : VersionOp → Prop
  | rotate (newVersion : SecretVersion) (now : Rfc3339Timestamp) (hactive : newVersion.isActive = true)
      (hnew : newVersion.id ∉ st.versions.map (·.id)) :
      Commanded st (.rotate newVersion commandPolicy now)
  | rollbackTo (targetVersionNo : UInt32) (fresh : Fresh)
      (hnew : fresh.versionId ∉ st.versions.map (·.id)) :
      Commanded st (.rollbackTo targetVersionNo commandPolicy fresh)

/-- A rotation or a rollback of the secret under the handle that succeeds. -/
def Rotates (handle : Handle) (st st' : Store) : Prop :=
  ∃ op s s', Commanded st op ∧ st.getSecretByHandle handle = some s ∧ op.apply s = .ok s' ∧
    st.putSecret s' = .ok st'

/-- A reveal of the secret under the handle reads its current version. -/
def Reveals (st : Store) (handle : Handle) : Prop :=
  ∃ s v, st.getSecretByHandle handle = some s ∧ s.activeVersion = some v ∧ s.currentVersion = some v

/-- It does so after any number of rotations and rollbacks. -/
def KeepsRevealing (st : Store) (handle : Handle) : Prop :=
  ∀ st', Relation.ReflTransGen (Rotates handle) st st' → Reveals st' handle

/-- The current version is the first active one, and while version numbers are left it is the only
active one and among the two newest. -/
def SoleActive (s : Secret) : Prop :=
  ∃ v, s.activeVersion = some v ∧ s.currentVersion = some v ∧
    (maxVersionNo s.versions < UInt32.ofNat (2 ^ 32 - 1) →
      (∀ w ∈ s.versions, w.isActive = true → w = v) ∧ v ∈ kept s.versions)

section Rotations

variable {st st' : Store} {row : SecretRow} {handle : Handle}

theorem getSecret_iff {s : Secret} : st.getSecretByHandle handle = some s ↔
    ∃ row, st.selectSecretRow handle = some row ∧ loaded st row = s :=
  Option.map_eq_some_iff

/-- Both operations rotate the loaded secret to an active version. -/
theorem Rotates.rotate (h : Rotates handle st st') : ∃ row new now s',
    st.selectSecretRow handle = some row ∧ new.id ∉ st.versions.map (·.id) ∧ new.isActive = true ∧
    (loaded st row).rotate new retainCount now = .ok s' ∧ st.putSecret s' = .ok st' := by
  obtain ⟨op, s, s', hop, hget, happly, hput⟩ := h
  obtain ⟨row, hselect, rfl⟩ := getSecret_iff.mp hget
  cases hop with
  | rotate new now hactive hnew => exact ⟨row, new, now, s', hselect, hnew, hactive, happly, hput⟩
  | rollbackTo target fresh hnew =>
    simp only [VersionOp.apply, Secret.rollbackTo] at happly
    split at happly
    · cases happly
    · next found _ =>
      exact ⟨row, rollbackVersion (loaded st row) found fresh, fresh.now, s', hselect, hnew, rfl,
        happly, hput⟩

theorem reveals_now {v : SecretVersion} (hk : Keys st) (h : IsCurrent st row v)
    (hselect : st.selectSecretRow handle = some row) : Reveals st handle := by
  refine ⟨loaded st row, v, getSecret_iff.mpr ⟨row, hselect, rfl⟩, h.activeVersion, ?_⟩
  have hfind := find?_of_nodup (load_nodup hk.versionIds row.id) (mem_load.mpr ⟨h.stored, h.parent⟩)
  rwa [h.named] at hfind

/-- Once the current version is the newest and only active one it stays so. -/
theorem reveals_of_isCurrent {v : SecretVersion} (hk : Keys st) (h : IsCurrent st row v)
    (hselect : st.selectSecretRow handle = some row)
    (hrun : Relation.ReflTransGen (Rotates handle) st st') : Reveals st' handle := by
  induction hrun using Relation.ReflTransGen.head_induction_on generalizing row v with
  | refl => exact reveals_now hk h hselect
  | head hstep _ ih =>
    obtain ⟨row', new, now, s', hselect', hnew, hactive, hrot, hput⟩ := hstep.rotate
    obtain rfl := Option.some.inj (hselect.symm.trans hselect')
    exact ih (hk.rotated ((select_iff hk).mp hselect).1 hnew hrot hput)
      (h.rotated hk hnew hactive hrot hput) (select_rotated hk hselect hnew hrot hput)

theorem rotate_succeeds {s : Secret} (new : SecretVersion) (now : Rfc3339Timestamp)
    (hmax : maxVersionNo s.versions < new.versionNo) (hcur : ∃ v ∈ s.versions, v.id = s.currentVersionId) :
    ∃ s', s.rotate new retainCount now = .ok s' := by
  have hany : s.versions.any (fun v => v.id = s.currentVersionId) = true := by simpa using hcur
  unfold Secret.rotate
  rw [if_neg (UInt32.not_le.mpr hmax), hany]
  exact ⟨_, rfl⟩

theorem lt_succ_of_lt_max {n : UInt32} (h : n < UInt32.ofNat (2 ^ 32 - 1)) : n < n + 1 := by
  rw [UInt32.lt_iff_toNat_lt] at h ⊢
  have hmax : (UInt32.ofNat (2 ^ 32 - 1)).toNat = 2 ^ 32 - 1 := rfl
  rw [hmax] at h
  rw [UInt32.toNat_add]
  have hone : (1 : UInt32).toNat = 1 := rfl
  rw [hone]
  omega

/-- In a list in the order of its numbers the first active version comes before the others. -/
theorem find?_active_le {vs : List SecretVersion} {v w : SecretVersion}
    (hsorted : vs.Pairwise fun a b => a.versionNo ≤ b.versionNo)
    (hfind : vs.find? SecretVersion.isActive = some v) (hw : w ∈ vs) (hactive : w.isActive = true) :
    v.versionNo ≤ w.versionNo := by
  obtain ⟨-, as, bs, rfl, has⟩ := List.find?_eq_some_iff_append.mp hfind
  rcases List.mem_append.mp hw with hw | hw
  · have := has w hw
    rw [hactive] at this
    cases this
  · rcases List.mem_cons.mp hw with rfl | hw
    · exact UInt32.le_refl _
    · exact List.rel_of_pairwise_cons (List.pairwise_append.mp hsorted).2.1 hw

theorem currentVersion_spec {s : Secret} {v : SecretVersion} (h : s.currentVersion = some v) :
    v ∈ s.versions ∧ v.id = s.currentVersionId :=
  ⟨List.mem_of_find?_eq_some h, by simpa using List.find?_some h⟩

/-- After a rotation that leaves a reveal at the new version, every other active version was the
current one and was written back. -/
theorem active_of_reveals_rotated {new w : SecretVersion} {now : Rfc3339Timestamp} {s' : Secret}
    (hk : Keys st) (hselect : st.selectSecretRow handle = some row)
    (hnew : new.id ∉ st.versions.map (·.id))
    (hrot : (loaded st row).rotate new retainCount now = .ok s') (hput : st.putSecret s' = .ok st')
    (hreveals : Reveals st' handle) (hw : w ∈ st.loadVersionsForSecret row.id)
    (hactive : w.isActive = true) :
    w.id = row.currentVersionId ∧ w ∈ kept (st.loadVersionsForSecret row.id) := by
  have hmem := fun w => mem_rotated_versions hk hnew hrot hput (w := w)
  have hk' := hk.rotated ((select_iff hk).mp hselect).1 hnew hrot hput
  obtain ⟨_, u, hget, huactive, hucurrent⟩ := hreveals
  obtain ⟨row', hselect', rfl⟩ := getSecret_iff.mp hget
  obtain rfl := Option.some.inj ((select_rotated hk hselect hnew hrot hput).symm.trans hselect')
  -- What the reveal reads is the new version.
  obtain ⟨humem, huid⟩ := currentVersion_spec hucurrent
  obtain rfl := List.inj_on_of_nodup_map hk'.versionIds (mem_load.mp humem).1 ((hmem _).mpr (.inl rfl))
    huid
  by_contra hnot
  have hsame : rewritten (st.loadVersionsForSecret row.id) row.currentVersionId now w = w := by
    unfold rewritten retire
    split_ifs with hwkept hwid
    · exact absurd ⟨hwid, hwkept⟩ hnot
    · rfl
    · rfl
  have hw' := mem_load.mp hw
  have hstored : w ∈ st'.loadVersionsForSecret row.id :=
    mem_load.mpr ⟨(hmem w).mpr (.inr ⟨w, hw'.1, hsame.symm⟩), hw'.2⟩
  have hle := find?_active_le (load_sorted st' row.id) huactive hstored hactive
  exact UInt32.not_lt.mpr hle (UInt32.lt_of_le_of_lt (le_maxVersionNo hw) (rotate_loaded hk hrot).1)

theorem soleActive_of_keepsRevealing (hk : Keys st)
    (hroom : ∃ id : SecretVersionId, id ∉ st.versions.map (·.id))
    (hselect : st.selectSecretRow handle = some row) (hkeeps : KeepsRevealing st handle) :
    SoleActive (loaded st row) := by
  have hget : st.getSecretByHandle handle = some (loaded st row) :=
    getSecret_iff.mpr ⟨row, hselect, rfl⟩
  obtain ⟨_, v, hget', hactive, hcurrent⟩ := hkeeps st .refl
  obtain rfl := Option.some.inj (hget.symm.trans hget')
  refine ⟨v, hactive, hcurrent, fun hmax => ?_⟩
  -- One more rotation shows which versions are active.
  obtain ⟨id, hid⟩ := hroom
  let new : SecretVersion := { v with
    id := id, versionNo := maxVersionNo (loaded st row).versions + 1, deprecatedAt := none }
  obtain ⟨hvmem, hvcur⟩ := currentVersion_spec hcurrent
  obtain ⟨s', hrot⟩ := rotate_succeeds (s := loaded st row) new v.createdAt
    (lt_succ_of_lt_max hmax) ⟨v, hvmem, hvcur⟩
  obtain ⟨st', hput⟩ := rotated_put hk ((select_iff hk).mp hselect).1 hid hrot
  have hreveals := hkeeps st' (.single ⟨_, _, s', .rotate new v.createdAt rfl hid, hget, hrot, hput⟩)
  have honly := fun w hw => active_of_reveals_rotated (w := w) hk hselect hid hrot hput hreveals hw
  refine ⟨fun w hw hwactive => ?_, (honly v hvmem (List.find?_some hactive)).2⟩
  exact List.inj_on_of_nodup_map (load_nodup hk.versionIds row.id) hw hvmem
    ((honly w hw hwactive).1.trans hvcur.symm)

theorem keepsRevealing_of_soleActive (hk : Keys st) (hselect : st.selectSecretRow handle = some row)
    (hsole : SoleActive (loaded st row)) : KeepsRevealing st handle := by
  obtain ⟨v, hactive, hcurrent, hsole⟩ := hsole
  intro st' hrun
  rcases hrun.cases_head with rfl | ⟨st₁, hstep, hrest⟩
  · exact ⟨_, v, getSecret_iff.mpr ⟨row, hselect, rfl⟩, hactive, hcurrent⟩
  · obtain ⟨row', new, now, s', hselect', hnew, hnewactive, hrot, hput⟩ := hstep.rotate
    obtain rfl := Option.some.inj (hselect.symm.trans hselect')
    have hlt : maxVersionNo (loaded st row).versions < UInt32.ofNat (2 ^ 32 - 1) := by
      refine UInt32.lt_of_lt_of_le (rotate_loaded hk hrot).1 ?_
      rw [UInt32.le_iff_toNat_le]
      have hmax : (UInt32.ofNat (2 ^ 32 - 1)).toNat = 2 ^ 32 - 1 := rfl
      have hnlt := new.versionNo.toNat_lt
      omega
    obtain ⟨honly, hkept⟩ := hsole hlt
    have hinactive : ∀ w ∈ st.versions, w.secretId = row.id → w ≠ v → w.isActive = false := by
      intro w hw hparent hne
      by_contra hwactive
      exact hne (honly w (mem_load.mpr ⟨hw, hparent⟩) (by simpa using hwactive))
    exact reveals_of_isCurrent (hk.rotated ((select_iff hk).mp hselect).1 hnew hrot hput)
      (isCurrent_rotated hk (currentVersion_spec hcurrent).2 hkept hinactive hnew hnewactive hrot hput)
      (select_rotated hk hselect hnew hrot hput) hrest

/-- **When reveals go on to read the current version.** -/
theorem keepsRevealing_iff {s : Secret} (hk : Keys st)
    (hroom : ∃ id : SecretVersionId, id ∉ st.versions.map (·.id))
    (hget : st.getSecretByHandle handle = some s) : KeepsRevealing st handle ↔ SoleActive s := by
  obtain ⟨row, hselect, rfl⟩ := getSecret_iff.mp hget
  exact ⟨soleActive_of_keepsRevealing hk hroom hselect, keepsRevealing_of_soleActive hk hselect⟩

end Rotations

/-! ### The command -/

/-- The secret is loaded under its handle as the backup has it, and reveals go on to read its current
version. -/
structure RestoredFaithfully (st' : Store) (b : Secret) : Prop where
  loads : ∃ s, st'.getSecretByHandle b.handle = some s ∧ s.versions = b.versions ∧
    s.currentVersionId = b.currentVersionId
  reveals : KeepsRevealing st' b.handle

theorem restoredFaithfully_iff {st st' : Store} {ws : List Secret} {b : Secret} (hk : Keys st)
    (hd : Distinct ws) (h : ws.foldlM Store.putSecret st = .ok st') (hb : b ∈ ws)
    (hroom : ∃ id : SecretVersionId, id ∉ st'.versions.map (·.id)) :
    RestoredFaithfully st' b ↔ Agrees st b ∧ SoleActive b := by
  have hk' := Keys.puts hk hd h
  have hget : st'.getSecretByHandle b.handle =
      some (secretOf (putRow st b) (st'.loadVersionsForSecret b.id)) := by
    rw [Store.getSecretByHandle, puts_select hk hd h hb, Option.map_some, putRow_id]
  have hsole : ∀ {s : Secret}, s.versions = b.versions → s.currentVersionId = b.currentVersionId →
      (SoleActive s ↔ SoleActive b) := by
    intro s hversions hcurrent
    unfold SoleActive Secret.activeVersion Secret.currentVersion
    rw [hversions, hcurrent]
  have hloads : (∃ s, st'.getSecretByHandle b.handle = some s ∧ s.versions = b.versions ∧
      s.currentVersionId = b.currentVersionId) ↔ Agrees st b := by
    rw [← puts_loads_iff hk hd h hb]
    constructor
    · rintro ⟨s, hs, hversions, -⟩
      obtain rfl := Option.some.inj (hget.symm.trans hs)
      exact hversions
    · exact fun hv => ⟨_, hget, hv, putRow_currentVersionId st b⟩
  constructor
  · rintro ⟨⟨s, hs, hversions, hcurrent⟩, hreveals⟩
    exact ⟨hloads.mp ⟨s, hs, hversions, hcurrent⟩,
      (hsole hversions hcurrent).mp ((keepsRevealing_iff hk' hroom hs).mp hreveals)⟩
  · rintro ⟨hagrees, hactive⟩
    obtain ⟨s, hs, hversions, hcurrent⟩ := hloads.mpr hagrees
    exact ⟨⟨s, hs, hversions, hcurrent⟩,
      (keepsRevealing_iff hk' hroom hs).mpr ((hsole hversions hcurrent).mpr hactive)⟩

/-- The restore writes the secret under its own handle: a pure add, or the backup wins. -/
def AppliedTo (plan : RestorePlan) (b : Secret) : Prop :=
  resolutionFor plan b.handle = none ∨ resolutionFor plan b.handle = some .newestWinsBackup

theorem restoredAs_of_appliedTo {plan : RestorePlan} {live : List Handle} {b : Secret}
    (h : AppliedTo plan b) : restoredAs plan live b = some b := by
  unfold restoredAs
  rcases h with h | h
  · rw [h]
  · rw [h]

/-- What a restore did depends on the two tables of secrets and versions only. -/
theorem restoredFaithfully_congr {st st' : Store} (hsecrets : st'.secrets = st.secrets)
    (hversions : st'.versions = st.versions) {b : Secret} (hk : Keys st)
    (hroom : ∃ id : SecretVersionId, id ∉ st.versions.map (·.id)) :
    RestoredFaithfully st' b ↔ RestoredFaithfully st b := by
  have hk' : Keys st' := by
    refine ⟨?_, ?_, ?_⟩
    · exact hsecrets ▸ hk.secretIds
    · exact hsecrets ▸ hk.handles
    · exact hversions ▸ hk.versionIds
  have hroom' : ∃ id : SecretVersionId, id ∉ st'.versions.map (·.id) := hversions ▸ hroom
  have hsame := getSecret_congr hsecrets hversions b.handle
  constructor
  · rintro ⟨⟨s, hs, hloads⟩, hreveals⟩
    have hs' := hsame.symm.trans hs
    exact ⟨⟨s, hs', hloads⟩,
      (keepsRevealing_iff hk hroom hs').mpr ((keepsRevealing_iff hk' hroom' hs).mp hreveals)⟩
  · rintro ⟨⟨s, hs, hloads⟩, hreveals⟩
    have hs' := hsame.trans hs
    exact ⟨⟨s, hs', hloads⟩,
      (keepsRevealing_iff hk' hroom' hs').mpr ((keepsRevealing_iff hk hroom hs).mp hreveals)⟩

/-- **Restore faithfulness.**  After a restore of a backup of some store, each secret that was written
under its own handle is faithful exactly when no stored version is in its way and its current version
is its sole active one. -/
theorem restore_faithful_iff (W : World) (n n' : Node) (cmd : ExecuteRestoreCommand)
    (reply : NodeReply) (hist : List (Event NodeOp)) (hs : Schema n.app.store)
    (hsnap : ∀ plan namespaceId secrets, Restores W n cmd plan namespaceId secrets → Snapshot secrets)
    (hrun : Runs (nodeExec W) (cmd.execute W).run n hist (.ok reply) n')
    (hroom : ∃ id : SecretVersionId, id ∉ n'.app.store.versions.map (·.id)) :
    ∃ plan namespaceId secrets, Restores W n cmd plan namespaceId secrets ∧
      ∀ b ∈ secrets, AppliedTo plan b →
        (RestoredFaithfully n'.app.store b ↔ Agrees n.app.store b ∧ SoleActive b) := by
  obtain ⟨plan, namespaceId, secrets, store, hrestores, hputs, hsecrets, hversions, -⟩ :=
    wp_runs (executeRestore_yields cmd) hrun reply rfl
  refine ⟨plan, namespaceId, secrets, hrestores, fun b hb happlied => ?_⟩
  have hd := distinct_writes (hsnap plan namespaceId secrets hrestores).distinct plan
    (liveHandles n.app.store namespaceId)
  rw [hversions] at hroom
  rw [restoredFaithfully_congr hsecrets hversions (Keys.puts hs.toKeys hd hputs) hroom]
  exact restoredFaithfully_iff hs.toKeys hd hputs
    (mem_writes.mpr ⟨b, hb, restoredAs_of_appliedTo happlied⟩) hroom

/-! ### Two restores -/

/-- The secret that `samplePayload 2 1` holds. -/
def sampleBacked : Secret := jsonSecret (secretOf (sampleRowOf 2 1) [sampleVersionOf 2 1])

theorem sampleBacked_applied : AppliedTo (samplePlan .newestWinsBackup) sampleBacked :=
  .inr (show resolutionFor (samplePlan .newestWinsBackup) sampleHandle = _ by decide)

/-- A restore of the secret as it is stored. -/
theorem same_secret_restored : ∃ n' hist, Runs (nodeExec (sampleWorld (samplePayload 2 1)))
      (sampleRestore.execute (sampleWorld (samplePayload 2 1))).run
      (sampleNode (samplePayload 2 1) (sampleStoreOf 2 1) (samplePlan .newestWinsBackup)) hist
      (.ok (.restored 1 ⟨sampleUuid 1⟩)) n' ∧ RestoredFaithfully n'.app.store sampleBacked := by
  obtain ⟨n', -, hversions, hist, hrun⟩ := sampleRestore_runs (samplePayload 2 1)
    (sampleStoreOf 2 1) (sampleRowOf 2 1) rfl (by decide) rfl rfl
    (restoredAs_of_appliedTo sampleBacked_applied) rfl
  have hroom : (⟨sampleUuid 99⟩ : SecretVersionId) ∉ n'.app.store.versions.map (·.id) := by
    rw [hversions]
    decide
  obtain ⟨plan, namespaceId, secrets, hrestores, hiff⟩ := restore_faithful_iff _ _ n' _ _ hist
    (sampleStoreOf_schema 2 1) (fun _ _ _ h => (sampleNode_held h).2 ▸ samplePayload_snapshot 2 1)
    hrun ⟨_, hroom⟩
  obtain ⟨rfl, rfl⟩ := sampleNode_held hrestores
  refine ⟨n', hist, hrun, (hiff sampleBacked List.mem_cons_self sampleBacked_applied).mpr ⟨?_, ?_⟩⟩
  · intro r hr _
    obtain rfl := List.mem_singleton.mp hr
    exact ⟨_, List.mem_singleton_self _, rfl⟩
  · refine ⟨jsonVersion (sampleVersionOf 2 1), by decide, by decide, fun _ => ⟨?_, by decide⟩⟩
    intro w hw _
    exact List.mem_singleton.mp hw

/-- The store after a rotation of that secret. -/
def sampleRotated : Store := { sampleStoreOf 2 1 with
  secrets := [sampleRowOf 2 2]
  versions := [setDeprecated epoch (sampleVersionOf 2 1), sampleVersionOf 2 2] }

theorem sampleRotated_schema : Schema sampleRotated :=
  ⟨⟨by decide, by decide, by decide⟩, by decide⟩

/-- **The backup does not win over a rotation**: the version that was added since the backup is
loaded with the restored one. -/
theorem newer_version_stays : Schema sampleRotated ∧
    Snapshot ((samplePayload 2 1).secrets.map jsonSecret) ∧
    ∃ n' hist, Runs (nodeExec (sampleWorld (samplePayload 2 1)))
      (sampleRestore.execute (sampleWorld (samplePayload 2 1))).run
      (sampleNode (samplePayload 2 1) sampleRotated (samplePlan .newestWinsBackup)) hist
      (.ok (.restored 1 ⟨sampleUuid 1⟩)) n' ∧
    AppliedTo (samplePlan .newestWinsBackup) sampleBacked ∧
    ¬ RestoredFaithfully n'.app.store sampleBacked := by
  obtain ⟨n', hsecrets, hversions, hist, hrun⟩ := sampleRestore_runs (samplePayload 2 1)
    sampleRotated (sampleRowOf 2 2) rfl (by decide) rfl rfl
    (restoredAs_of_appliedTo sampleBacked_applied) rfl
  refine ⟨sampleRotated_schema, samplePayload_snapshot 2 1, n', hist, hrun, sampleBacked_applied, ?_⟩
  rintro ⟨⟨s, hs, hloads, -⟩, -⟩
  obtain ⟨row, hselect, rfl⟩ := getSecret_iff.mp hs
  have hrow : row.id = ⟨sampleUuid 2⟩ := by
    rw [Store.selectSecretRow, hsecrets] at hselect
    obtain rfl := Option.some.inj hselect
    rfl
  have hstays : sampleVersionOf 2 2 ∈ n'.app.store.loadVersionsForSecret row.id := by
    refine mem_load.mpr ⟨?_, by rw [hrow]; rfl⟩
    rw [hversions]
    decide
  have hmem : sampleVersionOf 2 2 ∈ sampleBacked.versions := hloads ▸ hstays
  exact absurd hmem (by decide)

end MerkleVault.App.RestoredVersions
