import MerkleVault.App.Restore

/-! # A Restore that Merges

A merge keeps the live secret of each handle that both sides have and writes the copy of the backup
under a suffixed handle.  The copy keeps the identifiers of its secret and of its versions, and the
upserts go by identifier: both sides are preserved exactly when they share none.

* `Unknown`, `ChangesNothing`: what a put has to meet, or not to meet, in the store;
* `puts_unchanged_iff`: when what is stored stays as it is;
* `merge_restore_iff`: when a merge preserves both sides. -/

namespace MerkleVault.App.MergeRestore

open MerkleVault.Types MerkleVault.Lib.Program
open MerkleVault.Secrets.Aggregate MerkleVault.Sqlite.Tables MerkleVault.Sqlite.Versions
open MerkleVault.Sqlite.Reload MerkleVault.App.Host
open MerkleVault.App.BackupCommands MerkleVault.App.Restore MerkleVault.App.Context
open MerkleVault.App.Reveal MerkleVault.Audit.Integrity MerkleVault.App.AuditCoverage

/-! ### Puts that change nothing -/

/-- The foreign key of `secret_versions`. -/
def Parents (st : Store) : Prop := ∀ r ∈ st.versions, r.secretId ∈ st.secrets.map (·.id)

/-- The store knows no identifier of the secret. -/
structure Unknown (st : Store) (w : Secret) : Prop where
  secretId : w.id ∉ st.secrets.map (·.id)
  versionIds : ∀ v ∈ w.versions, v.id ∉ st.versions.map (·.id)

/-- What is stored under the identifiers of the secret is what a put of it writes there. -/
structure ChangesNothing (st : Store) (w : Secret) : Prop where
  row : ∀ row ∈ st.secrets, row.id = w.id → updateRow row w = row
  versions : ∀ row ∈ st.secrets, row.id = w.id → ∀ v ∈ w.versions, v.id ∈ st.versions.map (·.id)
  deprecated : ∀ r ∈ st.versions, ∀ v ∈ w.versions, v.id = r.id → v.deprecatedAt = r.deprecatedAt

/-- What is stored of a secret under the identifiers of another is what a put of that writes there. -/
structure Spares (st : Store) (row : SecretRow) (w : Secret) : Prop where
  updated : row.id = w.id → updateRow row w = row
  inserted : row.id = w.id → ∀ v ∈ w.versions, v.id ∈ st.versions.map (·.id)
  deprecated : ∀ r ∈ st.versions, r.secretId = row.id →
    ∀ v ∈ w.versions, v.id = r.id → v.deprecatedAt = r.deprecatedAt

/-- Every secret of the store is found under its handle as it was. -/
def Unchanged (st st' : Store) : Prop :=
  ∀ row ∈ st.secrets, st'.getSecretByHandle row.handle = some (loaded st row)

theorem Unknown.changesNothing {st : Store} {w : Secret} (h : Unknown st w) : ChangesNothing st w := by
  have hrow : ∀ row ∈ st.secrets, row.id ≠ w.id :=
    fun row hrow he => h.secretId (he ▸ List.mem_map_of_mem hrow)
  refine ⟨fun row hmem he => absurd he (hrow row hmem), fun row hmem he => absurd he (hrow row hmem), ?_⟩
  intro r hr v hv he
  exact absurd (he ▸ List.mem_map_of_mem hr) (h.versionIds v hv)

theorem changesNothing_iff {st : Store} (hp : Parents st) {w : Secret} :
    ChangesNothing st w ↔ ∀ row ∈ st.secrets, Spares st row w := by
  constructor
  · rintro ⟨hrow, hversions, hdeprecated⟩ row hmem
    exact ⟨hrow row hmem, hversions row hmem, fun r hr _ => hdeprecated r hr⟩
  · intro h
    refine ⟨fun row hmem => (h row hmem).updated, fun row hmem => (h row hmem).inserted, ?_⟩
    intro r hr
    obtain ⟨row, hmem, hsid⟩ := List.mem_map.mp (hp r hr)
    exact (h row hmem).deprecated r hr hsid.symm

section Puts

variable {st st' : Store} {ws : List Secret}

theorem putRow_of_stored (hk : Keys st) {row : SecretRow} (hrow : row ∈ st.secrets) {w : Secret}
    (hid : row.id = w.id) : putRow st w = updateRow row w := by
  have hfind : st.secrets.find? (fun r => r.id = w.id) = some row := by
    rw [← hid]
    exact find?_of_nodup hk.secretIds hrow
  rw [putRow, hfind]

/-- A row is found under its handle with the versions that it had. -/
theorem getSecret_eq_iff (hk : Keys st') {row : SecretRow} :
    st'.getSecretByHandle row.handle = some (loaded st row) ↔ row ∈ st'.secrets ∧
      st'.loadVersionsForSecret row.id = st.loadVersionsForSecret row.id := by
  rw [Store.getSecretByHandle, Option.map_eq_some_iff]
  constructor
  · rintro ⟨row', hselect, he⟩
    obtain ⟨rfl, hv⟩ : row' = row ∧
        st'.loadVersionsForSecret row'.id = st.loadVersionsForSecret row.id := by
      cases row
      cases row'
      simp only [loaded, secretOf, Secret.mk.injEq] at he
      simp only [SecretRow.mk.injEq]
      tauto
    exact ⟨((select_iff hk).mp hselect).1, hv⟩
  · rintro ⟨hrow, hv⟩
    exact ⟨row, (select_iff hk).mpr ⟨hrow, rfl⟩, by rw [loaded, hv]⟩

theorem loads_same_iff (hs : Schema st) (hk' : Keys st') {id : SecretId} :
    st'.loadVersionsForSecret id = st.loadVersionsForSecret id ↔
      ∀ v, v ∈ st'.versions ∧ v.secretId = id ↔ v ∈ st.versions ∧ v.secretId = id := by
  constructor
  · intro h v
    rw [← mem_load, ← mem_load, h]
  · intro h
    refine eq_of_increasing (load_sorted st' id) ((load_nodup hk'.versionIds id).of_map _)
      (load_increasing hs id) fun v => ?_
    rw [mem_load, mem_load]
    exact h v

/-- **When the puts leave a stored secret as it is.** -/
theorem puts_spare_iff (hs : Schema st) (hd : Distinct ws) (h : ws.foldlM Store.putSecret st = .ok st')
    {row : SecretRow} (hrow : row ∈ st.secrets) : (row ∈ st'.secrets ∧
      st'.loadVersionsForSecret row.id = st.loadVersionsForSecret row.id) ↔
        ∀ w ∈ ws, Spares st row w := by
  have hk' := Keys.puts hs.toKeys hd h
  rw [loads_same_iff hs hk']
  constructor
  · rintro ⟨hstays, hloads⟩ w hw
    refine ⟨fun hid => ?_, fun hid v hv => ?_, fun r hr hsid v hv hid => ?_⟩
    · have hput := puts_mem hs.toKeys hd h hw
      rw [putRow_of_stored hs.toKeys hrow hid] at hput
      exact List.inj_on_of_nodup_map hk'.secretIds hput hstays rfl
    · by_contra hnew
      have hadded : v ∈ st'.versions :=
        (mem_puts_versions hd h).mpr (.inr ⟨v, mem_allVersions.mpr ⟨w, hw, hv⟩, hnew, rfl⟩)
      have hsid : v.secretId = row.id := ((hd.wellVersioned w hw).parents v hv).trans hid.symm
      exact hnew (List.mem_map_of_mem ((hloads v).mp ⟨hadded, hsid⟩).1)
    · have hstored : refresh (allVersions ws) r ∈ st'.versions :=
        (mem_puts_versions hd h).mpr (.inl ⟨r, hr, rfl⟩)
      have hold := ((hloads _).mp ⟨hstored, (refresh_secretId _ r).trans hsid⟩).1
      have heq := List.inj_on_of_nodup_map hs.versionIds hold hr (refresh_id _ r)
      rw [refresh_of_mem hd.versionIds (mem_allVersions.mpr ⟨w, hw, hv⟩) hid] at heq
      have hdeprecated := congrArg SecretVersion.deprecatedAt heq
      exact hdeprecated
  · intro hws
    have hsame : ∀ r ∈ st.versions, r.secretId = row.id → refresh (allVersions ws) r = r := by
      intro r hr hsid
      by_cases hid : r.id ∈ (allVersions ws).map (·.id)
      · obtain ⟨v, hv, hvid⟩ := List.mem_map.mp hid
        obtain ⟨w, hw, hvw⟩ := mem_allVersions.mp hv
        rw [refresh_of_mem hd.versionIds hv hvid, (hws w hw).deprecated r hr hsid v hvw hvid]
      · exact refresh_of_notMem hid
    refine ⟨?_, fun v => ?_⟩
    · by_cases hid : row.id ∈ ws.map (·.id)
      · obtain ⟨w, hw, he⟩ := List.mem_map.mp hid
        have hput := puts_mem hs.toKeys hd h hw
        rwa [putRow_of_stored hs.toKeys hrow he.symm, (hws w hw).updated he.symm] at hput
      · exact (puts_other hs.toKeys hd h hid).mpr hrow
    · rw [mem_puts_versions hd h]
      constructor
      · rintro ⟨⟨r, hr, rfl⟩ | ⟨u, hu, hnew, rfl⟩, hsid⟩
        · have hrow := (refresh_secretId _ r).symm.trans hsid
          rw [hsame r hr hrow]
          exact ⟨hr, hrow⟩
        · -- A new version of a stored secret is not among the puts.
          obtain ⟨w, hw, huw⟩ := mem_allVersions.mp hu
          have hwid : row.id = w.id := hsid.symm.trans ((hd.wellVersioned w hw).parents v huw)
          exact absurd ((hws w hw).inserted hwid v huw) hnew
      · rintro ⟨hv, hsid⟩
        exact ⟨.inl ⟨v, hv, (hsame v hv hsid).symm⟩, hsid⟩

/-- **When what is stored stays as it is.** -/
theorem puts_unchanged_iff (hs : Schema st) (hp : Parents st) (hd : Distinct ws)
    (h : ws.foldlM Store.putSecret st = .ok st') :
    Unchanged st st' ↔ ∀ w ∈ ws, ChangesNothing st w := by
  have hk' := Keys.puts hs.toKeys hd h
  constructor
  · intro hsame w hw
    refine (changesNothing_iff hp).mpr fun row hrow => ?_
    exact (puts_spare_iff hs hd h hrow).mp ((getSecret_eq_iff hk').mp (hsame row hrow)) w hw
  · intro hws row hrow
    refine (getSecret_eq_iff hk').mpr ((puts_spare_iff hs hd h hrow).mpr fun w hw => ?_)
    exact (changesNothing_iff hp).mp (hws w hw) row hrow

/-- **When a secret is put beside what is stored**, as a secret of its own. -/
theorem put_beside_iff (hs : Schema st) (hp : Parents st) (hd : Distinct ws)
    (h : ws.foldlM Store.putSecret st = .ok st') {w : Secret} (hw : w ∈ ws) :
    st'.getSecretByHandle w.handle = some w ∧ w.id ∉ st.secrets.map (·.id) ↔ Unknown st w := by
  have hselect := puts_select hs.toKeys hd h hw
  have hloads := puts_loads_iff hs.toKeys hd h hw
  constructor
  · rintro ⟨hget, hid⟩
    refine ⟨hid, ?_⟩
    rw [Store.getSecretByHandle, hselect, Option.map_some] at hget
    have hversions := congrArg Secret.versions (Option.some.inj hget)
    have hagree := hloads.mp (by simpa [secretOf] using hversions)
    intro v hv hstored
    obtain ⟨r, hr, hrid⟩ := List.mem_map.mp hstored
    obtain ⟨u, hu, he⟩ := hagree r hr (.inr (hrid ▸ List.mem_map_of_mem hv))
    have hparent : u.secretId = r.secretId := by rw [he]
    rw [(hd.wellVersioned w hw).parents u hu] at hparent
    exact hid (hparent ▸ hp r hr)
  · intro hunknown
    refine ⟨?_, hunknown.secretId⟩
    have hagree : Agrees st w := by
      rintro r hr (hsid | hid)
      · exact absurd (hsid ▸ hp r hr) hunknown.secretId
      · obtain ⟨v, hv, hvid⟩ := List.mem_map.mp hid
        exact absurd (hvid ▸ List.mem_map_of_mem hr) (hunknown.versionIds v hv)
    have hrow : putRow st w = rowOf w := by
      have hnone : st.secrets.find? (fun r => r.id = w.id) = none := by
        rw [List.find?_eq_none]
        intro r hr he
        exact hunknown.secretId (List.mem_map.mpr ⟨r, hr, by simpa using he⟩)
      rw [putRow, hnone]
    rw [Store.getSecretByHandle, hselect, Option.map_some, hrow]
    have hversions : st'.loadVersionsForSecret (rowOf w).id = w.versions := hloads.mpr hagree
    rw [hversions]
    rfl

end Puts

/-! ### The command -/

/-- What is written for a secret of the backup is that secret, under some handle. -/
theorem restoredAs_same {plan : RestorePlan} {live : List Handle} {b w : Secret}
    (h : restoredAs plan live b = some w) : w = { b with handle := w.handle } := by
  unfold restoredAs at h
  split at h
  · obtain rfl := Option.some.inj h
    rfl
  · obtain rfl := Option.some.inj h
    rfl
  · cases h
  · obtain ⟨hsuffix, -⟩ := Option.filter_eq_some_iff.mp h
    obtain ⟨handle, -, rfl⟩ := Option.map_eq_some_iff.mp hsuffix
    rfl
  · cases h

theorem mem_writes {plan : RestorePlan} {live : List Handle} {secrets : List Secret} {w : Secret} :
    w ∈ writes plan live secrets ↔ ∃ b ∈ secrets, restoredAs plan live b = some w :=
  List.mem_filterMap

theorem distinct_writes {secrets : List Secret} (hd : Distinct secrets) (plan : RestorePlan)
    (live : List Handle) : Distinct (writes plan live secrets) := by
  have hids : ((writes plan live secrets).map (·.id)).Sublist (secrets.map (·.id)) ∧
      ((allVersions (writes plan live secrets)).map (·.id)).Sublist
        ((allVersions secrets).map (·.id)) := by
    clear hd
    induction secrets with
    | nil => exact ⟨List.Sublist.refl _, List.Sublist.refl _⟩
    | cons b rest ih =>
      cases h : restoredAs plan live b with
      | none =>
        rw [writes, List.filterMap_cons_none h, allVersions_cons, List.map_cons, List.map_append]
        exact ⟨ih.1.cons _, ih.2.trans (List.sublist_append_right _ _)⟩
      | some w =>
        have hsame := restoredAs_same h
        have hid : w.id = b.id := by rw [hsame]
        have hversions : w.versions = b.versions := by rw [hsame]
        rw [writes, List.filterMap_cons_some h, allVersions_cons, allVersions_cons, List.map_cons,
          List.map_cons, List.map_append, List.map_append, hid, hversions]
        exact ⟨ih.1.cons_cons _, (List.Sublist.refl _).append ih.2⟩
  refine ⟨?_, hd.ids.sublist hids.1, hd.versionIds.sublist hids.2⟩
  intro w hw
  obtain ⟨b, hb, h⟩ := mem_writes.mp hw
  obtain ⟨hinc, hvids, hparents⟩ := hd.wellVersioned b hb
  rw [restoredAs_same h]
  exact ⟨hinc, hvids, hparents⟩

/-- **Both sides after a merge**: every live secret is what it was, and each copy that was written is
a secret of its own under the suffixed handle. -/
structure PreservesBoth (st st' : Store) (plan : RestorePlan) (namespaceId : NamespaceId)
    (secrets : List Secret) : Prop where
  live : Unchanged st st'
  copies : ∀ b ∈ secrets, resolutionFor plan b.handle = some .preserveBoth →
    ∀ copy, restoredAs plan (liveHandles st namespaceId) b = some copy →
      st'.getSecretByHandle copy.handle = some copy ∧ copy.id ∉ st.secrets.map (·.id)

/-- The copies share no identifier with the store, and the other secrets that are written change
nothing in it. -/
def NothingShared (st : Store) (plan : RestorePlan) (namespaceId : NamespaceId)
    (secrets : List Secret) : Prop :=
  ∀ b ∈ secrets, ∀ w, restoredAs plan (liveHandles st namespaceId) b = some w →
    if resolutionFor plan b.handle = some .preserveBoth then Unknown st w else ChangesNothing st w

theorem getSecret_congr {st st' : Store} (hsecrets : st'.secrets = st.secrets)
    (hversions : st'.versions = st.versions) (handle : Handle) :
    st'.getSecretByHandle handle = st.getSecretByHandle handle := by
  unfold Store.getSecretByHandle Store.selectSecretRow Store.loadVersionsForSecret
  rw [hsecrets, hversions]

theorem preservesBoth_iff {st st' : Store} {plan : RestorePlan} {namespaceId : NamespaceId}
    {secrets : List Secret} (hs : Schema st) (hp : Parents st) (hd : Distinct secrets)
    (h : (writes plan (liveHandles st namespaceId) secrets).foldlM Store.putSecret st = .ok st') :
    PreservesBoth st st' plan namespaceId secrets ↔ NothingShared st plan namespaceId secrets := by
  have hdw := distinct_writes hd plan (liveHandles st namespaceId)
  have hbeside := fun w hw => put_beside_iff (w := w) hs hp hdw h hw
  constructor
  · rintro ⟨hlive, hcopies⟩ b hb w hw
    have hmem := mem_writes.mpr ⟨b, hb, hw⟩
    split_ifs with hboth
    · exact (hbeside w hmem).mp (hcopies b hb hboth w hw)
    · exact (puts_unchanged_iff hs hp hdw h).mp hlive w hmem
  · intro hshared
    refine ⟨(puts_unchanged_iff hs hp hdw h).mpr ?_, ?_⟩
    · intro w hw
      obtain ⟨b, hb, hbw⟩ := mem_writes.mp hw
      have := hshared b hb w hbw
      split_ifs at this
      · exact this.changesNothing
      · exact this
    · intro b hb hboth copy hcopy
      have := hshared b hb copy hcopy
      rw [if_pos hboth] at this
      exact (hbeside copy (mem_writes.mpr ⟨b, hb, hcopy⟩)).mpr this

/-- **Merge restore.**  After a restore of a backup of some store, both sides are preserved exactly
when the secrets that were written share nothing with the live store. -/
theorem merge_restore_iff (W : World) (n n' : Node) (cmd : ExecuteRestoreCommand) (reply : NodeReply)
    (hist : List (Event NodeOp)) (hs : Schema n.app.store) (hp : Parents n.app.store)
    (hsnap : ∀ plan namespaceId secrets, Restores W n cmd plan namespaceId secrets → Snapshot secrets)
    (hrun : Runs (nodeExec W) (cmd.execute W).run n hist (.ok reply) n') :
    ∃ plan namespaceId secrets, Restores W n cmd plan namespaceId secrets ∧
      (PreservesBoth n.app.store n'.app.store plan namespaceId secrets ↔
        NothingShared n.app.store plan namespaceId secrets) := by
  obtain ⟨plan, namespaceId, secrets, store, hrestores, hputs, hsecrets, hversions, -⟩ :=
    wp_runs (executeRestore_yields cmd) hrun reply rfl
  refine ⟨plan, namespaceId, secrets, hrestores, ?_⟩
  have hsame := getSecret_congr hsecrets hversions
  rw [← preservesBoth_iff hs hp (hsnap plan namespaceId secrets hrestores).distinct hputs]
  constructor
  · rintro ⟨hlive, hcopies⟩
    exact ⟨fun row hrow => hsame row.handle ▸ hlive row hrow,
      fun b hb hboth copy hcopy => hsame copy.handle ▸ hcopies b hb hboth copy hcopy⟩
  · rintro ⟨hlive, hcopies⟩
    refine ⟨fun row hrow => ?_, fun b hb hboth copy hcopy => ?_⟩
    · rw [hsame]
      exact hlive row hrow
    · rw [hsame]
      exact hcopies b hb hboth copy hcopy

/-! ### Two merges -/

/-- The row of the secret number `id` under `sampleHandle`, its version number `current`. -/
def sampleRowOf (id current : UInt8) : SecretRow := { sampleRow current with id := ⟨sampleUuid id⟩ }

/-- A version of the secret of an id. -/
def sampleVersionOf (id n : UInt8) : SecretVersion :=
  { sampleVersion n (sampleBlob sampleKey [n]) with secretId := ⟨sampleUuid id⟩ }

/-- A store with one secret of one version. -/
def sampleStoreOf (id n : UInt8) : Store := { Store.empty with
  namespaces := [sampleNamespace]
  secrets := [sampleRowOf id n]
  versions := [sampleVersionOf id n] }

theorem sampleStoreOf_schema (id n : UInt8) : Schema (sampleStoreOf id n) :=
  ⟨⟨List.nodup_singleton _, List.nodup_singleton _, List.nodup_singleton _⟩, by
    simp [sampleStoreOf]⟩

theorem sampleStoreOf_parents (id n : UInt8) : Parents (sampleStoreOf id n) := by
  simp [Parents, sampleStoreOf, sampleRowOf, sampleVersionOf]

theorem sampleStoreOf_loaded (id n : UInt8) :
    loaded (sampleStoreOf id n) (sampleRowOf id n) =
      secretOf (sampleRowOf id n) [sampleVersionOf id n] := by
  simp [loaded, Store.loadVersionsForSecret, sampleStoreOf, sampleRowOf, sampleVersionOf]

/-- The backup of such a store. -/
def samplePayload (id n : UInt8) : BackupPlaintext :=
  ⟨none, [secretOf (sampleRowOf id n) [sampleVersionOf id n]]⟩

theorem samplePayload_snapshot (id n : UInt8) :
    Snapshot ((samplePayload id n).secrets.map jsonSecret) :=
  ⟨sampleStoreOf id n, ⟨sampleUuid 1⟩, [sampleRowOf id n], sampleStoreOf_schema id n,
    List.Perm.refl _, by rw [List.map_singleton, sampleStoreOf_loaded]; rfl⟩

theorem sampleNode_held {payload : BackupPlaintext} {st : Store} {plan plan' : RestorePlan}
    {cmd : ExecuteRestoreCommand} {namespaceId : NamespaceId} {secrets : List Secret}
    (h : Restores (sampleWorld payload) (sampleNode payload st plan) cmd plan' namespaceId secrets) :
    plan' = plan ∧ secrets = payload.secrets.map jsonSecret := by
  obtain ⟨⟨row, hrow, hplan, -⟩, -, -, ⟨_, -, -, -, hheld⟩⟩ := h
  have hmem := List.mem_of_find?_eq_some hrow
  obtain rfl := List.mem_singleton.mp hmem
  exact ⟨hplan.symm, heldBy_sample (fun _ => rfl) hheld⟩

/-- The handle of a merge copy. -/
def sampleSuffixed : Handle := ⟨sampleLabel, .database, ⟨"postgres-restored", by decide⟩⟩

theorem sample_suffix {b : Secret} (hb : b.handle = sampleHandle) :
    suffixSecretHandle b = some { b with handle := sampleSuffixed } := by
  have hparse : Handle.fromStr (sampleHandle.display ++ "-restored") = some sampleSuffixed := by decide
  rw [suffixSecretHandle, hb, hparse, Option.map_some]

theorem sample_restoredAs {b : Secret} (hb : b.handle = sampleHandle) :
    restoredAs (samplePlan .preserveBoth) [sampleHandle] b = some { b with handle := sampleSuffixed } := by
  have hresolution : resolutionFor (samplePlan .preserveBoth) sampleHandle = some .preserveBoth := by
    decide
  unfold restoredAs
  rw [hb, hresolution]
  dsimp only
  rw [sample_suffix hb]
  have hfree : decide (sampleSuffixed ∉ [sampleHandle]) = true := by decide
  exact Option.filter_eq_some_iff.mpr ⟨rfl, hfree⟩

/-- A backup of an earlier secret under the handle: both are there. -/
theorem earlier_secret_preserved : ∃ n' hist,
    Runs (nodeExec (sampleWorld (samplePayload 12 11)))
      (sampleRestore.execute (sampleWorld (samplePayload 12 11))).run
      (sampleNode (samplePayload 12 11) (sampleStoreOf 2 1) (samplePlan .preserveBoth)) hist
      (.ok (.restored 1 ⟨sampleUuid 1⟩)) n' ∧
    ∃ plan namespaceId secrets, PreservesBoth (sampleStoreOf 2 1) n'.app.store plan namespaceId secrets ∧
      secrets = (samplePayload 12 11).secrets.map jsonSecret := by
  obtain ⟨n', -, -, hist, hrun⟩ := sampleRestore_runs (samplePayload 12 11)
    (sampleStoreOf 2 1) (sampleRowOf 2 1) rfl (by decide) rfl rfl
    (sample_restoredAs rfl) rfl
  obtain ⟨plan, namespaceId, secrets, hrestores, hiff⟩ := merge_restore_iff _ _ n' _ _ hist
    (sampleStoreOf_schema 2 1) (sampleStoreOf_parents 2 1)
    (fun _ _ _ h => (sampleNode_held h).2 ▸ samplePayload_snapshot 12 11) hrun
  obtain ⟨rfl, rfl⟩ := sampleNode_held hrestores
  refine ⟨n', hist, hrun, _, namespaceId, _, hiff.mpr ?_, rfl⟩
  intro b hb w hw
  obtain rfl := List.mem_singleton.mp hb
  have hresolution : resolutionFor (samplePlan .preserveBoth) sampleHandle = some .preserveBoth := by
    decide
  have hid : (sampleRowOf 12 11).id ∉ (sampleStoreOf 2 1).secrets.map (·.id) := by decide
  have hvid : ∀ v ∈ [jsonVersion (sampleVersionOf 12 11)],
      v.id ∉ (sampleStoreOf 2 1).versions.map (·.id) := by decide
  have hunknown : Unknown (sampleStoreOf 2 1) w := by
    rw [restoredAs_same hw]
    exact ⟨hid, hvid⟩
  exact (if_pos hresolution).symm ▸ hunknown

/-- **The merge of a backup with the secret it was taken of** moves that secret to the suffixed
handle: nothing is left under its own. -/
theorem merge_moves_live_secret : Schema (sampleStoreOf 2 1) ∧ Parents (sampleStoreOf 2 1) ∧
    Snapshot ((samplePayload 2 1).secrets.map jsonSecret) ∧
    (samplePlan .preserveBoth).conflicts =
      planConflicts [(sampleHandle, epoch)] [(sampleHandle, epoch)] .mergePreserveBoth ∧
    ∃ n' hist, Runs (nodeExec (sampleWorld (samplePayload 2 1)))
      (sampleRestore.execute (sampleWorld (samplePayload 2 1))).run
      (sampleNode (samplePayload 2 1) (sampleStoreOf 2 1) (samplePlan .preserveBoth)) hist
      (.ok (.restored 1 ⟨sampleUuid 1⟩)) n' ∧
    ((sampleStoreOf 2 1).getSecretByHandle sampleHandle).isSome = true ∧
    n'.app.store.getSecretByHandle sampleHandle = none ∧
    ∀ plan namespaceId secrets, ¬ PreservesBoth (sampleStoreOf 2 1)
      n'.app.store plan namespaceId secrets := by
  obtain ⟨n', hsecrets, hversions, hist, hrun⟩ := sampleRestore_runs (samplePayload 2 1)
    (sampleStoreOf 2 1) (sampleRowOf 2 1) rfl (by decide) rfl rfl
    (sample_restoredAs rfl) rfl
  have hnone : n'.app.store.getSecretByHandle sampleHandle = none := by
    rw [getSecret_congr hsecrets hversions, Store.getSecretByHandle, Store.selectSecretRow]
    rfl
  refine ⟨sampleStoreOf_schema 2 1, sampleStoreOf_parents 2 1, samplePayload_snapshot 2 1, rfl,
    n', hist, hrun, rfl, hnone, ?_⟩
  intro plan namespaceId secrets hboth
  have hlive := hboth.live (sampleRowOf 2 1) List.mem_cons_self
  rw [show (sampleRowOf 2 1).handle = sampleHandle from rfl, hnone] at hlive
  cases hlive

end MerkleVault.App.MergeRestore