import MerkleVault.Sqlite.Reload

/-! # Retention at Rest

A rotation prunes the oldest versions of the aggregate, and the storage port is to delete their rows.
`put_secret` upserts the versions that are left and deletes nothing, so a pruned version is loaded
again by the next command.  Here a run of rotations and rollbacks in memory is compared with the run
that loads the secret before each operation and saves it after.

* `retained_at_rest_iff`: the two runs agree exactly as long as no operation prunes;
* `pruned_version_reloaded`: the smallest run in which they do not. -/

namespace MerkleVault.Sqlite.Retention

open MerkleVault.Types MerkleVault.Secrets.Aggregate MerkleVault.Sqlite.Tables
open MerkleVault.Sqlite.Versions MerkleVault.Sqlite.Reload

/-! ### What the columns hold -/

/-- A time as its column holds it: text at microsecond precision. -/
def atMicros (t : Rfc3339Timestamp) : Rfc3339Timestamp := t.atMicros

/-- A version as its row holds it, under the parent that `put_secret` gives it. -/
def storedVersion (parentId : SecretId) (v : SecretVersion) : SecretVersion :=
  { v with
    secretId := parentId
    createdAt := atMicros v.createdAt
    deprecatedAt := v.deprecatedAt.map atMicros }

/-- The secret, as its rows keep it. -/
def asStored (s : Secret) : Secret :=
  { s with
    createdAt := atMicros s.createdAt
    versions := s.versions.map (storedVersion s.id) }

/-- `put_secret`, the columns included. -/
def saveSecret (st : Store) (s : Secret) : Except StorageError Store := st.putSecret (asStored s)

@[simp] theorem atMicros_atMicros (t : Rfc3339Timestamp) : atMicros (atMicros t) = atMicros t :=
  t.atMicros_atMicros

@[simp] theorem storedVersion_id (p : SecretId) (v : SecretVersion) : (storedVersion p v).id = v.id :=
  rfl

@[simp] theorem storedVersion_versionNo (p : SecretId) (v : SecretVersion) :
    (storedVersion p v).versionNo = v.versionNo := rfl

/-- Deprecation before or after the row is written. -/
theorem storedVersion_retire (p : SecretId) (id : SecretVersionId) (now : Rfc3339Timestamp)
    (v : SecretVersion) :
    storedVersion p (retire id now (storedVersion p v)) = storedVersion p (retire id now v) := by
  unfold retire
  rw [storedVersion_id]
  split_ifs with h
  · cases hd : v.deprecatedAt with
    | none => simp [storedVersion, setDeprecated, hd]
    | some t => simp [storedVersion, setDeprecated, hd]
  · cases hd : v.deprecatedAt with
    | none => simp [storedVersion, hd]
    | some t => simp [storedVersion, hd]

/-! ### Runs -/

/-- `RetentionPolicy`: at least one version is kept. -/
structure RetentionPolicy where
  retainCount : UInt32
  valid : 0 < retainCount.toNat

/-- An operation on the aggregate, with the identifier and the time that it draws. -/
inductive VersionOp
  | rotate (newVersion : SecretVersion) (policy : RetentionPolicy) (now : Rfc3339Timestamp)
  | rollbackTo (targetVersionNo : UInt32) (policy : RetentionPolicy) (fresh : Fresh)

namespace VersionOp

/-- The retention policy of an operation. -/
def policy : VersionOp → RetentionPolicy
  | rotate _ p _ => p
  | rollbackTo _ p _ => p

/-- The identifier of the version that the operation makes. -/
def versionId : VersionOp → SecretVersionId
  | rotate v _ _ => v.id
  | rollbackTo _ _ fresh => fresh.versionId

/-- An operation of the aggregate. -/
def apply : VersionOp → Secret → Except DomainError Secret
  | rotate v p now, s => s.rotate v p.retainCount.toNat now
  | rollbackTo n p fresh, s => s.rollbackTo n p.retainCount.toNat fresh

/-- The operation in memory; one that fails leaves the aggregate. -/
def inMemory (s : Secret) (op : VersionOp) : Secret :=
  match op.apply s with
  | .ok s' => s'
  | .error _ => s

/-- The operation on the stored secret: loaded, changed and saved. -/
def onStore (handle : Handle) (st : Store) (op : VersionOp) : Store :=
  match st.getSecretByHandle handle with
  | none => st
  | some s =>
    match op.apply s with
    | .error _ => st
    | .ok s' =>
      match saveSecret st s' with
      | .error _ => st
      | .ok st' => st'

end VersionOp

/-- The operations on the aggregate alone. -/
def runInMemory (s : Secret) (ops : List VersionOp) : Secret := ops.foldl VersionOp.inMemory s

/-- The operations, each on the secret that is loaded and written back. -/
def runOnStore (handle : Handle) (st : Store) (ops : List VersionOp) : Store :=
  ops.foldl (VersionOp.onStore handle) st

/-- The identifiers are drawn anew: distinct, and in no row. -/
structure Drawn (st : Store) (ops : List VersionOp) : Prop where
  distinct : (ops.map (·.versionId)).Nodup
  fresh : ∀ op ∈ ops, op.versionId ∉ st.versions.map (·.id)

/-- The secret is loaded back. -/
def Reloads (st : Store) (s : Secret) : Prop := st.getSecretByHandle s.handle = some (asStored s)

/-- The number of version rows of a secret. -/
def versionRows (st : Store) (id : SecretId) : Nat := (st.versions.filter fun v => v.secretId = id).length

/-- **Storage refines the aggregate**, along a run of operations. -/
structure RetainedAtRest (st : Store) (s : Secret) (ops : List VersionOp) : Prop where
  reloads : ∀ pre, pre <+: ops → Reloads (runOnStore s.handle st pre) (runInMemory s pre)
  bounded : ∀ pre op s', pre ++ [op] <+: ops → op.apply (runInMemory s pre) = .ok s' →
    versionRows (runOnStore s.handle st (pre ++ [op])) s.id ≤ op.policy.retainCount.toNat
  pruned : ∀ pre, pre <+: ops → ∀ n, (∀ v ∈ (runInMemory s pre).versions, v.versionNo ≠ n) →
    ∀ loaded, (runOnStore s.handle st pre).getSecretByHandle s.handle = some loaded →
      ∀ (p : RetentionPolicy) (fresh : Fresh),
        (VersionOp.rollbackTo n p fresh).apply loaded = .error (.targetVersionNotFound n)

/-- No operation that goes through finds as many versions as it retains. -/
def NeverPrunes (s : Secret) (ops : List VersionOp) : Prop :=
  ∀ pre op s', pre ++ [op] <+: ops → op.apply (runInMemory s pre) = .ok s' →
    (runInMemory s pre).versions.length < op.policy.retainCount.toNat

/-! ### One operation -/

/-- Every operation that goes through is a rotation to a version with the drawn identifier. -/
theorem apply_eq_rotate {op : VersionOp} {s s' : Secret} (h : op.apply s = .ok s') :
    ∃ new now, new.id = op.versionId ∧ s.rotate new op.policy.retainCount.toNat now = .ok s' := by
  cases op with
  | rotate v p now => exact ⟨v, now, rfl, h⟩
  | rollbackTo n p fresh =>
    simp only [VersionOp.apply, Secret.rollbackTo] at h
    split at h
    · cases h
    · next target _ => exact ⟨rollbackVersion s target fresh, fresh.now, rfl, h⟩

theorem maxVersionNo_map {f : SecretVersion → SecretVersion} (hf : ∀ v, (f v).versionNo = v.versionNo)
    (vs : List SecretVersion) : maxVersionNo (vs.map f) = maxVersionNo vs := by
  simp only [maxVersionNo, List.foldl_map, hf]

section Apply

variable {s : Secret} (hsorted : s.versions.Pairwise fun a b => a.versionNo ≤ b.versionNo)
  (hnodup : (s.versions.map (·.id)).Nodup)

include hsorted hnodup

/-- A rotation of the stored aggregate is stored like the one of the aggregate. -/
theorem rotate_asStored {n : Nat} (hn : 0 < n) (new : SecretVersion) (now : Rfc3339Timestamp) :
    ((asStored s).rotate new n now).map asStored = (s.rotate new n now).map asStored := by
  have hmax : maxVersionNo (asStored s).versions = maxVersionNo s.versions :=
    maxVersionNo_map (storedVersion_versionNo s.id) s.versions
  have hany : (asStored s).versions.any (fun v => v.id = (asStored s).currentVersionId) =
      s.versions.any fun v => v.id = s.currentVersionId := by
    simp only [asStored, List.any_map]
    rfl
  have hsorted' : (asStored s).versions.Pairwise fun a b => a.versionNo ≤ b.versionNo := by
    rw [asStored, List.pairwise_map]
    exact hsorted
  have hnodup' : ((asStored s).versions.map (·.id)).Nodup := by
    rw [asStored, List.map_map]
    exact hnodup
  cases h : s.rotate new n now with
  | error e =>
    unfold Secret.rotate at h ⊢
    rw [hmax, hany]
    split_ifs at h ⊢
    · rw [← h]
    · rw [← h]
      rfl
  | ok s' =>
    obtain ⟨hlt, hcur, rfl⟩ := rotate_sorted hn hsorted hnodup h
    cases h' : (asStored s).rotate new n now with
    | error e =>
      unfold Secret.rotate at h h'
      rw [hmax, hany] at h'
      split_ifs at h h'
    | ok t =>
      obtain ⟨-, -, rfl⟩ := rotate_sorted hn hsorted' hnodup' h'
      have hrows : ∀ k, ((s.versions.map (storedVersion s.id)).drop k).map
          (storedVersion s.id ∘ retire s.currentVersionId now) =
          (s.versions.drop k).map (storedVersion s.id ∘ retire s.currentVersionId now) := by
        intro k
        rw [← List.map_drop, List.map_map]
        exact List.map_congr_left fun v _ => storedVersion_retire s.id s.currentVersionId now v
      simp only [Except.map, asStored, atMicros_atMicros, List.length_map, List.map_append,
        List.map_map, hrows]

theorem apply_asStored (op : VersionOp) :
    (op.apply (asStored s)).map asStored = (op.apply s).map asStored := by
  cases op with
  | rotate v p now => exact rotate_asStored hsorted hnodup p.valid v now
  | rollbackTo n p fresh =>
    have hfind : (asStored s).versions.find? (fun v => v.versionNo = n) =
        (s.versions.find? fun v => v.versionNo = n).map (storedVersion s.id) := by
      rw [asStored, List.find?_map]
      rfl
    simp only [VersionOp.apply, Secret.rollbackTo, hfind]
    cases s.versions.find? fun v => v.versionNo = n with
    | none => rfl
    | some target =>
      have hmax : maxVersionNo (asStored s).versions = maxVersionNo s.versions :=
        maxVersionNo_map (storedVersion_versionNo s.id) s.versions
      have hnew : rollbackVersion (asStored s) (storedVersion s.id target) fresh =
          rollbackVersion s target fresh := by
        rw [rollbackVersion, hmax]
        rfl
      rw [Option.map_some]
      simp only [hnew]
      exact rotate_asStored hsorted hnodup p.valid _ _

end Apply

/-! ### What is stored -/

theorem secretOf_eq {row : SecretRow} {vs : List SecretVersion} {s : Secret} :
    secretOf row vs = s ↔ row = rowOf s ∧ vs = s.versions := by
  constructor
  · rintro rfl
    exact ⟨rfl, rfl⟩
  · rintro ⟨rfl, rfl⟩
    rfl

theorem reloads_iff {st : Store} {s : Secret} (hk : Keys st) : Reloads st s ↔
    rowOf (asStored s) ∈ st.secrets ∧ st.loadVersionsForSecret s.id = (asStored s).versions := by
  rw [Reloads, Store.getSecretByHandle, Option.map_eq_some_iff]
  simp only [select_iff hk, secretOf_eq]
  constructor
  · rintro ⟨row, ⟨hmem, -⟩, rfl, hload⟩
    exact ⟨hmem, hload⟩
  · rintro ⟨hmem, hload⟩
    exact ⟨_, ⟨hmem, rfl⟩, rfl, hload⟩

theorem Reloads.wellVersioned {st : Store} {s : Secret} (hs : Schema st) (hr : Reloads st s) :
    WellVersioned (asStored s) := by
  obtain ⟨-, hload⟩ := (reloads_iff hs.toKeys).mp hr
  have hnodup := load_nodup hs.versionIds s.id
  have hsorted := load_sorted st s.id
  have hparents : ∀ v ∈ (asStored s).versions, v ∈ st.versions ∧ v.secretId = s.id := by
    intro v hv
    rwa [← hload, mem_load] at hv
  rw [hload] at hnodup hsorted
  refine ⟨?_, hnodup, fun v hv => (hparents v hv).2⟩
  have hne : (asStored s).versions.Pairwise fun a b => a ≠ b := hnodup.of_map _
  refine (hsorted.and hne).imp_of_mem ?_
  rintro a b ha hb ⟨hle, hab⟩
  obtain ⟨hamem, hasid⟩ := hparents a ha
  obtain ⟨hbmem, hbsid⟩ := hparents b hb
  refine UInt32.lt_of_le_of_ne hle fun hno => hab ?_
  exact hs.numbers a hamem b hbmem (hasid.trans hbsid.symm) hno

theorem sorted_of_stored {s : Secret} (hw : WellVersioned (asStored s)) :
    s.versions.Pairwise (fun a b => a.versionNo ≤ b.versionNo) ∧ (s.versions.map (·.id)).Nodup := by
  have hinc := hw.increasing
  have hids := hw.ids
  rw [asStored, List.pairwise_map] at hinc
  rw [asStored, List.map_map] at hids
  exact ⟨hinc.imp UInt32.le_of_lt, hids⟩

theorem onStore_ok {st : Store} {s s' : Secret} {op : VersionOp} (hs : Schema st) (hr : Reloads st s)
    (hop : op.apply s = .ok s') :
    op.onStore s.handle st = match saveSecret st s' with
      | .error _ => st
      | .ok st' => st' := by
  obtain ⟨hsorted, hnodup⟩ := sorted_of_stored (hr.wellVersioned hs)
  have hsame := apply_asStored hsorted hnodup op
  rw [hop] at hsame
  cases ht : op.apply (asStored s) with
  | error e =>
    rw [ht] at hsame
    cases hsame
  | ok t =>
    rw [ht] at hsame
    have hsave : saveSecret st t = saveSecret st s' := by
      rw [saveSecret, saveSecret, Except.ok.inj hsame]
    rw [VersionOp.onStore, hr]
    simp only [ht, hsave]

theorem onStore_error {st : Store} {s : Secret} {op : VersionOp} {e : DomainError} (hs : Schema st)
    (hr : Reloads st s) (hop : op.apply s = .error e) : op.onStore s.handle st = st := by
  obtain ⟨hsorted, hnodup⟩ := sorted_of_stored (hr.wellVersioned hs)
  have hsame := apply_asStored hsorted hnodup op
  rw [hop] at hsame
  cases ht : op.apply (asStored s) with
  | error e' =>
    rw [VersionOp.onStore, hr]
    simp only [ht]
  | ok t =>
    rw [ht] at hsame
    cases hsame

section Step

variable {st : Store} {s s' : Secret} {op : VersionOp}

/-- The identifier is of no stored version. -/
theorem versionId_notMem (hs : Schema st) (hr : Reloads st s)
    (hfresh : op.versionId ∉ st.versions.map (·.id)) : op.versionId ∉ s.versions.map (·.id) := by
  intro hmem
  obtain ⟨v, hv, hid⟩ := List.mem_map.mp hmem
  have hload := ((reloads_iff hs.toKeys).mp hr).2
  have hstored : storedVersion s.id v ∈ st.loadVersionsForSecret s.id := by
    rw [hload]
    exact List.mem_map_of_mem hv
  exact hfresh (List.mem_map.mpr ⟨_, (mem_load.mp hstored).1, hid⟩)

/-- The aggregate after a rotation. -/
def rotated (s : Secret) (policy : RetentionPolicy) (new : SecretVersion) (now : Rfc3339Timestamp) :
    Secret :=
  { s with
    versions := (s.versions.drop (s.versions.length + 1 - policy.retainCount.toNat)).map
      (retire s.currentVersionId now) ++ [new]
    currentVersionId := new.id }

theorem apply_versions (hw : WellVersioned (asStored s)) (hop : op.apply s = .ok s') :
    ∃ new now, new.id = op.versionId ∧ maxVersionNo s.versions < new.versionNo ∧
      (∃ v ∈ s.versions, v.id = s.currentVersionId) ∧
      s' = rotated s op.policy new now := by
  obtain ⟨new, now, hid, hrot⟩ := apply_eq_rotate hop
  obtain ⟨hsorted, hnodup⟩ := sorted_of_stored hw
  exact ⟨new, now, hid, rotate_sorted op.policy.valid hsorted hnodup hrot⟩

theorem apply_wellVersioned (hs : Schema st) (hr : Reloads st s)
    (hfresh : op.versionId ∉ st.versions.map (·.id)) (hop : op.apply s = .ok s') :
    WellVersioned (asStored s') := by
  have hw := hr.wellVersioned hs
  obtain ⟨new, now, hid, hmax, -, rfl⟩ := apply_versions hw hop
  obtain ⟨-, hnodup⟩ := sorted_of_stored hw
  have hnew := versionId_notMem hs hr hfresh
  rw [← hid] at hnew
  have hinc := hw.increasing
  rw [asStored, List.pairwise_map] at hinc
  refine ⟨?_, ?_, ?_⟩
  · rw [asStored, rotated, List.pairwise_map, List.pairwise_append, List.pairwise_map]
    refine ⟨(hinc.sublist (List.drop_sublist _ _)).imp fun h => by simpa using h,
      List.pairwise_singleton _ _, ?_⟩
    intro a ha b hb
    obtain ⟨v, hv, rfl⟩ := List.mem_map.mp ha
    rw [List.mem_singleton.mp hb, storedVersion_versionNo, storedVersion_versionNo, retire_versionNo]
    exact UInt32.lt_of_le_of_lt (le_maxVersionNo (List.mem_of_mem_drop hv)) hmax
  · have hids : ((s.versions.drop (s.versions.length + 1 - op.policy.retainCount.toNat)).map
        (retire s.currentVersionId now)).map (·.id) =
        (s.versions.drop (s.versions.length + 1 - op.policy.retainCount.toNat)).map (·.id) := by
      rw [List.map_map]
      exact List.map_congr_left fun v _ => retire_id _ _ v
    have hsub := (List.drop_sublist (s.versions.length + 1 - op.policy.retainCount.toNat)
      s.versions).map (·.id)
    rw [asStored, List.map_map]
    show (List.map (·.id) (_ ++ [new])).Nodup
    rw [List.map_append, hids, List.map_singleton, ← List.concat_eq_append, List.nodup_concat]
    exact ⟨fun hmem => hnew (hsub.subset hmem), hnodup.sublist hsub⟩
  · intro v hv
    obtain ⟨w, -, rfl⟩ := List.mem_map.mp hv
    rfl

theorem storedVersion_eq_retire (p : SecretId) (id : SecretVersionId) (now : Rfc3339Timestamp)
    (v : SecretVersion) : storedVersion p (retire id now v) =
      { storedVersion p v with
        deprecatedAt := (storedVersion p (retire id now v)).deprecatedAt } := by
  unfold retire
  split_ifs <;> rfl

/-- **The stored rows agree with the new aggregate exactly when nothing is pruned.** -/
theorem agrees_iff (hs : Schema st) (hr : Reloads st s)
    (hfresh : op.versionId ∉ st.versions.map (·.id)) (hop : op.apply s = .ok s') :
    Agrees st (asStored s') ↔ s.versions.length < op.policy.retainCount.toNat := by
  have hw := hr.wellVersioned hs
  obtain ⟨hsorted, hnodup⟩ := sorted_of_stored hw
  obtain ⟨-, hload⟩ := (reloads_iff hs.toKeys).mp hr
  have hstored : ∀ v ∈ s.versions, storedVersion s.id v ∈ st.versions := by
    intro v hv
    have hmem : storedVersion s.id v ∈ st.loadVersionsForSecret s.id := by
      rw [hload]
      exact List.mem_map_of_mem hv
    exact (mem_load.mp hmem).1
  have hpos := op.policy.valid
  obtain ⟨new, now, hid, -, ⟨cur, hcur, -⟩, rfl⟩ := apply_versions hw hop
  rw [← hid] at hfresh
  constructor
  · intro hagree
    -- Each stored version is one of those that are left, so none was dropped.
    have hsub : s.versions.map (·.id) ⊆
        (s.versions.drop (s.versions.length + 1 - op.policy.retainCount.toNat)).map (·.id) := by
      intro id hmem
      obtain ⟨v, hv, rfl⟩ := List.mem_map.mp hmem
      obtain ⟨w, hwmem, he⟩ := hagree _ (hstored v hv) (.inl rfl)
      have hwid : w.id = v.id := by
        rw [he]
        rfl
      obtain ⟨u, hu, rfl⟩ := List.mem_map.mp hwmem
      rcases List.mem_append.mp hu with hu | hu
      · obtain ⟨x, hx, rfl⟩ := List.mem_map.mp hu
        rw [storedVersion_id, retire_id] at hwid
        exact hwid ▸ List.mem_map_of_mem hx
      · rw [List.mem_singleton.mp hu, storedVersion_id] at hwid
        exact absurd (List.mem_map.mpr ⟨_, hstored v hv, hwid.symm⟩) hfresh
    have hlen := (hnodup.subperm hsub).length_le
    have hne : 0 < s.versions.length := List.length_pos_of_mem hcur
    rw [List.length_map, List.length_map, List.length_drop] at hlen
    omega
  · intro hlt r hrmem hway
    have hall : s.versions.length + 1 - op.policy.retainCount.toNat = 0 := by omega
    have hown : ∀ v ∈ s.versions, r = storedVersion s.id v →
        ∃ w ∈ (asStored (rotated s op.policy new now)).versions,
          w = { r with deprecatedAt := w.deprecatedAt } := by
      rintro v hv rfl
      refine ⟨storedVersion s.id (retire s.currentVersionId now v), ?_, storedVersion_eq_retire _ _ _ v⟩
      rw [asStored, rotated, hall, List.drop_zero]
      exact List.mem_map_of_mem (List.mem_append_left _ (List.mem_map_of_mem hv))
    rcases hway with hsid | hrid
    · have hmem : r ∈ st.loadVersionsForSecret s.id := mem_load.mpr ⟨hrmem, hsid⟩
      rw [hload] at hmem
      obtain ⟨v, hv, rfl⟩ := List.mem_map.mp hmem
      exact hown v hv rfl
    · obtain ⟨w, hwmem, hwid⟩ := List.mem_map.mp hrid
      obtain ⟨u, hu, rfl⟩ := List.mem_map.mp hwmem
      rcases List.mem_append.mp hu with hu | hu
      · obtain ⟨v, hv, rfl⟩ := List.mem_map.mp hu
        have hv := List.mem_of_mem_drop hv
        rw [storedVersion_id, retire_id] at hwid
        exact hown v hv (List.inj_on_of_nodup_map hs.versionIds hrmem (hstored v hv) hwid.symm)
      · rw [List.mem_singleton.mp hu, storedVersion_id] at hwid
        exact absurd (List.mem_map.mpr ⟨r, hrmem, hwid.symm⟩) hfresh

/-- The result of an operation can be saved. -/
theorem save_ok (hs : Schema st) (hr : Reloads st s)
    (hfresh : op.versionId ∉ st.versions.map (·.id)) (hop : op.apply s = .ok s') :
    ∃ st', saveSecret st s' = .ok st' := by
  have hw := hr.wellVersioned hs
  obtain ⟨hrow, hload⟩ := (reloads_iff hs.toKeys).mp hr
  obtain ⟨new, now, hid, hmax, -, rfl⟩ := apply_versions hw hop
  have hmax' : maxVersionNo (st.loadVersionsForSecret s.id) < new.versionNo := by
    rw [hload, asStored, maxVersionNo_map (storedVersion_versionNo s.id)]
    exact hmax
  rw [← hid] at hfresh
  have hversions : (asStored (rotated s op.policy new now)).versions =
      ((s.versions.drop (s.versions.length + 1 - op.policy.retainCount.toNat)).map
        (retire s.currentVersionId now)).map (storedVersion s.id) ++ [storedVersion s.id new] :=
    List.map_append
  refine put_extended hs.toKeys hrow rfl rfl hversions ?_ hfresh hmax'
  intro w hw
  obtain ⟨u, hu, rfl⟩ := List.mem_map.mp hw
  obtain ⟨v, hv, rfl⟩ := List.mem_map.mp hu
  rw [storedVersion_id, retire_id]
  have hmem : storedVersion s.id v ∈ st.loadVersionsForSecret s.id := by
    rw [hload]
    exact List.mem_map_of_mem (List.mem_of_mem_drop hv)
  exact List.mem_map.mpr ⟨_, (mem_load.mp hmem).1, rfl⟩

/-- **One operation on the stored secret.** -/
theorem onStore_step (hs : Schema st) (hr : Reloads st s)
    (hfresh : op.versionId ∉ st.versions.map (·.id)) (hop : op.apply s = .ok s') :
    Schema (op.onStore s.handle st) ∧
      (op.onStore s.handle st).versions.map (·.id) ⊆ st.versions.map (·.id) ++ [op.versionId] ∧
      (Reloads (op.onStore s.handle st) s' ↔ s.versions.length < op.policy.retainCount.toNat) := by
  have hw' := apply_wellVersioned hs hr hfresh hop
  obtain ⟨st', hsave⟩ := save_ok hs hr hfresh hop
  rw [onStore_ok hs hr hop, hsave]
  have hschema := Schema.put hs hw' hsave
  refine ⟨hschema, ?_, ?_⟩
  · intro id hmem
    obtain ⟨r, hr', rfl⟩ := List.mem_map.mp hmem
    rw [List.mem_append, List.mem_singleton]
    rcases (mem_put_versions hw'.ids hsave).mp hr' with ⟨v, hv, rfl⟩ | ⟨w, hwmem, hnew, rfl⟩
    · exact .inl (by rw [refresh_id]; exact List.mem_map_of_mem hv)
    · obtain ⟨hrow, hload⟩ := (reloads_iff hs.toKeys).mp hr
      obtain ⟨new, now, hid, -, -, rfl⟩ := apply_versions (hr.wellVersioned hs) hop
      obtain ⟨u, hu, rfl⟩ := List.mem_map.mp hwmem
      rcases List.mem_append.mp hu with hu | hu
      · obtain ⟨v, hv, rfl⟩ := List.mem_map.mp hu
        have hmem : storedVersion s.id v ∈ st.loadVersionsForSecret s.id := by
          rw [hload]
          exact List.mem_map_of_mem (List.mem_of_mem_drop hv)
        rw [storedVersion_id, retire_id] at hnew
        exact absurd (List.mem_map.mpr ⟨_, (mem_load.mp hmem).1, rfl⟩) hnew
      · rw [List.mem_singleton.mp hu]
        exact .inr hid
  · rw [reloads_iff hschema.toKeys, ← agrees_iff hs hr hfresh hop, ← put_loads_iff hs.toKeys hw' hsave]
    have hrow' : rowOf (asStored s') ∈ st'.secrets := by
      obtain ⟨hrow, -⟩ := (reloads_iff hs.toKeys).mp hr
      obtain ⟨row, hfind, -, heq, -⟩ := put_row hs.toKeys hsave
      obtain ⟨new, now, -, -, -, rfl⟩ := apply_versions (hr.wellVersioned hs) hop
      have hold : st.secrets.find? (fun r => r.id = s.id) = some (rowOf (asStored s)) :=
        find?_of_nodup hs.secretIds hrow
      have hsame : row = rowOf (asStored (rotated s op.policy new now)) := by
        rw [heq]
        simp only [show (asStored (rotated s op.policy new now)).id = s.id from rfl, hold]
        rfl
      exact hsame ▸ List.mem_of_find?_eq_some hfind
    exact and_iff_right hrow'

theorem inMemory_ok (hop : op.apply s = .ok s') : op.inMemory s = s' := by
  rw [VersionOp.inMemory, hop]

theorem inMemory_error {e : DomainError} (hop : op.apply s = .error e) : op.inMemory s = s := by
  rw [VersionOp.inMemory, hop]

/-- The operation keeps the identifier and the handle. -/
theorem inMemory_handle (hw : WellVersioned (asStored s)) (op : VersionOp) :
    (op.inMemory s).id = s.id ∧ (op.inMemory s).handle = s.handle := by
  cases hop : op.apply s with
  | error e =>
    rw [inMemory_error hop]
    exact ⟨rfl, rfl⟩
  | ok s' =>
    rw [inMemory_ok hop]
    obtain ⟨new, now, -, -, -, rfl⟩ := apply_versions hw hop
    exact ⟨rfl, rfl⟩

end Step

/-! ### Runs of operations -/

theorem forall_prefix_cons {α : Type} {a : α} {l : List α} {P : List α → Prop} :
    (∀ pre, pre <+: a :: l → P pre) ↔ P [] ∧ ∀ pre, pre <+: l → P (a :: pre) := by
  constructor
  · exact fun h => ⟨h [] List.nil_prefix, fun pre hpre => h _ ((List.prefix_cons_inj a).mpr hpre)⟩
  · rintro ⟨hnil, hcons⟩ pre hpre
    rcases List.prefix_cons_iff.mp hpre with rfl | ⟨t, rfl, ht⟩
    · exact hnil
    · exact hcons t ht

theorem neverPrunes_cons {s : Secret} {op : VersionOp} {ops : List VersionOp} :
    NeverPrunes s (op :: ops) ↔
      (∀ s', op.apply s = .ok s' → s.versions.length < op.policy.retainCount.toNat) ∧
        NeverPrunes (op.inMemory s) ops := by
  constructor
  · intro h
    refine ⟨fun s' hop => h [] op s' (by simp) hop, ?_⟩
    intro pre op' s' hpre hop
    exact h (op :: pre) op' s' ((List.prefix_cons_inj op).mpr hpre) hop
  · rintro ⟨hop, hops⟩ pre op' s' hpre happly
    cases pre with
    | nil =>
      obtain ⟨rfl, -⟩ := List.cons_prefix_cons.mp hpre
      exact hop s' happly
    | cons a pre =>
      obtain ⟨rfl, hrest⟩ := List.cons_prefix_cons.mp hpre
      exact hops pre op' s' hrest happly

/-- The drawn identifiers after one operation. -/
theorem Drawn.tail {st st' : Store} {op : VersionOp} {ops : List VersionOp} (hd : Drawn st (op :: ops))
    (hsub : st'.versions.map (·.id) ⊆ st.versions.map (·.id) ++ [op.versionId]) : Drawn st' ops := by
  have hdistinct := hd.distinct
  rw [List.map_cons, List.nodup_cons] at hdistinct
  refine ⟨hdistinct.2, fun op' hop' hmem => ?_⟩
  rcases List.mem_append.mp (hsub hmem) with hold | hnew
  · exact hd.fresh op' (List.mem_cons_of_mem _ hop') hold
  · rw [List.mem_singleton] at hnew
    exact hdistinct.1 (hnew ▸ List.mem_map_of_mem hop')

/-- Both runs go on from a step that leaves them together. -/
theorem reloads_step {st : Store} {s : Secret} {op : VersionOp} {ops : List VersionOp}
    (hs : Schema st) (hr : Reloads st s) (hd : Drawn st (op :: ops)) :
    Schema (op.onStore s.handle st) ∧ Drawn (op.onStore s.handle st) ops ∧
      (Reloads (op.onStore s.handle st) (op.inMemory s) ↔
        ∀ s', op.apply s = .ok s' → s.versions.length < op.policy.retainCount.toNat) := by
  cases hop : op.apply s with
  | error e =>
    rw [onStore_error hs hr hop, inMemory_error hop]
    exact ⟨hs, hd.tail (List.subset_append_left _ _), iff_of_true hr fun _ h => nomatch h⟩
  | ok s' =>
    obtain ⟨hschema, hsub, hiff⟩ := onStore_step hs hr (hd.fresh op List.mem_cons_self) hop
    rw [inMemory_ok hop, hiff]
    exact ⟨hschema, hd.tail hsub, fun h _ _ => h, fun h => h s' rfl⟩

/-- The runs stay together exactly as long as nothing is pruned. -/
theorem reloads_run_iff : ∀ {ops : List VersionOp} {st : Store} {s : Secret}, Schema st →
    Reloads st s → Drawn st ops →
      ((∀ pre, pre <+: ops → Reloads (runOnStore s.handle st pre) (runInMemory s pre)) ↔
        NeverPrunes s ops) := by
  intro ops
  induction ops with
  | nil =>
    intro st s hs hr hd
    refine iff_of_true ?_ ?_
    · intro pre hpre
      rw [List.prefix_nil.mp hpre]
      exact hr
    · intro pre op s' hpre
      exact absurd (List.prefix_nil.mp hpre) (by simp)
  | cons op ops ih =>
    intro st s hs hr hd
    obtain ⟨hschema, hdrawn, hstep⟩ := reloads_step hs hr hd
    obtain ⟨-, hhandle⟩ := inMemory_handle (hr.wellVersioned hs) op
    rw [forall_prefix_cons, neverPrunes_cons, ← hstep]
    have hrest : ∀ h : Reloads (op.onStore s.handle st) (op.inMemory s),
        (∀ pre, pre <+: ops → Reloads (runOnStore s.handle st (op :: pre))
          (runInMemory s (op :: pre))) ↔ NeverPrunes (op.inMemory s) ops := by
      intro h
      have := ih hschema h hdrawn
      rwa [hhandle] at this
    constructor
    · rintro ⟨-, hpre⟩
      have h := hpre [] List.nil_prefix
      exact ⟨h, (hrest h).mp hpre⟩
    · rintro ⟨h, hprunes⟩
      exact ⟨hr, (hrest h).mpr hprunes⟩

/-- The schema along a run that prunes nothing. -/
theorem schema_run : ∀ {ops : List VersionOp} {st : Store} {s : Secret}, Schema st →
    Reloads st s → Drawn st ops → NeverPrunes s ops →
      ∀ pre, pre <+: ops → Schema (runOnStore s.handle st pre) ∧ (runInMemory s pre).id = s.id ∧
        (runInMemory s pre).handle = s.handle := by
  intro ops
  induction ops with
  | nil =>
    intro st s hs hr hd _ pre hpre
    rw [List.prefix_nil.mp hpre]
    exact ⟨hs, rfl, rfl⟩
  | cons op ops ih =>
    intro st s hs hr hd hprunes
    obtain ⟨hschema, hdrawn, hstep⟩ := reloads_step hs hr hd
    obtain ⟨hid, hhandle⟩ := inMemory_handle (hr.wellVersioned hs) op
    rw [neverPrunes_cons, ← hstep] at hprunes
    rw [forall_prefix_cons]
    refine ⟨⟨hs, rfl, rfl⟩, fun pre hpre => ?_⟩
    obtain ⟨h₁, h₂, h₃⟩ := ih hschema hprunes.1 hdrawn hprunes.2 pre hpre
    rw [hhandle] at h₁ h₃
    exact ⟨h₁, h₂.trans hid, h₃⟩

theorem apply_length {s s' : Secret} {op : VersionOp} (hw : WellVersioned (asStored s))
    (hop : op.apply s = .ok s') : s'.versions.length ≤ op.policy.retainCount.toNat := by
  obtain ⟨new, now, -, -, -, rfl⟩ := apply_versions hw hop
  have hpos := op.policy.valid
  simp only [rotated, List.length_append, List.length_map, List.length_drop, List.length_singleton]
  omega

/-- **Storage refines the aggregate exactly when no operation of the run prunes.** -/
theorem retained_at_rest_iff (st : Store) (s : Secret) (ops : List VersionOp) (hs : Schema st)
    (hr : Reloads st s) (hd : Drawn st ops) : RetainedAtRest st s ops ↔ NeverPrunes s ops := by
  refine ⟨fun h => (reloads_run_iff hs hr hd).mp h.reloads, fun h => ?_⟩
  have hreloads := (reloads_run_iff hs hr hd).mpr h
  have hschema := schema_run hs hr hd h
  refine ⟨hreloads, ?_, ?_⟩
  · intro pre op s' hpre hop
    have hrun : runInMemory s (pre ++ [op]) = s' := by
      rw [runInMemory, List.foldl_append]
      exact inMemory_ok hop
    have hw := (hreloads pre ((List.prefix_append pre [op]).trans hpre)).wellVersioned
      (hschema pre ((List.prefix_append pre [op]).trans hpre)).1
    obtain ⟨hschema', hid, -⟩ := hschema _ hpre
    obtain ⟨-, hload⟩ := (reloads_iff hschema'.toKeys).mp (hreloads _ hpre)
    rw [hid] at hload
    have hrows := (List.mergeSort_perm ((runOnStore s.handle st (pre ++ [op])).versions.filter
      fun v => v.secretId = s.id) fun a b => a.versionNo ≤ b.versionNo).length_eq
    calc versionRows (runOnStore s.handle st (pre ++ [op])) s.id
        = ((runOnStore s.handle st (pre ++ [op])).loadVersionsForSecret s.id).length := hrows.symm
      _ = s'.versions.length := by rw [hload, hrun, asStored, List.length_map]
      _ ≤ op.policy.retainCount.toNat := apply_length hw hop
  · intro pre hpre n hn loaded hload p fresh
    have hget := hreloads pre hpre
    rw [Reloads, (hschema pre hpre).2.2, hload] at hget
    obtain rfl := Option.some.inj hget
    have hnone : (asStored (runInMemory s pre)).versions.find? (fun v => v.versionNo = n) = none := by
      rw [List.find?_eq_none]
      intro v hv
      obtain ⟨w, hw, rfl⟩ := List.mem_map.mp hv
      simp [hn w hw]
    simp only [VersionOp.apply, Secret.rollbackTo, hnone]

/-! ### A secret with three versions -/

/-- The epoch. -/
def sampleTime : Rfc3339Timestamp := .ofSeconds 0

/-- Version number `n` of the sample secret. -/
def sampleNumber (n : UInt8) (deprecatedAt : Option Rfc3339Timestamp) : SecretVersion where
  id := ⟨Vector.replicate 16 n⟩
  secretId := ⟨Vector.replicate 16 0xa0⟩
  versionNo := n.toUInt32
  blob := ⟨[n], Vector.replicate 24 0, Vector.replicate 16 0, []⟩
  dekVersion := 1
  createdAt := sampleTime
  deprecatedAt := deprecatedAt

/-- A secret with three versions. -/
def sampleThree : Secret where
  id := ⟨Vector.replicate 16 0xa0⟩
  namespaceId := ⟨Vector.replicate 16 0xb0⟩
  handle := ⟨sampleLabel, .database, sampleSecretName⟩
  category := .database
  sensitivity := .low
  tags := []
  publicMetadata := ⟨none, false⟩
  createdAt := sampleTime
  versions := [sampleNumber 1 (some sampleTime), sampleNumber 2 (some sampleTime), sampleNumber 3 none]
  currentVersionId := ⟨Vector.replicate 16 3⟩

/-- The tables with it. -/
def sampleThreeStore : Store := { Store.empty with
  secrets := [rowOf sampleThree]
  versions := sampleThree.versions }

/-- A rotation to version 4 that retains `n` versions. -/
def sampleRotation (policy : RetentionPolicy) : VersionOp :=
  .rotate (sampleNumber 4 none) policy sampleTime

theorem sampleThree_schema : Schema sampleThreeStore :=
  ⟨⟨by decide, by decide, by decide⟩, by decide⟩

theorem sampleThree_reloads : Reloads sampleThreeStore sampleThree := by
  refine (reloads_iff sampleThree_schema.toKeys).mpr ⟨by decide, ?_⟩
  have hfilter : (sampleThreeStore.versions.filter fun v => v.secretId = sampleThree.id) =
      sampleThree.versions := rfl
  rw [Store.loadVersionsForSecret, hfilter, List.mergeSort_of_pairwise (by decide)]
  rfl

theorem sampleThree_drawn (policy : RetentionPolicy) :
    Drawn sampleThreeStore [sampleRotation policy] := by
  refine ⟨by simp, ?_⟩
  intro op hop
  rw [List.mem_singleton.mp hop]
  show (sampleNumber 4 none).id ∉ _
  decide

/-- With room for a fourth version the two runs agree. -/
theorem fourth_version_retained : Schema sampleThreeStore ∧ Reloads sampleThreeStore sampleThree ∧
    Drawn sampleThreeStore [sampleRotation ⟨4, by decide⟩] ∧
    (RetainedAtRest sampleThreeStore sampleThree [sampleRotation ⟨4, by decide⟩] ↔
      NeverPrunes sampleThree [sampleRotation ⟨4, by decide⟩]) ∧
    NeverPrunes sampleThree [sampleRotation ⟨4, by decide⟩] := by
  refine ⟨sampleThree_schema, sampleThree_reloads, sampleThree_drawn _,
    retained_at_rest_iff _ _ _ sampleThree_schema sampleThree_reloads (sampleThree_drawn _), ?_⟩
  rw [neverPrunes_cons]
  exact ⟨fun _ _ => by decide, fun pre op s' hpre => absurd (List.prefix_nil.mp hpre) (by simp)⟩

/-- A rotation at the default count of three: the first version is pruned, and loaded again. -/
theorem pruned_version_reloaded : Schema sampleThreeStore ∧ Reloads sampleThreeStore sampleThree ∧
    Drawn sampleThreeStore [sampleRotation ⟨3, by decide⟩] ∧
    ¬RetainedAtRest sampleThreeStore sampleThree [sampleRotation ⟨3, by decide⟩] := by
  refine ⟨sampleThree_schema, sampleThree_reloads, sampleThree_drawn _, fun h => ?_⟩
  have hprunes := (reloads_run_iff sampleThree_schema sampleThree_reloads (sampleThree_drawn _)).mp
    h.reloads
  obtain ⟨s', hs'⟩ : ∃ s', (sampleRotation ⟨3, by decide⟩).apply sampleThree = .ok s' := ⟨_, rfl⟩
  exact absurd ((neverPrunes_cons.mp hprunes).1 s' hs') (by decide)

end MerkleVault.Sqlite.Retention
