import MerkleVault.Sqlite.Tables

/-! # Stored Versions under Rotation

What the transaction of `put_secret` does to the rows of `secret_versions`, and what a rotation of a
loaded secret leaves in storage: the new version is added, and the row that `current_version_id`
names is deprecated if it is one of the two newest, since the aggregate keeps three versions and only
these are written back.

* `upsertVersions_ok`: the rows after a `put_secret`;
* `rotate_ok`: the aggregate after a rotation;
* `rotated_versions`: the rows after the rotation of a loaded secret is put. -/

namespace MerkleVault.Sqlite.Versions

open MerkleVault.Types MerkleVault.Secrets.Aggregate MerkleVault.Sqlite.Tables

/-- The row with a given key. -/
theorem find?_of_nodup {α κ : Type} [DecidableEq κ] {key : α → κ} {rows : List α}
    (h : (rows.map key).Nodup) {a : α} (ha : a ∈ rows) :
    rows.find? (fun r => key r = key a) = some a := by
  obtain ⟨b, hb⟩ : ∃ b, rows.find? (fun r => key r = key a) = some b := by
    rw [← Option.isSome_iff_exists, List.find?_isSome]
    exact ⟨a, ha, by simp⟩
  have hkey : key b = key a := by simpa using List.find?_some hb
  rw [hb, List.inj_on_of_nodup_map h (List.mem_of_find?_eq_some hb) ha hkey]

/-! ### Upserts -/

/-- A row after the upserts of the given versions: `deprecated_at` of the one with its identifier. -/
def refresh (ws : List SecretVersion) (r : SecretVersion) : SecretVersion :=
  match ws.find? fun w => w.id = r.id with
  | some w => { r with deprecatedAt := w.deprecatedAt }
  | none => r

/-- The versions that no row has the identifier of, under their parent. -/
def added (parentId : SecretId) (vs ws : List SecretVersion) : List SecretVersion :=
  (ws.filter fun w => !vs.any fun r => r.id = w.id).map fun w => { w with secretId := parentId }

@[simp] theorem refresh_id (ws : List SecretVersion) (r : SecretVersion) :
    (refresh ws r).id = r.id := by
  unfold refresh
  split <;> rfl

@[simp] theorem refresh_secretId (ws : List SecretVersion) (r : SecretVersion) :
    (refresh ws r).secretId = r.secretId := by
  unfold refresh
  split <;> rfl

@[simp] theorem refresh_versionNo (ws : List SecretVersion) (r : SecretVersion) :
    (refresh ws r).versionNo = r.versionNo := by
  unfold refresh
  split <;> rfl

theorem refresh_of_notMem {ws : List SecretVersion} {r : SecretVersion}
    (h : r.id ∉ ws.map (·.id)) : refresh ws r = r := by
  unfold refresh
  rw [List.find?_eq_none.mpr]
  intro w hw
  have hne : w.id ≠ r.id := fun he => h (List.mem_map.mpr ⟨w, hw, he⟩)
  simpa using hne

theorem refresh_cons_eq {w r : SecretVersion} {ws : List SecretVersion} (h : w.id = r.id) :
    refresh (w :: ws) r = { r with deprecatedAt := w.deprecatedAt } := by
  simp [refresh, h]

theorem refresh_cons_ne {w r : SecretVersion} {ws : List SecretVersion} (h : w.id ≠ r.id) :
    refresh (w :: ws) r = refresh ws r := by
  simp [refresh, h]

@[simp] theorem refresh_nil (r : SecretVersion) : refresh [] r = r := rfl

theorem refresh_refresh {w : SecretVersion} {ws : List SecretVersion} (h : w.id ∉ ws.map (·.id))
    (r : SecretVersion) : refresh ws (refresh [w] r) = refresh (w :: ws) r := by
  by_cases hr : w.id = r.id
  · rw [refresh_of_notMem, refresh_cons_eq hr, refresh_cons_eq hr]
    rwa [refresh_id, ← hr]
  · rw [refresh_cons_ne hr, refresh_cons_ne hr, refresh_nil]

theorem map_refresh_ids (ws vs : List SecretVersion) :
    (vs.map (refresh ws)).map (·.id) = vs.map (·.id) := by
  rw [List.map_map]
  exact List.map_congr_left fun r _ => refresh_id ws r

/-- One upsert: the row with the identifier is refreshed, or the version is added under a number
that its parent does not have yet. -/
theorem upsertVersion_ok {parentId : SecretId} {vs vs' : List SecretVersion} {w : SecretVersion}
    (h : upsertVersionWithParent parentId vs w = .ok vs') :
    (w.id ∈ vs.map (·.id) ∧ vs' = vs.map (refresh [w])) ∨
      (w.id ∉ vs.map (·.id) ∧ (∀ r ∈ vs, r.secretId = parentId → r.versionNo ≠ w.versionNo) ∧
        vs' = vs ++ [{ w with secretId := parentId }]) := by
  unfold upsertVersionWithParent at h
  split_ifs at h with hid hno
  · refine .inl ⟨by simpa using hid, ?_⟩
    rw [← Except.ok.inj h]
    refine List.map_congr_left fun r _ => ?_
    split_ifs with hr
    · rw [refresh_cons_eq hr.symm]
    · rw [refresh_cons_ne (Ne.symm hr), refresh_nil]
  · refine .inr ⟨?_, ?_, (Except.ok.inj h).symm⟩
    · simpa using hid
    · intro r hr hs hn
      refine hno (List.any_eq_true.mpr ⟨r, hr, ?_⟩)
      simp [hs, hn]

theorem added_cons {parentId : SecretId} {vs ws : List SecretVersion} {w : SecretVersion} :
    added parentId vs (w :: ws) = (if w.id ∈ vs.map (·.id) then [] else
      [{ w with secretId := parentId }]) ++ added parentId vs ws := by
  unfold added
  rw [List.filter_cons]
  by_cases h : w.id ∈ vs.map (·.id)
  · have hany : vs.any (fun r => r.id = w.id) = true := by simpa using h
    simp [h, hany]
  · have hany : vs.any (fun r => r.id = w.id) = false := by simpa using h
    simp [h, hany]

theorem added_congr {parentId : SecretId} {vs vs' ws : List SecretVersion}
    (h : ∀ w ∈ ws, (w.id ∈ vs'.map (·.id) ↔ w.id ∈ vs.map (·.id))) :
    added parentId vs' ws = added parentId vs ws := by
  unfold added
  congr 1
  refine List.filter_congr fun w hw => ?_
  have hany : ∀ l : List SecretVersion, l.any (fun r => r.id = w.id) = decide (w.id ∈ l.map (·.id)) := by
    intro l
    rw [Bool.eq_iff_iff]
    simp
  rw [hany, hany, decide_eq_decide.mpr (h w hw)]

/-- **The rows after the upserts of distinct versions**: each row refreshed, the others added. -/
theorem upsertVersions_ok {parentId : SecretId} : ∀ {ws vs vs' : List SecretVersion},
    (ws.map (·.id)).Nodup → ws.foldlM (upsertVersionWithParent parentId) vs = .ok vs' →
      vs' = vs.map (refresh ws) ++ added parentId vs ws ∧
        ∀ w ∈ ws, w.id ∉ vs.map (·.id) → ∀ r ∈ vs, r.secretId = parentId → r.versionNo ≠ w.versionNo
  | [], vs, vs', _, h => by
    obtain rfl := Except.ok.inj h
    exact ⟨by simp [added, List.map_id'' refresh_nil], nofun⟩
  | w :: ws, vs, vs', hnodup, h => by
    rw [List.map_cons, List.nodup_cons] at hnodup
    obtain ⟨hw, hws⟩ := hnodup
    rw [List.foldlM_cons] at h
    cases h₁ : upsertVersionWithParent parentId vs w with
    | error e =>
      rw [h₁] at h
      cases h
    | ok vs₁ =>
      rw [h₁] at h
      obtain ⟨hvs', hnew⟩ := upsertVersions_ok hws h
      rcases upsertVersion_ok h₁ with ⟨hmem, rfl⟩ | ⟨hmem, hno, rfl⟩
      · have hadd : added parentId (vs.map (refresh [w])) ws = added parentId vs ws :=
          added_congr fun v _ => by rw [map_refresh_ids]
        refine ⟨?_, ?_⟩
        · rw [hvs', hadd, added_cons, if_pos hmem, List.nil_append, List.map_map]
          congr 1
          exact List.map_congr_left fun r _ => refresh_refresh hw r
        · intro v hv hvid r hr hs
          rcases List.mem_cons.mp hv with rfl | hv
          · exact absurd hmem hvid
          · rw [← map_refresh_ids [w]] at hvid
            have hno := hnew v hv hvid _ (List.mem_map.mpr ⟨r, hr, rfl⟩)
            rw [refresh_secretId, refresh_versionNo] at hno
            exact hno hs
      · refine ⟨?_, ?_⟩
        · rw [hvs', added_cons, if_neg hmem, List.map_append, List.append_assoc]
          congr 1
          · refine List.map_congr_left fun r hr => ?_
            have hne : w.id ≠ r.id := fun he => hmem (List.mem_map.mpr ⟨r, hr, he.symm⟩)
            rw [refresh_cons_ne hne]
          · rw [List.map_singleton, refresh_of_notMem (r := { w with secretId := parentId }) hw]
            congr 1
            refine added_congr fun v hv => ?_
            have hne : v.id ≠ w.id := fun he => hw (List.mem_map.mpr ⟨v, hv, he⟩)
            simp [hne]
        · intro v hv hvid r hr hs
          rcases List.mem_cons.mp hv with rfl | hv
          · exact hno r hr hs
          · have hne : v.id ≠ w.id := fun he => hw (List.mem_map.mpr ⟨v, hv, he⟩)
            refine hnew v hv ?_ r (List.mem_append_left _ hr) hs
            simpa [hne] using hvid

/-- The columns of a version that upserts leave alone. -/
def columns (v : SecretVersion) : SecretVersionId × SecretId × UInt32 := (v.id, v.secretId, v.versionNo)

theorem map_id_of_columns {vs vs' : List SecretVersion} (h : vs'.map columns = vs.map columns) :
    vs'.map (·.id) = vs.map (·.id) := by
  have hfst := congrArg (List.map Prod.fst) h
  rwa [List.map_map, List.map_map] at hfst

/-- Upserts of stored versions go through. -/
theorem upsertVersions_stored (parentId : SecretId) : ∀ {ws vs : List SecretVersion},
    (∀ w ∈ ws, w.id ∈ vs.map (·.id)) → ∃ vs',
      ws.foldlM (upsertVersionWithParent parentId) vs = .ok vs' ∧ vs'.map columns = vs.map columns
  | [], vs, _ => ⟨vs, rfl, rfl⟩
  | w :: ws, vs, h => by
    have hany : vs.any (fun r => r.id = w.id) = true := by
      simpa using h w List.mem_cons_self
    have hstep : upsertVersionWithParent parentId vs w = .ok (vs.map fun r =>
        if r.id = w.id then { r with deprecatedAt := w.deprecatedAt } else r) := by
      rw [upsertVersionWithParent, if_pos hany]
    have hcols : (vs.map fun r => if r.id = w.id then { r with deprecatedAt := w.deprecatedAt }
        else r).map columns = vs.map columns := by
      rw [List.map_map]
      refine List.map_congr_left fun r _ => ?_
      rw [Function.comp_apply]
      split_ifs <;> rfl
    have hrest : ∀ v ∈ ws, v.id ∈ (vs.map fun r =>
        if r.id = w.id then { r with deprecatedAt := w.deprecatedAt } else r).map (·.id) := by
      intro v hv
      rw [map_id_of_columns hcols]
      exact h v (List.mem_cons_of_mem _ hv)
    obtain ⟨vs', hvs', hcols'⟩ := upsertVersions_stored parentId hrest
    refine ⟨vs', ?_, hcols'.trans hcols⟩
    rw [List.foldlM_cons, hstep]
    exact hvs'

theorem refresh_of_mem {ws : List SecretVersion} (hws : (ws.map (·.id)).Nodup) {w r : SecretVersion}
    (hw : w ∈ ws) (h : w.id = r.id) : refresh ws r = { r with deprecatedAt := w.deprecatedAt } := by
  unfold refresh
  rw [← h, find?_of_nodup hws hw]

/-! ### Loading -/

theorem mem_load {st : Store} {id : SecretId} {v : SecretVersion} :
    v ∈ st.loadVersionsForSecret id ↔ v ∈ st.versions ∧ v.secretId = id := by
  simp [Store.loadVersionsForSecret]

theorem load_sorted (st : Store) (id : SecretId) :
    (st.loadVersionsForSecret id).Pairwise fun a b => a.versionNo ≤ b.versionNo := by
  have h : (st.loadVersionsForSecret id).Pairwise
      fun a b => decide (a.versionNo ≤ b.versionNo) = true := by
    refine List.pairwise_mergeSort (fun a b c => ?_) (fun a b => ?_) _
    · simpa using UInt32.le_trans
    · simpa using UInt32.le_total a.versionNo b.versionNo
  exact h.imp fun hle => by simpa using hle

theorem load_nodup {st : Store} (h : (st.versions.map (·.id)).Nodup) (id : SecretId) :
    ((st.loadVersionsForSecret id).map (·.id)).Nodup := by
  have hperm := (List.mergeSort_perm (st.versions.filter fun v => v.secretId = id)
    fun a b => a.versionNo ≤ b.versionNo).map (·.id)
  rw [Store.loadVersionsForSecret, hperm.nodup_iff]
  exact h.sublist (List.filter_sublist.map _)

theorem load_ids_subset {st : Store} (id : SecretId) :
    (st.loadVersionsForSecret id).map (·.id) ⊆ st.versions.map (·.id) :=
  List.map_subset _ fun _ hv => (mem_load.mp hv).1

/-! ### Rotation of the aggregate -/

theorem le_max_versionNo (a b : UInt32) : a ≤ max a b ∧ b ≤ max a b := by
  show (a ≤ if a ≤ b then b else a) ∧ (b ≤ if a ≤ b then b else a)
  split_ifs with h
  · exact ⟨h, UInt32.le_refl b⟩
  · exact ⟨UInt32.le_refl a, (UInt32.le_total b a).resolve_right h⟩

theorem le_maxVersionNo {v : SecretVersion} {vs : List SecretVersion} (h : v ∈ vs) :
    v.versionNo ≤ maxVersionNo vs := by
  have hfold : ∀ (vs : List SecretVersion) (m : UInt32),
      m ≤ vs.foldl (fun m v => max m v.versionNo) m ∧
        ∀ v ∈ vs, v.versionNo ≤ vs.foldl (fun m v => max m v.versionNo) m := by
    intro vs
    induction vs with
    | nil => exact fun m => ⟨UInt32.le_refl m, nofun⟩
    | cons w vs ih =>
      intro m
      obtain ⟨hm, hvs⟩ := ih (max m w.versionNo)
      refine ⟨UInt32.le_trans (le_max_versionNo _ _).1 hm, fun v hv => ?_⟩
      rcases List.mem_cons.mp hv with rfl | hv
      · exact UInt32.le_trans (le_max_versionNo _ _).2 hm
      · exact hvs v hv
  exact (hfold vs 0).2 v h

/-- A version after its deprecation, when it is the one named. -/
def retire (id : SecretVersionId) (now : Rfc3339Timestamp) (v : SecretVersion) : SecretVersion :=
  if v.id = id then setDeprecated now v else v

@[simp] theorem retire_id (id : SecretVersionId) (now : Rfc3339Timestamp) (v : SecretVersion) :
    (retire id now v).id = v.id := by
  unfold retire
  split_ifs <;> rfl

@[simp] theorem retire_versionNo (id : SecretVersionId) (now : Rfc3339Timestamp)
    (v : SecretVersion) : (retire id now v).versionNo = v.versionNo := by
  unfold retire
  split_ifs <;> rfl

theorem deprecateFirst_eq (id : SecretVersionId) (now : Rfc3339Timestamp) :
    ∀ {vs : List SecretVersion}, (vs.map (·.id)).Nodup →
      deprecateFirst id now vs = vs.map (retire id now)
  | [], _ => rfl
  | v :: vs, h => by
    rw [List.map_cons, List.nodup_cons] at h
    rw [deprecateFirst, List.map_cons]
    split_ifs with hv
    · have hsame : ∀ w ∈ vs, retire id now w = w := by
        intro w hw
        have hne : w.id ≠ id := fun he => h.1 (List.mem_map.mpr ⟨w, hw, he.trans hv.symm⟩)
        rw [retire, if_neg hne]
      rw [List.map_congr_left hsame, List.map_id'', retire, if_pos hv]
      exact fun _ => rfl
    · rw [deprecateFirst_eq id now h.2, retire, if_neg hv]

/-- The versions of a loaded secret that a rotation writes back: the two newest. -/
def kept (vs : List SecretVersion) : List SecretVersion := vs.drop (vs.length - 2)

theorem kept_sublist (vs : List SecretVersion) : (kept vs).Sublist vs := List.drop_sublist _ _

/-- A stored version after a rotation that read the given versions. -/
def rewritten (vs : List SecretVersion) (id : SecretVersionId) (now : Rfc3339Timestamp)
    (r : SecretVersion) : SecretVersion :=
  if r ∈ kept vs then retire id now r else r

theorem rewritten_eq (vs : List SecretVersion) (id : SecretVersionId) (now : Rfc3339Timestamp)
    (r : SecretVersion) :
    rewritten vs id now r = { r with deprecatedAt := (rewritten vs id now r).deprecatedAt } := by
  unfold rewritten retire
  split_ifs <;> rfl

@[simp] theorem rewritten_id (vs : List SecretVersion) (id : SecretVersionId)
    (now : Rfc3339Timestamp) (r : SecretVersion) : (rewritten vs id now r).id = r.id := by
  rw [rewritten_eq]

@[simp] theorem rewritten_secretId (vs : List SecretVersion) (id : SecretVersionId)
    (now : Rfc3339Timestamp) (r : SecretVersion) :
    (rewritten vs id now r).secretId = r.secretId := by
  rw [rewritten_eq]

@[simp] theorem rewritten_versionNo (vs : List SecretVersion) (id : SecretVersionId)
    (now : Rfc3339Timestamp) (r : SecretVersion) :
    (rewritten vs id now r).versionNo = r.versionNo := by
  rw [rewritten_eq]

/-- Retention of versions in the order of their numbers. -/
theorem retentionApply_sorted {n : Nat} (hn : 0 < n) {vs : List SecretVersion} {v : SecretVersion}
    (h : (vs ++ [v]).Pairwise fun a b => a.versionNo ≤ b.versionNo) :
    retentionApply n (vs ++ [v]) = vs.drop (vs.length + 1 - n) ++ [v] := by
  unfold retentionApply
  rw [List.length_append, List.length_singleton]
  split_ifs with hlen
  · rw [show vs.length + 1 - n = 0 by omega, List.drop_zero]
  · rw [List.mergeSort_of_pairwise (h.imp fun hle => by simpa using hle),
      List.drop_append_of_le_length (by omega)]

/-- **The aggregate after a rotation**, for any retention count. -/
theorem rotate_sorted {n : Nat} (hn : 0 < n) {s s' : Secret} {new : SecretVersion}
    {now : Rfc3339Timestamp} (hsorted : s.versions.Pairwise fun a b => a.versionNo ≤ b.versionNo)
    (hnodup : (s.versions.map (·.id)).Nodup) (h : s.rotate new n now = .ok s') :
    maxVersionNo s.versions < new.versionNo ∧ (∃ v ∈ s.versions, v.id = s.currentVersionId) ∧
      s' = { s with
        versions := (s.versions.drop (s.versions.length + 1 - n)).map
          (retire s.currentVersionId now) ++ [new]
        currentVersionId := new.id } := by
  unfold Secret.rotate at h
  split_ifs at h with hmax hcur
  have hlt : maxVersionNo s.versions < new.versionNo := UInt32.not_le.mp hmax
  have hord : (s.versions.map (retire s.currentVersionId now) ++ [new]).Pairwise
      fun a b => a.versionNo ≤ b.versionNo := by
    refine List.pairwise_append.mpr ⟨?_, List.pairwise_singleton _ _, ?_⟩
    · rw [List.pairwise_map]
      exact hsorted.imp fun hle => by simpa using hle
    · intro a ha b hb
      obtain ⟨v, hv, rfl⟩ := List.mem_map.mp ha
      rw [List.mem_singleton.mp hb, retire_versionNo]
      exact UInt32.le_trans (le_maxVersionNo hv) (UInt32.le_of_lt hlt)
  refine ⟨hlt, by simpa using hcur, ?_⟩
  rw [← Except.ok.inj h, deprecateFirst_eq _ _ hnodup, retentionApply_sorted hn hord]
  simp only [List.length_map, List.map_drop]

/-- The aggregate after a rotation of the commands. -/
theorem rotate_ok {s s' : Secret} {new : SecretVersion} {now : Rfc3339Timestamp}
    (hsorted : s.versions.Pairwise fun a b => a.versionNo ≤ b.versionNo)
    (hnodup : (s.versions.map (·.id)).Nodup) (h : s.rotate new retainCount now = .ok s') :
    maxVersionNo s.versions < new.versionNo ∧ (∃ v ∈ s.versions, v.id = s.currentVersionId) ∧
      s' = { s with
        versions := (kept s.versions).map (retire s.currentVersionId now) ++ [new]
        currentVersionId := new.id } := by
  obtain ⟨hmax, hcur, rfl⟩ := rotate_sorted (by decide) hsorted hnodup h
  have htwo : s.versions.length + 1 - retainCount = s.versions.length - 2 := by
    rw [retainCount]
    omega
  exact ⟨hmax, hcur, by rw [htwo, kept]⟩

/-- The versions that a rotation writes have distinct identifiers. -/
theorem written_nodup (id : SecretVersionId) (now : Rfc3339Timestamp) {vs : List SecretVersion}
    {new : SecretVersion} (hvs : (vs.map (·.id)).Nodup) (hnew : new.id ∉ vs.map (·.id)) :
    (((kept vs).map (retire id now) ++ [new]).map (·.id)).Nodup := by
  have hids : ((kept vs).map (retire id now)).map (·.id) = (kept vs).map (·.id) := by
    rw [List.map_map]
    exact List.map_congr_left fun v _ => retire_id _ _ v
  rw [List.map_append, hids, List.map_singleton, ← List.concat_eq_append, List.nodup_concat]
  have hsub := (kept_sublist vs).map (·.id)
  exact ⟨fun hmem => hnew (hsub.subset hmem), hvs.sublist hsub⟩

/-- The new version is the current one of the rotated aggregate. -/
theorem currentVersion_rotate {s s' : Secret} {new : SecretVersion} {now : Rfc3339Timestamp}
    (hsorted : s.versions.Pairwise fun a b => a.versionNo ≤ b.versionNo)
    (hnodup : (s.versions.map (·.id)).Nodup) (hnew : new.id ∉ s.versions.map (·.id))
    (h : s.rotate new retainCount now = .ok s') : s'.currentVersion = some new := by
  obtain ⟨-, -, rfl⟩ := rotate_ok hsorted hnodup h
  exact find?_of_nodup (written_nodup _ _ hnodup hnew) (by simp)

/-! ### The store after a rotation -/

/-- The keys of the schema: primary keys and unique columns. -/
structure Keys (st : Store) : Prop where
  secretIds : (st.secrets.map (·.id)).Nodup
  handles : (st.secrets.map (·.handle)).Nodup
  versionIds : (st.versions.map (·.id)).Nodup

theorem select_iff {st : Store} (hk : Keys st) {handle : Handle} {row : SecretRow} :
    st.selectSecretRow handle = some row ↔ row ∈ st.secrets ∧ row.handle = handle := by
  constructor
  · intro h
    exact ⟨List.mem_of_find?_eq_some h, by simpa using List.find?_some h⟩
  · rintro ⟨hmem, rfl⟩
    exact find?_of_nodup hk.handles hmem

/-- The row after a rotation. -/
def rotatedRow (row : SecretRow) (new : SecretVersion) : SecretRow :=
  { row with currentVersionId := new.id }

/-- The loaded secret of a row. -/
def loaded (st : Store) (row : SecretRow) : Secret := secretOf row (st.loadVersionsForSecret row.id)

/-- What is loaded depends on the two tables only. -/
theorem select_congr {st st' : Store} (h : st'.secrets = st.secrets) (handle : Handle) :
    st'.selectSecretRow handle = st.selectSecretRow handle := by
  rw [Store.selectSecretRow, h]
  rfl

theorem loaded_congr {st st' : Store} (h : st'.versions = st.versions) (row : SecretRow) :
    loaded st' row = loaded st row := by
  rw [loaded, Store.loadVersionsForSecret, h]
  rfl

section Rotation

variable {st st' : Store} {row : SecretRow} {new : SecretVersion} {now : Rfc3339Timestamp}
  {s' : Secret}

/-- What a rotation of a loaded secret writes. -/
theorem rotate_loaded (hk : Keys st) (h : (loaded st row).rotate new retainCount now = .ok s') :
    maxVersionNo (st.loadVersionsForSecret row.id) < new.versionNo ∧
      (∃ v ∈ st.loadVersionsForSecret row.id, v.id = row.currentVersionId) ∧
      s' = secretOf (rotatedRow row new)
        ((kept (st.loadVersionsForSecret row.id)).map (retire row.currentVersionId now) ++ [new]) :=
  rotate_ok (load_sorted st row.id) (load_nodup hk.versionIds row.id) h

/-- **The version rows after a rotation is put**: the current version is deprecated if it is one of
the two newest, and the new one is added. -/
theorem rotated_versions (hk : Keys st) (hnew : new.id ∉ st.versions.map (·.id))
    (hrot : (loaded st row).rotate new retainCount now = .ok s') (hput : st.putSecret s' = .ok st') :
    st'.versions = st.versions.map (rewritten (st.loadVersionsForSecret row.id) row.currentVersionId
      now) ++ [{ new with secretId := row.id }] := by
  obtain ⟨-, -, rfl⟩ := rotate_loaded hk hrot
  obtain ⟨st₁, vs, -, hvs, rfl⟩ := putSecret_ok hput
  have hnodup := written_nodup row.currentVersionId now (load_nodup hk.versionIds row.id)
    fun hmem => hnew (load_ids_subset row.id hmem)
  obtain ⟨rfl, -⟩ := upsertVersions_ok hnodup hvs
  have hinj := List.inj_on_of_nodup_map hk.versionIds
  refine congrArg₂ (· ++ ·) ?_ ?_
  · refine List.map_congr_left fun r hr => ?_
    unfold rewritten
    split_ifs with hkept
    · rw [refresh_of_mem (w := retire row.currentVersionId now r) hnodup
        (List.mem_append_left _ (List.mem_map_of_mem hkept)) (retire_id _ _ r)]
      unfold retire
      split_ifs <;> rfl
    · refine refresh_of_notMem fun hmem => ?_
      obtain ⟨w, hw, hid⟩ := List.mem_map.mp hmem
      rcases List.mem_append.mp hw with hw | hw
      · obtain ⟨v, hv, rfl⟩ := List.mem_map.mp hw
        have hstored := (mem_load.mp ((kept_sublist _).subset hv)).1
        rw [retire_id] at hid
        exact hkept (hinj hstored hr hid ▸ hv)
      · rw [List.mem_singleton.mp hw] at hid
        exact hnew (List.mem_map.mpr ⟨r, hr, hid.symm⟩)
  · unfold added
    rw [List.filter_append, List.map_append]
    have hold : ((kept (st.loadVersionsForSecret row.id)).map (retire row.currentVersionId now)).filter
        (fun w => !st.versions.any fun r => r.id = w.id) = [] := by
      refine List.filter_eq_nil_iff.mpr fun w hw => ?_
      obtain ⟨v, hv, rfl⟩ := List.mem_map.mp hw
      have hstored := (mem_load.mp ((kept_sublist _).subset hv)).1
      simpa using ⟨v, hstored, rfl⟩
    have hfresh : [new].filter (fun w => !st.versions.any fun r => r.id = w.id) = [new] := by
      have hany : st.versions.any (fun r => r.id = new.id) = false := by simpa using hnew
      simp [hany]
    rw [hold, hfresh]
    rfl

/-- **The row after a rotation is put.** -/
theorem rotated_secrets (hk : Keys st) (hrow : row ∈ st.secrets)
    (hrot : (loaded st row).rotate new retainCount now = .ok s') (hput : st.putSecret s' = .ok st') :
    st'.secrets = st.secrets.map fun r => if r.id = row.id then rotatedRow row new else r := by
  obtain ⟨-, -, rfl⟩ := rotate_loaded hk hrot
  obtain ⟨st₁, vs, hst₁, -, rfl⟩ := putSecret_ok hput
  unfold upsertSecretRow at hst₁
  split_ifs at hst₁ with hhandle hid
  · obtain rfl := Except.ok.inj hst₁
    refine List.map_congr_left fun r hr => ?_
    show (if r.id = row.id then updateRow r _ else r) = _
    split_ifs with hr'
    · obtain rfl := List.inj_on_of_nodup_map hk.secretIds hr hrow hr'
      rfl
    · rfl
  · exact absurd (List.any_eq_true.mpr ⟨row, hrow, by simp [secretOf, rotatedRow]⟩) hid

/-- The row of a stored secret is updated. -/
theorem upsertSecretRow_stored (hk : Keys st) (hrow : row ∈ st.secrets) (secret : Secret)
    (hid : secret.id = row.id) (hhandle : secret.handle = row.handle) :
    ∃ st₁, upsertSecretRow st secret = .ok st₁ ∧ st₁.versions = st.versions := by
  have hother : ¬st.secrets.any (fun r => r.id ≠ secret.id && r.handle = secret.handle) = true := by
    rw [List.any_eq_true]
    rintro ⟨r, hr, hcontra⟩
    obtain ⟨hne, heq⟩ : r.id ≠ secret.id ∧ r.handle = secret.handle := by simpa using hcontra
    have hr' := List.inj_on_of_nodup_map hk.handles hr hrow (heq.trans hhandle)
    exact hne (by rw [hr', hid])
  have hsame : st.secrets.any (fun r => r.id = secret.id) = true :=
    List.any_eq_true.mpr ⟨row, hrow, by simp [hid]⟩
  have hok : upsertSecretRow st secret = .ok { st with
      secrets := st.secrets.map fun r => if r.id = secret.id then updateRow r secret else r } := by
    rw [upsertSecretRow, if_neg hother, if_pos hsame]
  exact ⟨_, hok, rfl⟩

/-- A version with a new identifier and a number beyond those of its parent is added. -/
theorem upsertVersion_new {vs : List SecretVersion} (hcols : vs.map columns = st.versions.map columns)
    (hnew : new.id ∉ st.versions.map (·.id))
    (hmax : maxVersionNo (st.loadVersionsForSecret row.id) < new.versionNo) :
    upsertVersionWithParent row.id vs new = .ok (vs ++ [{ new with secretId := row.id }]) := by
  have hid : ¬vs.any (fun r => r.id = new.id) = true := by
    rw [← map_id_of_columns hcols] at hnew
    simpa using hnew
  have hno : ¬vs.any (fun r => r.secretId = row.id && r.versionNo = new.versionNo) = true := by
    rw [List.any_eq_true]
    rintro ⟨r, hr, hcontra⟩
    obtain ⟨hsid, hvno⟩ : r.secretId = row.id ∧ r.versionNo = new.versionNo := by simpa using hcontra
    have hmem : columns r ∈ vs.map columns := List.mem_map_of_mem hr
    rw [hcols, List.mem_map] at hmem
    obtain ⟨v, hv, hcol⟩ := hmem
    obtain ⟨-, hsid', hvno'⟩ : v.id = r.id ∧ v.secretId = r.secretId ∧ v.versionNo = r.versionNo := by
      simpa [columns] using hcol
    have hle := le_maxVersionNo (mem_load.mpr ⟨hv, hsid'.trans hsid⟩)
    rw [hvno', hvno] at hle
    exact UInt32.not_lt.mpr hle hmax
  rw [upsertVersionWithParent, if_neg hid, if_neg hno]

/-- A stored secret whose versions are stored but for the last one, which is new, can be put. -/
theorem put_extended (hk : Keys st) (hrow : row ∈ st.secrets) {secret : Secret}
    {ws : List SecretVersion} (hid : secret.id = row.id) (hhandle : secret.handle = row.handle)
    (hversions : secret.versions = ws ++ [new]) (hstored : ∀ w ∈ ws, w.id ∈ st.versions.map (·.id))
    (hnew : new.id ∉ st.versions.map (·.id))
    (hmax : maxVersionNo (st.loadVersionsForSecret row.id) < new.versionNo) :
    ∃ st', st.putSecret secret = .ok st' := by
  obtain ⟨vs, hvs, hcols⟩ := upsertVersions_stored row.id hstored
  obtain ⟨st₁, hst₁, hv₁⟩ := upsertSecretRow_stored hk hrow secret hid hhandle
  have hlast := upsertVersion_new hcols hnew hmax
  refine ⟨{ st₁ with versions := vs ++ [{ new with secretId := row.id }] }, ?_⟩
  unfold Store.putSecret
  rw [hst₁, hid, hversions]
  show ((ws ++ [new]).foldlM (upsertVersionWithParent row.id) st₁.versions >>= _) = _
  rw [hv₁, List.foldlM_append, hvs]
  show ([new].foldlM (upsertVersionWithParent row.id) vs >>= _) = _
  rw [List.foldlM_cons, hlast]
  rfl

/-- The rotation of a loaded secret to a version with a new identifier can be put. -/
theorem rotated_put (hk : Keys st) (hrow : row ∈ st.secrets) (hnew : new.id ∉ st.versions.map (·.id))
    (hrot : (loaded st row).rotate new retainCount now = .ok s') :
    ∃ st', st.putSecret s' = .ok st' := by
  obtain ⟨hmax, -, rfl⟩ := rotate_loaded hk hrot
  refine put_extended hk hrow rfl rfl rfl ?_ hnew hmax
  intro w hw
  obtain ⟨v, hv, rfl⟩ := List.mem_map.mp hw
  rw [retire_id]
  exact List.mem_map_of_mem (mem_load.mp ((kept_sublist _).subset hv)).1

/-- A version row after the rotation. -/
theorem mem_rotated_versions (hk : Keys st) (hnew : new.id ∉ st.versions.map (·.id))
    (hrot : (loaded st row).rotate new retainCount now = .ok s') (hput : st.putSecret s' = .ok st')
    {w : SecretVersion} : w ∈ st'.versions ↔ w = { new with secretId := row.id } ∨
      ∃ r ∈ st.versions, w = rewritten (st.loadVersionsForSecret row.id) row.currentVersionId now r := by
  rw [rotated_versions hk hnew hrot hput, List.mem_append, List.mem_map, List.mem_singleton]
  constructor
  · rintro (⟨r, hr, rfl⟩ | rfl)
    · exact .inr ⟨r, hr, rfl⟩
    · exact .inl rfl
  · rintro (rfl | ⟨r, hr, rfl⟩)
    · exact .inr rfl
    · exact .inl ⟨r, hr, rfl⟩

theorem Keys.rotated (hk : Keys st) (hrow : row ∈ st.secrets)
    (hnew : new.id ∉ st.versions.map (·.id))
    (hrot : (loaded st row).rotate new retainCount now = .ok s')
    (hput : st.putSecret s' = .ok st') : Keys st' := by
  have hinj := List.inj_on_of_nodup_map hk.secretIds
  have hrows : ∀ {β : Type} (f : SecretRow → β), f (rotatedRow row new) = f row →
      st'.secrets.map f = st.secrets.map f := by
    intro β f hf
    rw [rotated_secrets hk hrow hrot hput, List.map_map]
    refine List.map_congr_left fun r hr => ?_
    simp only [Function.comp]
    split_ifs with hid
    · rw [hf, hinj hr hrow hid]
    · rfl
  refine ⟨?_, ?_, ?_⟩
  · rw [hrows (·.id) rfl]
    exact hk.secretIds
  · rw [hrows (·.handle) rfl]
    exact hk.handles
  · rw [rotated_versions hk hnew hrot hput, List.map_append, List.map_map, List.map_singleton,
      ← List.concat_eq_append, List.nodup_concat]
    have hids : st.versions.map ((·.id) ∘ rewritten (st.loadVersionsForSecret row.id)
        row.currentVersionId now) = st.versions.map (·.id) :=
      List.map_congr_left fun r _ => rewritten_id _ _ _ r
    rw [hids]
    exact ⟨hnew, hk.versionIds⟩

theorem select_rotated (hk : Keys st) {handle : Handle} (hrow : st.selectSecretRow handle = some row)
    (hnew : new.id ∉ st.versions.map (·.id))
    (hrot : (loaded st row).rotate new retainCount now = .ok s')
    (hput : st.putSecret s' = .ok st') :
    st'.selectSecretRow handle = some (rotatedRow row new) := by
  obtain ⟨hmem, hhandle⟩ := (select_iff hk).mp hrow
  refine (select_iff (hk.rotated hmem hnew hrot hput)).mpr ⟨?_, hhandle⟩
  rw [rotated_secrets hk hmem hrot hput]
  exact List.mem_map.mpr ⟨row, hmem, if_pos rfl⟩

end Rotation

/-! ### The current version -/

/-- The version is the only active one of the secret, the one that its row names, and the newest. -/
structure IsCurrent (st : Store) (row : SecretRow) (v : SecretVersion) : Prop where
  stored : v ∈ st.versions
  parent : v.secretId = row.id
  named : v.id = row.currentVersionId
  active : v.isActive = true
  newest : ∀ w ∈ st.versions, w.secretId = row.id → w ≠ v →
    w.isActive = false ∧ w.versionNo < v.versionNo

theorem retire_inactive {id : SecretVersionId} {now : Rfc3339Timestamp} {v : SecretVersion}
    (h : v.isActive = false ∨ v.id = id) : (retire id now v).isActive = false := by
  unfold retire
  split_ifs with hid
  · rfl
  · exact h.resolve_right hid

theorem rewritten_inactive {vs : List SecretVersion} {id : SecretVersionId}
    {now : Rfc3339Timestamp} {r : SecretVersion} (h : r.isActive = false) :
    (rewritten vs id now r).isActive = false := by
  unfold rewritten
  split_ifs
  · exact retire_inactive (.inl h)
  · exact h

/-- The newest version is among those written back. -/
theorem IsCurrent.mem_kept {st : Store} {row : SecretRow} {v : SecretVersion}
    (h : IsCurrent st row v) : v ∈ kept (st.loadVersionsForSecret row.id) := by
  have hmem : v ∈ st.loadVersionsForSecret row.id := mem_load.mpr ⟨h.stored, h.parent⟩
  obtain ⟨vs, w, hvs⟩ : ∃ vs w, st.loadVersionsForSecret row.id = vs ++ [w] :=
    ⟨_, _, (List.dropLast_append_getLast (List.ne_nil_of_mem hmem)).symm⟩
  have hw : w ∈ st.loadVersionsForSecret row.id := by simp [hvs]
  have hle : v.versionNo ≤ w.versionNo := by
    have hsorted := load_sorted st row.id
    rw [hvs] at hsorted hmem
    rcases List.mem_append.mp hmem with hv | hv
    · exact (List.pairwise_append.mp hsorted).2.2 v hv w (List.mem_singleton_self w)
    · rw [List.mem_singleton.mp hv]
      exact UInt32.le_refl _
  obtain rfl : w = v := by
    by_contra hne
    have hlt := (h.newest w (mem_load.mp hw).1 (mem_load.mp hw).2 hne).2
    exact UInt32.not_lt.mpr hle hlt
  rw [hvs, kept, List.length_append, List.length_singleton,
    List.drop_append_of_le_length (by omega)]
  exact List.mem_append_right _ (List.mem_singleton_self w)

/-- **A rotation makes the new version the current one** when the version that the row names is the
only active one and is written back. -/
theorem isCurrent_rotated {st st' : Store} {row : SecretRow} {v new : SecretVersion}
    {now : Rfc3339Timestamp} {s' : Secret} (hk : Keys st) (hnamed : v.id = row.currentVersionId)
    (hkept : v ∈ kept (st.loadVersionsForSecret row.id))
    (honly : ∀ w ∈ st.versions, w.secretId = row.id → w ≠ v → w.isActive = false)
    (hnew : new.id ∉ st.versions.map (·.id)) (hactive : new.isActive = true)
    (hrot : (loaded st row).rotate new retainCount now = .ok s')
    (hput : st.putSecret s' = .ok st') :
    IsCurrent st' (rotatedRow row new) { new with secretId := row.id } := by
  have hmax := (rotate_loaded hk hrot).1
  refine ⟨(mem_rotated_versions hk hnew hrot hput).mpr (.inl rfl), rfl, rfl, hactive, ?_⟩
  intro w hw hparent hne
  rcases (mem_rotated_versions hk hnew hrot hput).mp hw with rfl | ⟨r, hr, rfl⟩
  · exact absurd rfl hne
  · have hr' : r.secretId = row.id := (rewritten_secretId _ _ _ r).symm.trans hparent
    have hlt : r.versionNo < new.versionNo :=
      UInt32.lt_of_le_of_lt (le_maxVersionNo (mem_load.mpr ⟨hr, hr'⟩)) hmax
    refine ⟨?_, by rwa [rewritten_versionNo]⟩
    by_cases hv : r = v
    · subst hv
      rw [rewritten, if_pos hkept]
      exact retire_inactive (.inr hnamed)
    · exact rewritten_inactive (honly r hr hr' hv)

theorem IsCurrent.rotated {st st' : Store} {row : SecretRow} {v new : SecretVersion}
    {now : Rfc3339Timestamp} {s' : Secret} (h : IsCurrent st row v) (hk : Keys st)
    (hnew : new.id ∉ st.versions.map (·.id)) (hactive : new.isActive = true)
    (hrot : (loaded st row).rotate new retainCount now = .ok s')
    (hput : st.putSecret s' = .ok st') :
    IsCurrent st' (rotatedRow row new) { new with secretId := row.id } :=
  isCurrent_rotated hk h.named h.mem_kept (fun w hw hparent hne => (h.newest w hw hparent hne).1)
    hnew hactive hrot hput

/-- The version that a reveal of the loaded secret picks. -/
theorem IsCurrent.activeVersion {st : Store} {row : SecretRow} {v : SecretVersion}
    (h : IsCurrent st row v) : (loaded st row).activeVersion = some v := by
  obtain ⟨w, hw⟩ : ∃ w, (loaded st row).activeVersion = some w := by
    rw [← Option.isSome_iff_exists, Secret.activeVersion, List.find?_isSome]
    exact ⟨v, mem_load.mpr ⟨h.stored, h.parent⟩, h.active⟩
  have hmem := mem_load.mp (List.mem_of_find?_eq_some hw)
  have hact : w.isActive = true := List.find?_some hw
  obtain rfl : w = v := by
    by_contra hne
    rw [(h.newest w hmem.1 hmem.2 hne).1] at hact
    cases hact
  exact hw

/-! ### Other secrets, new secrets and deletions -/

/-- A version of another secret is not written back. -/
theorem rewritten_of_other {st : Store} {row : SecretRow} {now : Rfc3339Timestamp}
    {r : SecretVersion} (h : r.secretId ≠ row.id) :
    rewritten (st.loadVersionsForSecret row.id) row.currentVersionId now r = r := by
  rw [rewritten, if_neg]
  intro hmem
  exact h (mem_load.mp ((kept_sublist _).subset hmem)).2

/-- A rotation leaves the current version of every other secret. -/
theorem IsCurrent.rotated_other {st st' : Store} {row other : SecretRow} {v new : SecretVersion}
    {now : Rfc3339Timestamp} {s' : Secret} (h : IsCurrent st other v) (hne : other.id ≠ row.id)
    (hk : Keys st) (hnew : new.id ∉ st.versions.map (·.id))
    (hrot : (loaded st row).rotate new retainCount now = .ok s')
    (hput : st.putSecret s' = .ok st') : IsCurrent st' other v := by
  have hmem := fun w => mem_rotated_versions hk hnew hrot hput (w := w)
  have hv : v.secretId ≠ row.id := by rwa [h.parent]
  refine ⟨(hmem v).mpr (.inr ⟨v, h.stored, (rewritten_of_other hv).symm⟩), h.parent, h.named, h.active,
    ?_⟩
  intro w hw hparent hwv
  rcases (hmem w).mp hw with rfl | ⟨r, hr, rfl⟩
  · exact absurd hparent.symm hne
  · rw [rewritten_secretId] at hparent
    have hr' : r.secretId ≠ row.id := by rwa [hparent]
    rw [rewritten_of_other hr'] at hwv ⊢
    exact h.newest r hr hparent hwv

/-- The store after a secret with a new identifier and one new version is put. -/
theorem put_new {st st' : Store} {secret : Secret} {v : SecretVersion}
    (hid : secret.id ∉ st.secrets.map (·.id)) (hv : v.id ∉ st.versions.map (·.id))
    (hversions : secret.versions = [v]) (h : st.putSecret secret = .ok st') :
    secret.handle ∉ st.secrets.map (·.handle) ∧ st'.secrets = st.secrets ++ [rowOf secret] ∧
      st'.versions = st.versions ++ [{ v with secretId := secret.id }] := by
  obtain ⟨st₁, vs, hst₁, hvs, rfl⟩ := putSecret_ok h
  rw [hversions] at hvs
  obtain ⟨rfl, -⟩ := upsertVersions_ok (by simp) hvs
  have hadded : st.versions.map (refresh [v]) ++ added secret.id st.versions [v] =
      st.versions ++ [{ v with secretId := secret.id }] := by
    rw [added_cons, if_neg hv]
    refine congrArg₂ (· ++ ·) ?_ rfl
    have hsame : ∀ r ∈ st.versions, refresh [v] r = r := by
      intro r hr
      refine refresh_of_notMem fun hmem => hv ?_
      rw [List.map_singleton, List.mem_singleton] at hmem
      exact List.mem_map.mpr ⟨r, hr, hmem⟩
    rw [List.map_congr_left hsame, List.map_id'']
    exact fun _ => rfl
  rw [hadded]
  unfold upsertSecretRow at hst₁
  split_ifs at hst₁ with hhandle hany hns
  · exact absurd (by simpa using hany) hid
  · obtain rfl := Except.ok.inj hst₁
    refine ⟨fun hmem => hhandle ?_, rfl, rfl⟩
    obtain ⟨r, hr, he⟩ := List.mem_map.mp hmem
    have hne : r.id ≠ secret.id := fun he' => hid (List.mem_map.mpr ⟨r, hr, he'⟩)
    exact List.any_eq_true.mpr ⟨r, hr, by simp [hne, he]⟩

theorem nodup_concat_map {α κ : Type} {key : α → κ} {rows : List α} {a : α}
    (h : (rows.map key).Nodup) (ha : key a ∉ rows.map key) : ((rows ++ [a]).map key).Nodup := by
  rw [List.map_append, List.map_singleton, ← List.concat_eq_append, List.nodup_concat]
  exact ⟨ha, h⟩

section New

variable {st st' : Store} {secret : Secret} {v : SecretVersion}

theorem Keys.put_new (hk : Keys st) (hid : secret.id ∉ st.secrets.map (·.id))
    (hv : v.id ∉ st.versions.map (·.id)) (hversions : secret.versions = [v])
    (h : st.putSecret secret = .ok st') : Keys st' := by
  obtain ⟨hhandle, hsecrets, hvs⟩ := Versions.put_new hid hv hversions h
  refine ⟨?_, ?_, ?_⟩
  · rw [hsecrets]
    exact nodup_concat_map hk.secretIds hid
  · rw [hsecrets]
    exact nodup_concat_map hk.handles hhandle
  · rw [hvs]
    exact nodup_concat_map hk.versionIds hv

/-- The only version of a new secret is the current one. -/
theorem isCurrent_put_new (hid : secret.id ∉ st.secrets.map (·.id))
    (hv : v.id ∉ st.versions.map (·.id)) (hversions : secret.versions = [v])
    (horphan : ∀ w ∈ st.versions, w.secretId ≠ secret.id) (hactive : v.isActive = true)
    (hcurrent : secret.currentVersionId = v.id) (h : st.putSecret secret = .ok st') :
    IsCurrent st' (rowOf secret) { v with secretId := secret.id } := by
  obtain ⟨-, -, hvs⟩ := put_new hid hv hversions h
  refine ⟨?_, rfl, hcurrent.symm, hactive, ?_⟩
  · rw [hvs]
    simp
  · intro w hw hparent hne
    rw [hvs] at hw
    rcases List.mem_append.mp hw with hw | hw
    · exact absurd hparent (horphan w hw)
    · exact absurd (List.mem_singleton.mp hw) hne

theorem IsCurrent.put_new_other {row : SecretRow} {w : SecretVersion} (hcur : IsCurrent st row w)
    (hne : row.id ≠ secret.id) (hid : secret.id ∉ st.secrets.map (·.id))
    (hv : v.id ∉ st.versions.map (·.id)) (hversions : secret.versions = [v])
    (h : st.putSecret secret = .ok st') : IsCurrent st' row w := by
  obtain ⟨-, -, hvs⟩ := put_new hid hv hversions h
  refine ⟨?_, hcur.parent, hcur.named, hcur.active, ?_⟩
  · rw [hvs]
    exact List.mem_append_left _ hcur.stored
  · intro u hu hparent
    rw [hvs] at hu
    rcases List.mem_append.mp hu with hu | hu
    · exact hcur.newest u hu hparent
    · rw [List.mem_singleton.mp hu] at hparent
      exact absurd hparent.symm hne

end New

theorem deleteSecret_ok {st st' : Store} {id : SecretId} (h : st.deleteSecret id = .ok st') :
    st' = { st with
      secrets := st.secrets.filter fun r => r.id ≠ id
      versions := st.versions.filter fun v => v.secretId ≠ id } := by
  unfold Store.deleteSecret at h
  split_ifs at h
  exact (Except.ok.inj h).symm

theorem Keys.deleted {st st' : Store} {id : SecretId} (hk : Keys st)
    (h : st.deleteSecret id = .ok st') : Keys st' := by
  obtain rfl := deleteSecret_ok h
  exact ⟨hk.secretIds.sublist (List.filter_sublist.map _), hk.handles.sublist (List.filter_sublist.map _),
    hk.versionIds.sublist (List.filter_sublist.map _)⟩

theorem IsCurrent.deleted {st st' : Store} {row : SecretRow} {v : SecretVersion} {id : SecretId}
    (hcur : IsCurrent st row v) (hne : row.id ≠ id) (h : st.deleteSecret id = .ok st') :
    IsCurrent st' row v := by
  obtain rfl := deleteSecret_ok h
  refine ⟨List.mem_filter.mpr ⟨hcur.stored, ?_⟩, hcur.parent, hcur.named, hcur.active, ?_⟩
  · rw [hcur.parent]
    simpa using hne
  · exact fun w hw => hcur.newest w (List.mem_filter.mp hw).1

end MerkleVault.Sqlite.Versions
