import MerkleVault.Sqlite.Versions

/-! # What is Loaded after a Secret is Put

`put_secret` inserts the versions that are new, updates `deprecated_at` of the ones that are stored
and removes none.  So a secret is loaded back as it was put exactly when every stored row that is in
its way, by its parent or by its identifier, is one of its versions up to `deprecated_at`.

* `Schema.put`: the unique columns stay unique;
* `put_row`: the row of the secret;
* `put_loads_iff`: when the versions are loaded back;
* `puts_loads_iff`, `puts_select`: the same for several secrets put one after the other. -/

namespace MerkleVault.Sqlite.Reload

open MerkleVault.Types MerkleVault.Secrets.Aggregate MerkleVault.Sqlite.Tables
open MerkleVault.Sqlite.Versions

/-- The keys of the schema with `UNIQUE (secret_id, version_no)`. -/
structure Schema (st : Store) : Prop extends Keys st where
  numbers : ∀ r ∈ st.versions, ∀ r' ∈ st.versions, r.secretId = r'.secretId →
    r.versionNo = r'.versionNo → r = r'

/-- Versions in the order of their numbers, under their secret. -/
structure WellVersioned (s : Secret) : Prop where
  increasing : s.versions.Pairwise fun a b => a.versionNo < b.versionNo
  ids : (s.versions.map (·.id)).Nodup
  parents : ∀ v ∈ s.versions, v.secretId = s.id

variable {st st' : Store} {s : Secret}

theorem nodup_of_increasing {vs : List SecretVersion}
    (h : vs.Pairwise fun a b => a.versionNo < b.versionNo) : (vs.map (·.versionNo)).Nodup := by
  rw [List.Nodup, List.pairwise_map]
  exact h.imp UInt32.ne_of_lt

/-! ### The rows -/

theorem put_versions (hids : (s.versions.map (·.id)).Nodup) (hput : st.putSecret s = .ok st') :
    st'.versions = st.versions.map (refresh s.versions) ++ added s.id st.versions s.versions := by
  obtain ⟨st₁, vs, -, hvs, rfl⟩ := putSecret_ok hput
  exact (upsertVersions_ok hids hvs).1

theorem mem_added {parentId : SecretId} {vs ws : List SecretVersion} {r : SecretVersion} :
    r ∈ added parentId vs ws ↔
      ∃ w ∈ ws, w.id ∉ vs.map (·.id) ∧ r = { w with secretId := parentId } := by
  simp only [added, List.mem_map, List.mem_filter, Bool.not_eq_true', List.any_eq_false,
    decide_eq_true_eq]
  constructor
  · rintro ⟨w, ⟨hw, hnew⟩, rfl⟩
    refine ⟨w, hw, ?_, rfl⟩
    rintro ⟨r, hr, hid⟩
    exact hnew r hr hid
  · rintro ⟨w, hw, hnew, rfl⟩
    exact ⟨w, ⟨hw, fun r hr hid => hnew ⟨r, hr, hid⟩⟩, rfl⟩

theorem mem_put_versions (hids : (s.versions.map (·.id)).Nodup) (hput : st.putSecret s = .ok st')
    {r : SecretVersion} : r ∈ st'.versions ↔ (∃ v ∈ st.versions, r = refresh s.versions v) ∨
      ∃ w ∈ s.versions, w.id ∉ st.versions.map (·.id) ∧ r = { w with secretId := s.id } := by
  rw [put_versions hids hput, List.mem_append, List.mem_map, mem_added]
  simp only [eq_comm]

theorem put_versionIds (hids : (s.versions.map (·.id)).Nodup) (hk : Keys st)
    (hput : st.putSecret s = .ok st') : (st'.versions.map (·.id)).Nodup := by
  have hadded : (added s.id st.versions s.versions).map (·.id) =
      (s.versions.filter fun w => !st.versions.any fun r => r.id = w.id).map (·.id) := by
    rw [added, List.map_map]
    rfl
  rw [put_versions hids hput, List.map_append, map_refresh_ids, List.nodup_append, hadded]
  refine ⟨hk.versionIds, hids.sublist (List.filter_sublist.map _), ?_⟩
  rintro a ha b hb rfl
  rw [← hadded] at hb
  obtain ⟨r, hr, rfl⟩ := List.mem_map.mp hb
  obtain ⟨w, -, hnew, rfl⟩ := mem_added.mp hr
  exact hnew ha

/-- The row of a secret that is put: the stored one updated, or a new one. -/
theorem put_row (hk : Keys st) (hput : st.putSecret s = .ok st') :
    ∃ row, st'.secrets.find? (fun r => r.id = s.id) = some row ∧ row.handle = s.handle ∧
      row = (match st.secrets.find? fun r => r.id = s.id with
        | some old => updateRow old s
        | none => rowOf s) ∧
      ∀ r, r.id ≠ s.id → (r ∈ st'.secrets ↔ r ∈ st.secrets) := by
  obtain ⟨st₁, vs, hrow, -, rfl⟩ := putSecret_ok hput
  unfold upsertSecretRow at hrow
  split_ifs at hrow with hhandle hid hns
  · obtain rfl := Except.ok.inj hrow
    obtain ⟨old, hold, hsame⟩ : ∃ r ∈ st.secrets, r.id = s.id := by simpa using hid
    have hfind : st.secrets.find? (fun r => r.id = s.id) = some old := by
      rw [← hsame]
      exact find?_of_nodup hk.secretIds hold
    refine ⟨updateRow old s, ?_, rfl, by rw [hfind], ?_⟩
    · rw [List.find?_map]
      have hcomp : ((fun r : SecretRow => decide (r.id = s.id)) ∘
          fun r => if r.id = s.id then updateRow r s else r) = fun r => decide (r.id = s.id) := by
        funext r
        simp only [Function.comp]
        split_ifs with hr
        · rfl
        · rfl
      rw [hcomp, hfind, Option.map_some, if_pos hsame]
    · intro r hr
      simp only [List.mem_map]
      constructor
      · rintro ⟨r', hr', he⟩
        split_ifs at he with h
        · rw [← he] at hr
          exact absurd h hr
        · exact he ▸ hr'
      · exact fun hr' => ⟨r, hr', if_neg hr⟩
  · obtain rfl := Except.ok.inj hrow
    have hnone : st.secrets.find? (fun r => r.id = s.id) = none := by
      rw [List.find?_eq_none]
      simpa using hid
    refine ⟨rowOf s, ?_, rfl, by rw [hnone], ?_⟩
    · rw [List.find?_append, hnone]
      simp [rowOf]
    · intro r hr
      simp only [List.mem_append, List.mem_singleton]
      refine ⟨fun h => h.resolve_right ?_, .inl⟩
      rintro rfl
      exact hr rfl

theorem put_secretIds (hk : Keys st) (hput : st.putSecret s = .ok st') :
    (st'.secrets.map (·.id)).Nodup := by
  obtain ⟨st₁, vs, hrow, -, rfl⟩ := putSecret_ok hput
  unfold upsertSecretRow at hrow
  split_ifs at hrow with hhandle hid hns
  · obtain rfl := Except.ok.inj hrow
    have hsame : (st.secrets.map fun r => if r.id = s.id then updateRow r s else r).map (·.id) =
        st.secrets.map (·.id) := by
      rw [List.map_map]
      refine List.map_congr_left fun r _ => ?_
      simp only [Function.comp]
      split_ifs <;> rfl
    exact hsame ▸ hk.secretIds
  · obtain rfl := Except.ok.inj hrow
    refine nodup_concat_map hk.secretIds ?_
    simpa [rowOf] using hid

theorem put_handles (hk : Keys st) (hput : st.putSecret s = .ok st') :
    (st'.secrets.map (·.handle)).Nodup := by
  obtain ⟨st₁, vs, hrow, -, rfl⟩ := putSecret_ok hput
  unfold upsertSecretRow at hrow
  split_ifs at hrow with hhandle hid hns
  · obtain rfl := Except.ok.inj hrow
    have hother : ∀ r ∈ st.secrets, r.id ≠ s.id → r.handle ≠ s.handle := by simpa using hhandle
    -- Two rows with one handle are both the updated one, or both as they were.
    refine List.Nodup.map_on ?_ ((put_secretIds hk hput).of_map _)
    intro a ha b hb hab
    obtain ⟨r, hr, rfl⟩ := List.mem_map.mp ha
    obtain ⟨r', hr', rfl⟩ := List.mem_map.mp hb
    have hinj := List.inj_on_of_nodup_map hk.secretIds hr hr'
    split_ifs at hab ⊢ with h h' h'
    · rw [hinj (h.trans h'.symm)]
    · exact absurd hab.symm (hother r' hr' h')
    · exact absurd hab (hother r hr h)
    · exact List.inj_on_of_nodup_map hk.handles hr hr' hab
  · obtain rfl := Except.ok.inj hrow
    refine nodup_concat_map hk.handles ?_
    simp only [rowOf, List.mem_map, not_exists, not_and]
    intro r hr he
    refine hhandle (List.any_eq_true.mpr ⟨r, hr, ?_⟩)
    have hne : r.id ≠ s.id := fun h => hid (List.any_eq_true.mpr ⟨r, hr, by simpa using h⟩)
    simp [hne, he]

theorem Keys.put (hk : Keys st) (hids : (s.versions.map (·.id)).Nodup)
    (hput : st.putSecret s = .ok st') : Keys st' :=
  ⟨put_secretIds hk hput, put_handles hk hput, put_versionIds hids hk hput⟩

/-- **The schema holds after a put.** -/
theorem Schema.put (hs : Schema st) (hw : WellVersioned s) (hput : st.putSecret s = .ok st') :
    Schema st' := by
  refine ⟨Keys.put hs.toKeys hw.ids hput, ?_⟩
  obtain ⟨st₁, vs, -, hvs, rfl⟩ := putSecret_ok hput
  have hfresh := (upsertVersions_ok hw.ids hvs).2
  have hinj := List.inj_on_of_nodup_map (nodup_of_increasing hw.increasing)
  intro r hr r' hr' hsid hno
  rw [mem_put_versions hw.ids hput] at hr hr'
  rcases hr with ⟨v, hv, rfl⟩ | ⟨w, hwv, hnew, rfl⟩
  · rcases hr' with ⟨v', hv', rfl⟩ | ⟨w', hwv', hnew', rfl⟩
    · rw [refresh_secretId, refresh_secretId] at hsid
      rw [refresh_versionNo, refresh_versionNo] at hno
      rw [hs.numbers v hv v' hv' hsid hno]
    · rw [refresh_secretId] at hsid
      rw [refresh_versionNo] at hno
      exact absurd hno (hfresh w' hwv' hnew' v hv hsid)
  · rcases hr' with ⟨v', hv', rfl⟩ | ⟨w', hwv', hnew', rfl⟩
    · rw [refresh_secretId] at hsid
      rw [refresh_versionNo] at hno
      exact absurd hno.symm (hfresh w hwv hnew v' hv' hsid.symm)
    · rw [hinj hwv hwv' hno]

/-! ### The versions -/

/-- A stored row that a put of the secret meets: one of its own, or one with an identifier of it. -/
def InTheWay (s : Secret) (r : SecretVersion) : Prop :=
  r.secretId = s.id ∨ r.id ∈ s.versions.map (·.id)

/-- Every row that the put meets is a version of the secret, up to `deprecated_at`. -/
def Agrees (st : Store) (s : Secret) : Prop :=
  ∀ r ∈ st.versions, InTheWay s r → ∃ v ∈ s.versions, v = { r with deprecatedAt := v.deprecatedAt }

theorem refresh_eq (ws : List SecretVersion) (r : SecretVersion) :
    refresh ws r = { r with deprecatedAt := (refresh ws r).deprecatedAt } := by
  unfold refresh
  split <;> rfl

/-- Lists of one set of versions in the order of their numbers are equal. -/
theorem eq_of_increasing {vs ws : List SecretVersion}
    (hvs : vs.Pairwise fun a b => a.versionNo ≤ b.versionNo) (hnodup : vs.Nodup)
    (hws : ws.Pairwise fun a b => a.versionNo < b.versionNo) (h : ∀ v, v ∈ vs ↔ v ∈ ws) :
    vs = ws := by
  have hnos := nodup_of_increasing hws
  have hperm : vs.Perm ws := (List.perm_ext_iff_of_nodup hnodup (hnos.of_map _)).mpr h
  refine hperm.eq_of_pairwise ?_ hvs (hws.imp UInt32.le_of_lt)
  intro a b ha hb hab hba
  exact List.inj_on_of_nodup_map hnos (h a |>.mp ha) hb (UInt32.le_antisymm hab hba)

/-- **When a secret is loaded back as it was put.** -/
theorem put_loads_iff (hk : Keys st) (hw : WellVersioned s) (hput : st.putSecret s = .ok st') :
    st'.loadVersionsForSecret s.id = s.versions ↔ Agrees st s := by
  have hids' := put_versionIds hw.ids hk hput
  have hinj := List.inj_on_of_nodup_map hids'
  constructor
  · intro hload r hr hway
    have hmem : refresh s.versions r ∈ st'.versions :=
      (mem_put_versions hw.ids hput).mpr (.inl ⟨r, hr, rfl⟩)
    rcases hway with hsid | hid
    · have hloaded := mem_load.mpr ⟨hmem, (refresh_secretId _ r).trans hsid⟩
      rw [hload] at hloaded
      exact ⟨_, hloaded, refresh_eq _ _⟩
    · obtain ⟨v, hv, hvid⟩ := List.mem_map.mp hid
      have hv' := hv
      rw [← hload, mem_load] at hv'
      obtain rfl := hinj hv'.1 hmem (by rw [refresh_id, hvid])
      exact ⟨_, hv, refresh_eq _ _⟩
  · intro hagree
    refine eq_of_increasing (load_sorted st' s.id) ((load_nodup hids' s.id).of_map _) hw.increasing ?_
    have hrefresh : ∀ r ∈ st.versions, ∀ v ∈ s.versions, v = { r with deprecatedAt := v.deprecatedAt } →
        refresh s.versions r = v := by
      intro r hr v hv he
      have hvid : v.id = r.id := by rw [he]
      rw [refresh_of_mem hw.ids hv hvid, ← he]
    intro v
    rw [mem_load, mem_put_versions hw.ids hput]
    constructor
    · rintro ⟨⟨r, hr, rfl⟩ | ⟨w, hwv, -, rfl⟩, hsid⟩
      · rw [refresh_secretId] at hsid
        obtain ⟨v, hv, he⟩ := hagree r hr (.inl hsid)
        rwa [hrefresh r hr v hv he]
      · have hp := hw.parents w hwv
        rw [← hp]
        exact hwv
    · intro hv
      refine ⟨?_, hw.parents v hv⟩
      by_cases hid : v.id ∈ st.versions.map (·.id)
      · obtain ⟨r, hr, hrid⟩ := List.mem_map.mp hid
        obtain ⟨w, hwv, he⟩ := hagree r hr (.inr (hrid ▸ List.mem_map_of_mem hv))
        have hwid : w.id = v.id := by rw [he, ← hrid]
        obtain rfl := List.inj_on_of_nodup_map hw.ids hwv hv hwid
        exact .inl ⟨r, hr, (hrefresh r hr w hwv he).symm⟩
      · refine .inr ⟨v, hv, hid, ?_⟩
        rw [← hw.parents v hv]

/-! ### Several secrets -/

/-- The versions of several secrets. -/
def allVersions (ws : List Secret) : List SecretVersion := ws.flatMap (·.versions)

/-- Secrets that have nothing in common: what a namespace holds, or a backup of it. -/
structure Distinct (ws : List Secret) : Prop where
  wellVersioned : ∀ w ∈ ws, WellVersioned w
  ids : (ws.map (·.id)).Nodup
  versionIds : ((allVersions ws).map (·.id)).Nodup

theorem allVersions_cons (w : Secret) (ws : List Secret) :
    allVersions (w :: ws) = w.versions ++ allVersions ws := List.flatMap_cons

theorem mem_allVersions {ws : List Secret} {v : SecretVersion} :
    v ∈ allVersions ws ↔ ∃ w ∈ ws, v ∈ w.versions := List.mem_flatMap

theorem Distinct.tail {w : Secret} {ws : List Secret} (h : Distinct (w :: ws)) : Distinct ws := by
  have hids := h.ids
  have hvids := h.versionIds
  rw [List.map_cons, List.nodup_cons] at hids
  rw [allVersions_cons, List.map_append, List.nodup_append] at hvids
  exact ⟨fun w' hw' => h.wellVersioned w' (List.mem_cons_of_mem _ hw'), hids.2, hvids.2.1⟩

theorem Distinct.disjoint {w : Secret} {ws : List Secret} (h : Distinct (w :: ws))
    {v v' : SecretVersion} (hv : v ∈ w.versions) (hv' : v' ∈ allVersions ws) : v.id ≠ v'.id := by
  have hvids := h.versionIds
  rw [allVersions_cons, List.map_append, List.nodup_append] at hvids
  exact hvids.2.2 _ (List.mem_map_of_mem hv) _ (List.mem_map_of_mem hv')

theorem refresh_append {vs ws : List SecretVersion} (h : ((vs ++ ws).map (·.id)).Nodup)
    (r : SecretVersion) : refresh ws (refresh vs r) = refresh (vs ++ ws) r := by
  rw [List.map_append, List.nodup_append] at h
  by_cases hr : r.id ∈ vs.map (·.id)
  · obtain ⟨v, hv, hid⟩ := List.mem_map.mp hr
    have hother : (refresh vs r).id ∉ ws.map (·.id) := by
      rw [refresh_id]
      exact fun hmem => h.2.2 _ hr _ hmem rfl
    have hall : ((vs ++ ws).map (·.id)).Nodup := by
      rw [List.map_append, List.nodup_append]
      exact h
    rw [refresh_of_notMem hother, refresh_of_mem h.1 hv hid,
      refresh_of_mem hall (List.mem_append_left _ hv) hid]
  · rw [refresh_of_notMem hr]
    unfold refresh
    have hnone : vs.find? (fun w => w.id = r.id) = none := by
      rw [List.find?_eq_none]
      intro v hv
      have hne : v.id ≠ r.id := fun he => hr (he ▸ List.mem_map_of_mem hv)
      simpa using hne
    rw [List.find?_append, hnone, Option.none_or]

section Puts

variable {ws : List Secret}

theorem puts_cons {w : Secret} (h : (w :: ws).foldlM Store.putSecret st = .ok st') :
    ∃ st₁, st.putSecret w = .ok st₁ ∧ ws.foldlM Store.putSecret st₁ = .ok st' := by
  rw [List.foldlM_cons] at h
  cases hw : st.putSecret w with
  | error e =>
    rw [hw] at h
    cases h
  | ok st₁ =>
    rw [hw] at h
    exact ⟨st₁, rfl, h⟩

/-- **The version rows after the puts**: each row refreshed, the others added. -/
theorem mem_puts_versions : ∀ {ws : List Secret} {st : Store}, Distinct ws →
    ws.foldlM Store.putSecret st = .ok st' → ∀ {r : SecretVersion}, r ∈ st'.versions ↔
      (∃ v ∈ st.versions, r = refresh (allVersions ws) v) ∨
        ∃ v ∈ allVersions ws, v.id ∉ st.versions.map (·.id) ∧ r = v
  | [], st, _, h, r => by
    obtain rfl := Except.ok.inj h
    simp [allVersions]
  | w :: ws, st, hd, h, r => by
    obtain ⟨st₁, hput, hputs⟩ := puts_cons h
    have hw := hd.wellVersioned w List.mem_cons_self
    have hnodup := hd.versionIds
    rw [allVersions_cons] at hnodup ⊢
    have hmem := fun r => mem_put_versions (r := r) hw.ids hput
    have hids : ∀ v ∈ allVersions ws, (v.id ∈ st₁.versions.map (·.id) ↔
        v.id ∈ st.versions.map (·.id)) := by
      intro v hv
      rw [put_versions hw.ids hput, List.map_append, map_refresh_ids, List.mem_append]
      refine ⟨fun hor => hor.resolve_right fun hadd => ?_, .inl⟩
      obtain ⟨r, hr, hid⟩ := List.mem_map.mp hadd
      obtain ⟨u, hu, -, rfl⟩ := mem_added.mp hr
      exact hd.disjoint hu hv hid
    have hown : ∀ u ∈ w.versions, ({ u with secretId := w.id } : SecretVersion) = u := by
      intro u hu
      rw [← hw.parents u hu]
    have hlater : ∀ u ∈ w.versions, refresh (allVersions ws) u = u := by
      intro u hu
      refine refresh_of_notMem fun hmem => ?_
      obtain ⟨v, hv, hid⟩ := List.mem_map.mp hmem
      exact hd.disjoint hu hv hid.symm
    rw [mem_puts_versions hd.tail hputs]
    constructor
    · rintro (⟨r₁, hr₁, rfl⟩ | ⟨v, hv, hnew, rfl⟩)
      · rcases (hmem r₁).mp hr₁ with ⟨v, hv, rfl⟩ | ⟨u, hu, hnew, rfl⟩
        · exact .inl ⟨v, hv, refresh_append hnodup v⟩
        · rw [hown u hu, hlater u hu]
          exact .inr ⟨u, List.mem_append_left _ hu, hnew, rfl⟩
      · rw [hids r hv] at hnew
        exact .inr ⟨r, List.mem_append_right _ hv, hnew, rfl⟩
    · rintro (⟨v, hv, rfl⟩ | ⟨v, hv, hnew, rfl⟩)
      · exact .inl ⟨refresh w.versions v, (hmem _).mpr (.inl ⟨v, hv, rfl⟩),
          (refresh_append hnodup v).symm⟩
      · rcases List.mem_append.mp hv with hv | hv
        · refine .inl ⟨r, (hmem r).mpr (.inr ⟨r, hv, hnew, (hown r hv).symm⟩), (hlater r hv).symm⟩
        · exact .inr ⟨r, hv, (hids r hv).not.mpr hnew, rfl⟩

theorem Keys.puts : ∀ {ws : List Secret} {st : Store}, Keys st → Distinct ws →
    ws.foldlM Store.putSecret st = .ok st' → Keys st'
  | [], _, hk, _, h => by
    obtain rfl := Except.ok.inj h
    exact hk
  | w :: ws, _, hk, hd, h => by
    obtain ⟨st₁, hput, hputs⟩ := puts_cons h
    exact Keys.puts (Keys.put hk (hd.wellVersioned w List.mem_cons_self).ids hput) hd.tail hputs

/-- The rows of other secrets stay. -/
theorem puts_other : ∀ {ws : List Secret} {st : Store}, Keys st → Distinct ws →
    ws.foldlM Store.putSecret st = .ok st' → ∀ {r : SecretRow}, r.id ∉ ws.map (·.id) →
      (r ∈ st'.secrets ↔ r ∈ st.secrets)
  | [], _, _, _, h, _, _ => by
    obtain rfl := Except.ok.inj h
    rfl
  | w :: ws, _, hk, hd, h, r, hr => by
    obtain ⟨st₁, hput, hputs⟩ := puts_cons h
    rw [List.map_cons, List.mem_cons, not_or] at hr
    have hk₁ := Keys.put hk (hd.wellVersioned w List.mem_cons_self).ids hput
    obtain ⟨row, -, -, -, hother⟩ := put_row hk hput
    rw [puts_other hk₁ hd.tail hputs hr.2, hother r hr.1]

/-- The row of a secret that is put: the stored one updated, or a new one. -/
def putRow (st : Store) (w : Secret) : SecretRow :=
  match st.secrets.find? fun r => r.id = w.id with
  | some old => updateRow old w
  | none => rowOf w

@[simp] theorem putRow_handle (st : Store) (w : Secret) : (putRow st w).handle = w.handle := by
  unfold putRow
  split <;> rfl

@[simp] theorem putRow_currentVersionId (st : Store) (w : Secret) :
    (putRow st w).currentVersionId = w.currentVersionId := by
  unfold putRow
  split <;> rfl

@[simp] theorem putRow_id (st : Store) (w : Secret) : (putRow st w).id = w.id := by
  unfold putRow
  split
  · next old hold =>
    have h : old.id = w.id := by simpa using List.find?_some hold
    exact h
  · rfl

/-- A put leaves the row of every other secret where it is found. -/
theorem put_find_other (hk : Keys st) {w : Secret} (hids : (w.versions.map (·.id)).Nodup)
    (hput : st.putSecret w = .ok st') {id : SecretId} (hne : id ≠ w.id) :
    st'.secrets.find? (fun r => r.id = id) = st.secrets.find? fun r => r.id = id := by
  have hk' := Keys.put hk hids hput
  obtain ⟨row, -, -, -, hother⟩ := put_row hk hput
  cases hold : st.secrets.find? fun r => r.id = id with
  | none =>
    rw [List.find?_eq_none] at hold ⊢
    intro r hr he
    have hid : r.id = id := by simpa using he
    exact hold r ((hother r (hid ▸ hne)).mp hr) he
  | some old =>
    have hid : old.id = id := by simpa using List.find?_some hold
    have hmem := (hother old (hid ▸ hne)).mpr (List.mem_of_find?_eq_some hold)
    rw [← hid]
    exact find?_of_nodup hk'.secretIds hmem

theorem puts_mem (hk : Keys st) (hd : Distinct ws) (h : ws.foldlM Store.putSecret st = .ok st')
    {w : Secret} (hw : w ∈ ws) : putRow st w ∈ st'.secrets := by
  induction ws generalizing st with
  | nil => cases hw
  | cons first rest ih =>
    obtain ⟨st₁, hput, hputs⟩ := puts_cons h
    have hids := hd.ids
    rw [List.map_cons, List.nodup_cons] at hids
    have hversions := (hd.wellVersioned first List.mem_cons_self).ids
    have hk₁ := Keys.put hk hversions hput
    rcases List.mem_cons.mp hw with rfl | hw
    · obtain ⟨row, hfind, -, hrow, -⟩ := put_row hk hput
      have hmem : putRow st w ∈ st₁.secrets := by
        have heq : putRow st w = row := hrow.symm
        rw [heq]
        exact List.mem_of_find?_eq_some hfind
      refine (puts_other hk₁ hd.tail hputs ?_).mpr hmem
      rw [putRow_id]
      exact hids.1
    · have hne : w.id ≠ first.id := fun he => hids.1 (he ▸ List.mem_map_of_mem hw)
      have hsame : putRow st₁ w = putRow st w := by
        unfold putRow
        rw [put_find_other hk hversions hput hne]
      rw [← hsame]
      exact ih hk₁ hd.tail hputs hw

/-- The secret is found under its handle. -/
theorem puts_select (hk : Keys st) (hd : Distinct ws) (h : ws.foldlM Store.putSecret st = .ok st')
    {w : Secret} (hw : w ∈ ws) : st'.selectSecretRow w.handle = some (putRow st w) :=
  (select_iff (Keys.puts hk hd h)).mpr ⟨puts_mem hk hd h hw, putRow_handle st w⟩

theorem refresh_all_eq (hd : Distinct ws) {w : Secret} (hw : w ∈ ws) {v r : SecretVersion}
    (hv : v ∈ w.versions) (he : v = { r with deprecatedAt := v.deprecatedAt }) :
    refresh (allVersions ws) r = v := by
  have hid : v.id = r.id := by rw [he]
  rw [refresh_of_mem hd.versionIds (mem_allVersions.mpr ⟨w, hw, hv⟩) hid, ← he]

/-- **When a secret among several is loaded back as it was put.** -/
theorem puts_loads_iff (hk : Keys st) (hd : Distinct ws) (h : ws.foldlM Store.putSecret st = .ok st')
    {w : Secret} (hw : w ∈ ws) : st'.loadVersionsForSecret w.id = w.versions ↔ Agrees st w := by
  have hwv := hd.wellVersioned w hw
  have hk' := Keys.puts hk hd h
  have hmem := fun r => mem_puts_versions (r := r) hd h
  constructor
  · intro hload r hr hway
    have hstored : refresh (allVersions ws) r ∈ st'.versions := (hmem _).mpr (.inl ⟨r, hr, rfl⟩)
    rcases hway with hsid | hid
    · have hloaded := mem_load.mpr ⟨hstored, (refresh_secretId _ r).trans hsid⟩
      rw [hload] at hloaded
      exact ⟨_, hloaded, refresh_eq _ _⟩
    · obtain ⟨v, hv, hvid⟩ := List.mem_map.mp hid
      have hv' := hv
      rw [← hload, mem_load] at hv'
      obtain rfl := List.inj_on_of_nodup_map hk'.versionIds hv'.1 hstored (by rw [refresh_id, hvid])
      exact ⟨_, hv, refresh_eq _ _⟩
  · intro hagree
    refine eq_of_increasing (load_sorted st' w.id) ((load_nodup hk'.versionIds w.id).of_map _)
      hwv.increasing fun v => ?_
    rw [mem_load, hmem]
    constructor
    · rintro ⟨⟨r, hr, rfl⟩ | ⟨u, hu, -, rfl⟩, hsid⟩
      · rw [refresh_secretId] at hsid
        obtain ⟨v, hv, he⟩ := hagree r hr (.inl hsid)
        rwa [refresh_all_eq hd hw hv he]
      · obtain ⟨w', hw', hv'⟩ := mem_allVersions.mp hu
        have hid : w'.id = w.id := ((hd.wellVersioned w' hw').parents v hv').symm.trans hsid
        rwa [← List.inj_on_of_nodup_map hd.ids hw' hw hid]
    · intro hv
      refine ⟨?_, hwv.parents v hv⟩
      by_cases hid : v.id ∈ st.versions.map (·.id)
      · obtain ⟨r, hr, hrid⟩ := List.mem_map.mp hid
        obtain ⟨u, hu, he⟩ := hagree r hr (.inr (hrid ▸ List.mem_map_of_mem hv))
        have huid : u.id = v.id := by rw [he, ← hrid]
        obtain rfl := List.inj_on_of_nodup_map hwv.ids hu hv huid
        exact .inl ⟨r, hr, (refresh_all_eq hd hw hu he).symm⟩
      · exact .inr ⟨v, mem_allVersions.mpr ⟨w, hw, hv⟩, hid, rfl⟩

end Puts

end MerkleVault.Sqlite.Reload
