import MerkleVault.Socket.Steps

/-! # The Stock of Secrets

Put, rotate, rollback and delete each make at most one change of the secrets: a new secret with one
version, a new version of a stored secret, or a secret less.  Every secret keeps its current version
through these changes, no version is lost but with its secret, and the identifiers in use are ones
that were issued.

* `Change`: the changes;
* `Stocked.change`, `Numbered.change`, `Change.retains`: what they keep;
* `put_outcome`, `rotate_outcome`, `rollback_outcome`, `delete_outcome`: the change of each command. -/

namespace MerkleVault.Socket.Stock

open MerkleVault.Types MerkleVault.External MerkleVault.Lib.Program MerkleVault.Secrets.Aggregate
open MerkleVault.Sqlite.Tables MerkleVault.Sqlite.Versions MerkleVault.App.Context
open MerkleVault.App.SecretCommands MerkleVault.Socket.Actions MerkleVault.Socket.Steps

/-- Each secret has its current version, and the identifiers in use were issued. -/
structure Stocked (s : AppState) : Prop where
  keys : Keys s.store
  current : ∀ row ∈ s.store.secrets, ∃ v, IsCurrent s.store row v
  rows : ∀ row ∈ s.store.secrets, row.id.inner ∈ s.issued
  versions : ∀ v ∈ s.store.versions, v.id.inner ∈ s.issued ∧ v.secretId.inner ∈ s.issued

/-- The versions of a secret have different numbers. -/
def Numbered (st : Store) : Prop :=
  ∀ r ∈ st.versions, ∀ r' ∈ st.versions, r.secretId = r'.secretId → r.versionNo = r'.versionNo → r = r'

/-- A version as it is stored under its parent. -/
def storedAs (id : SecretId) (v : SecretVersion) : SecretVersion := { v with secretId := id }

/-- A change of the secret under a handle, with identifiers drawn for it, and the row and the version
that it leaves. -/
inductive Change (s : AppState) (handle : Handle) : Option (SecretRow × SecretVersion) → Store → Prop
  | put {secret : Secret} {v : SecretVersion} {st' : Store} (hid : secret.id.inner ∈ s.issued)
      (hsecret : secret.id ∉ s.store.secrets.map (·.id))
      (horphan : ∀ w ∈ s.store.versions, w.secretId ≠ secret.id) (hv : v.id.inner ∈ s.issued)
      (hversion : v.id ∉ s.store.versions.map (·.id)) (hversions : secret.versions = [v])
      (hactive : v.isActive = true) (hcurrent : secret.currentVersionId = v.id)
      (hhandle : secret.handle = handle) (hput : s.store.putSecret secret = .ok st') :
      Change s handle (some (rowOf secret, storedAs secret.id v)) st'
  | rotate {row : SecretRow} {new : SecretVersion} {now : Rfc3339Timestamp} {secret : Secret}
      {st' : Store} (hrow : s.store.selectSecretRow handle = some row) (hnew : new.id.inner ∈ s.issued)
      (hfresh : new.id ∉ s.store.versions.map (·.id)) (hactive : new.isActive = true)
      (hrot : (loaded s.store row).rotate new retainCount now = .ok secret)
      (hput : s.store.putSecret secret = .ok st') :
      Change s handle (some (rotatedRow row new, storedAs row.id new)) st'
  | delete {row : SecretRow} {st' : Store} (hrow : s.store.selectSecretRow handle = some row)
      (hdel : s.store.deleteSecret row.id = .ok st') : Change s handle none st'

/-- The secrets, their versions, and the identifiers issued before. -/
structure SameStock (s s' : AppState) : Prop where
  secrets : s'.store.secrets = s.store.secrets
  versions : s'.store.versions = s.store.versions
  issued : s.issued ⊆ s'.issued

/-- The handle has a version with the number and the ciphertext. -/
def Retains (st : Store) (handle : Handle) (n : UInt32) (blob : PrivateBlob) : Prop :=
  ∃ row v, st.selectSecretRow handle = some row ∧ v ∈ st.versions ∧ v.secretId = row.id ∧
    v.versionNo = n ∧ v.blob = blob

/-- Actions that neither put nor delete a secret. -/
def sparesSecrets {β : Type} : Op β → Prop
  | .write (.putSecret _) => False
  | .write (.deleteSecret _) => False
  | _ => True

section Rows

variable {st st' : Store}

theorem isCurrent_congr (hv : st'.versions = st.versions) {row : SecretRow} {v : SecretVersion}
    (h : IsCurrent st row v) : IsCurrent st' row v :=
  ⟨by rw [hv]; exact h.stored, h.parent, h.named, h.active, by rw [hv]; exact h.newest⟩

theorem mem_rotated_secrets {row r : SecretRow} {new : SecretVersion} {now : Rfc3339Timestamp}
    {secret : Secret} (hk : Keys st) (hrow : row ∈ st.secrets)
    (hrot : (loaded st row).rotate new retainCount now = .ok secret)
    (hput : st.putSecret secret = .ok st') (hr : r ∈ st'.secrets) :
    r = rotatedRow row new ∨ (r ∈ st.secrets ∧ r.id ≠ row.id) := by
  rw [rotated_secrets hk hrow hrot hput] at hr
  obtain ⟨r₀, hr₀, rfl⟩ := List.mem_map.mp hr
  by_cases hid : r₀.id = row.id
  · exact .inl (if_pos hid)
  · rw [if_neg hid]
    exact .inr ⟨hr₀, hid⟩

theorem mem_deleted {id : SecretId} (h : st.deleteSecret id = .ok st') :
    (∀ row ∈ st'.secrets, row ∈ st.secrets ∧ row.id ≠ id) ∧
      ∀ v ∈ st'.versions, v ∈ st.versions ∧ v.secretId ≠ id := by
  obtain rfl := deleteSecret_ok h
  simp only [List.mem_filter, decide_not, Bool.not_eq_true', decide_eq_false_iff_not]
  exact ⟨fun _ h => h, fun _ h => h⟩

end Rows

section Stocked

variable {s s' : AppState} {st' : Store} {handle : Handle}
  {w : Option (SecretRow × SecretVersion)}

theorem SameStock.refl (s : AppState) : SameStock s s := ⟨rfl, rfl, List.Subset.refl _⟩

theorem SameStock.trans {s'' : AppState} (h : SameStock s s') (h' : SameStock s' s'') : SameStock s s'' :=
  ⟨h'.secrets.trans h.secrets, h'.versions.trans h.versions, List.Subset.trans h.issued h'.issued⟩

theorem sameStock_of_sameVault (h : SameVault s s') : SameStock s s' := ⟨h.secrets, h.versions, h.issued⟩

theorem exec_spares {K : Crates} {β : Type} {op : Op β} {r : β} (hop : sparesSecrets op)
    (hx : exec K op s r s') : SameStock s s' := by
  cases hw : writeOf op with
  | none =>
    obtain ⟨hs, hv, hi⟩ := exec_rows hx hw
    exact ⟨hs, hv, by rw [hi]; exact List.subset_append_right _ _⟩
  | some w =>
    cases op with
    | write w' =>
      obtain ⟨fault, hx⟩ := hx
      rcases writeSection_eq hx with ⟨-, store, hstore, rfl⟩ | ⟨-, rfl⟩
      · cases w' with
        | putSecret secret => exact hop.elim
        | deleteSecret id => exact hop.elim
        | putNamespace ns =>
          simp only [Write.apply, Store.putNamespace] at hstore
          split_ifs at hstore <;> obtain rfl := Except.ok.inj hstore <;> exact ⟨rfl, rfl, fun _ h => h⟩
        | putNamespacePolicy policy =>
          simp only [Write.apply, Store.putNamespacePolicy] at hstore
          split_ifs at hstore <;> obtain rfl := Except.ok.inj hstore <;> exact ⟨rfl, rfl, fun _ h => h⟩
      · exact .refl _
    | _ => cases hw

theorem Stocked.same (h : Stocked s) (hs : SameStock s s') : Stocked s' := by
  refine ⟨⟨?_, ?_, ?_⟩, ?_, ?_, ?_⟩
  · rw [hs.secrets]
    exact h.keys.secretIds
  · rw [hs.secrets]
    exact h.keys.handles
  · rw [hs.versions]
    exact h.keys.versionIds
  · rw [hs.secrets]
    intro row hrow
    obtain ⟨v, hv⟩ := h.current row hrow
    exact ⟨v, isCurrent_congr hs.versions hv⟩
  · rw [hs.secrets]
    exact fun row hrow => hs.issued (h.rows row hrow)
  · rw [hs.versions]
    exact fun v hv => ⟨hs.issued (h.versions v hv).1, hs.issued (h.versions v hv).2⟩

/-- The identifiers of the store are not drawn again. -/
theorem Stocked.fresh_version (h : Stocked s) {u : Uuid} (hu : u ∉ s.issued) :
    ⟨u⟩ ∉ s.store.versions.map (·.id) := by
  intro hmem
  obtain ⟨v, hv, he⟩ := List.mem_map.mp hmem
  have hi := (h.versions v hv).1
  rw [he] at hi
  exact hu hi

theorem Stocked.fresh_secret (h : Stocked s) {u : Uuid} (hu : u ∉ s.issued) :
    ⟨u⟩ ∉ s.store.secrets.map (·.id) := by
  intro hmem
  obtain ⟨row, hrow, he⟩ := List.mem_map.mp hmem
  have hi := h.rows row hrow
  rw [he] at hi
  exact hu hi

theorem Stocked.change (h : Stocked s) (hc : Change s handle w st') :
    Stocked { s with store := st' } := by
  cases hc with
  | @put secret v _ hid hsecret horphan hv hversion hversions hactive hcurrent _ hput =>
    obtain ⟨-, hsecrets, hvs⟩ := put_new hsecret hversion hversions hput
    refine ⟨h.keys.put_new hsecret hversion hversions hput, ?_, ?_, ?_⟩
    · rw [hsecrets]
      intro row hrow
      rcases List.mem_append.mp hrow with hrow | hrow
      · have hne : row.id ≠ secret.id := fun he => hsecret (List.mem_map.mpr ⟨row, hrow, he⟩)
        obtain ⟨w, hw⟩ := h.current row hrow
        exact ⟨w, hw.put_new_other hne hsecret hversion hversions hput⟩
      · rw [List.mem_singleton.mp hrow]
        exact ⟨_, isCurrent_put_new hsecret hversion hversions horphan hactive hcurrent hput⟩
    · rw [hsecrets]
      intro row hrow
      rcases List.mem_append.mp hrow with hrow | hrow
      · exact h.rows row hrow
      · rw [List.mem_singleton.mp hrow]
        exact hid
    · rw [hvs]
      intro w hw
      rcases List.mem_append.mp hw with hw | hw
      · exact h.versions w hw
      · rw [List.mem_singleton.mp hw]
        exact ⟨hv, hid⟩
  | @rotate row new _ _ _ hselect hnew hfresh hactive hrot hput =>
    have hrow := ((select_iff h.keys).mp hselect).1
    refine ⟨h.keys.rotated hrow hfresh hrot hput, ?_, ?_, ?_⟩
    · intro r hr
      rcases mem_rotated_secrets h.keys hrow hrot hput hr with rfl | ⟨hr, hne⟩
      · obtain ⟨v, hv⟩ := h.current row hrow
        exact ⟨_, hv.rotated h.keys hfresh hactive hrot hput⟩
      · obtain ⟨v, hv⟩ := h.current r hr
        exact ⟨v, hv.rotated_other hne h.keys hfresh hrot hput⟩
    · intro r hr
      rcases mem_rotated_secrets h.keys hrow hrot hput hr with rfl | ⟨hr, -⟩
      · exact h.rows row hrow
      · exact h.rows r hr
    · intro w hw
      rcases (mem_rotated_versions h.keys hfresh hrot hput).mp hw with rfl | ⟨r, hr, rfl⟩
      · exact ⟨hnew, h.rows row hrow⟩
      · rw [rewritten_id, rewritten_secretId]
        exact h.versions r hr
  | delete _ hdel =>
    obtain ⟨hrows, hvs⟩ := mem_deleted hdel
    refine ⟨h.keys.deleted hdel, ?_, ?_, ?_⟩
    · intro row hrow
      obtain ⟨hmem, hne⟩ := hrows row hrow
      obtain ⟨v, hv⟩ := h.current row hmem
      exact ⟨v, hv.deleted hne hdel⟩
    · exact fun row hrow => h.rows row (hrows row hrow).1
    · exact fun v hv => h.versions v (hvs v hv).1

/-- A new number is larger than all numbers of its secret. -/
theorem Numbered.change (h : Numbered s.store) (hk : Keys s.store) (hc : Change s handle w st') :
    Numbered st' := by
  cases hc with
  | @put secret v _ _ hsecret horphan _ hversion hversions _ _ _ hput =>
    obtain ⟨-, -, hvs⟩ := put_new hsecret hversion hversions hput
    intro r hr r' hr' hparent hno
    rw [hvs] at hr hr'
    rcases List.mem_append.mp hr with hr | hr
    · rcases List.mem_append.mp hr' with hr' | hr'
      · exact h r hr r' hr' hparent hno
      · rw [List.mem_singleton.mp hr'] at hparent
        exact absurd hparent (horphan r hr)
    · rcases List.mem_append.mp hr' with hr' | hr'
      · rw [List.mem_singleton.mp hr] at hparent
        exact absurd hparent.symm (horphan r' hr')
      · rw [List.mem_singleton.mp hr, List.mem_singleton.mp hr']
  | @rotate row new _ _ _ _ _ hfresh _ hrot hput =>
    have hlt : ∀ r ∈ s.store.versions, r.secretId = row.id → r.versionNo < new.versionNo :=
      fun r hr hparent => UInt32.lt_of_le_of_lt (le_maxVersionNo (mem_load.mpr ⟨hr, hparent⟩))
        (rotate_loaded hk hrot).1
    intro r hr r' hr' hparent hno
    rcases (mem_rotated_versions hk hfresh hrot hput).mp hr with rfl | ⟨u, hu, rfl⟩
    · rcases (mem_rotated_versions hk hfresh hrot hput).mp hr' with rfl | ⟨u', hu', rfl⟩
      · rfl
      · rw [rewritten_secretId] at hparent
        rw [rewritten_versionNo] at hno
        exact absurd hno.symm (UInt32.ne_of_lt (hlt u' hu' hparent.symm))
    · rw [rewritten_secretId] at hparent
      rw [rewritten_versionNo] at hno
      rcases (mem_rotated_versions hk hfresh hrot hput).mp hr' with rfl | ⟨u', hu', rfl⟩
      · exact absurd hno (UInt32.ne_of_lt (hlt u hu hparent))
      · rw [rewritten_secretId] at hparent
        rw [rewritten_versionNo] at hno
        rw [h u hu u' hu' hparent hno]
  | delete _ hdel =>
    obtain ⟨-, hvs⟩ := mem_deleted hdel
    exact fun r hr r' hr' => h r (hvs r hr).1 r' (hvs r' hr').1

/-- **The version stored is the current one** of the handle. -/
theorem Change.current {row : SecretRow} {v : SecretVersion}
    (hc : Change s handle (some (row, v)) st') (h : Stocked s) :
    st'.selectSecretRow handle = some row ∧ IsCurrent st' row v := by
  have hk := (h.change hc).keys
  cases hc with
  | @put secret v _ _ hsecret horphan _ hversion hversions hactive hcurrent hhandle hput =>
    obtain ⟨-, hsecrets, -⟩ := put_new hsecret hversion hversions hput
    refine ⟨(select_iff hk).mpr ⟨?_, hhandle⟩,
      isCurrent_put_new hsecret hversion hversions horphan hactive hcurrent hput⟩
    show rowOf secret ∈ st'.secrets
    rw [hsecrets]
    exact List.mem_append_right _ List.mem_cons_self
  | rotate hselect _ hfresh hactive hrot hput =>
    obtain ⟨v, hv⟩ := h.current _ ((select_iff h.keys).mp hselect).1
    exact ⟨select_rotated h.keys hselect hfresh hrot hput,
      hv.rotated h.keys hfresh hactive hrot hput⟩

/-- The rows of the other secrets stay, with their current versions. -/
theorem Change.other {handle' : Handle} {row : SecretRow} {v : SecretVersion}
    (hc : Change s handle w st') (h : Stocked s) (hne : handle' ≠ handle)
    (hrow : s.store.selectSecretRow handle' = some row) (hv : IsCurrent s.store row v) :
    st'.selectSecretRow handle' = some row ∧ IsCurrent st' row v := by
  have hk := (h.change hc).keys
  obtain ⟨hmem, hhandle⟩ := (select_iff h.keys).mp hrow
  have hother : ∀ {r : SecretRow}, s.store.selectSecretRow handle = some r → row.id ≠ r.id := by
    intro r hr he
    obtain ⟨hr, hrhandle⟩ := (select_iff h.keys).mp hr
    obtain rfl := List.inj_on_of_nodup_map h.keys.secretIds hmem hr he
    exact hne (hhandle.symm.trans hrhandle)
  cases hc with
  | @put secret _ _ _ hsecret _ _ hversion hversions _ _ _ hput =>
    obtain ⟨-, hsecrets, -⟩ := put_new hsecret hversion hversions hput
    have hid : row.id ≠ secret.id := fun he => hsecret (List.mem_map.mpr ⟨row, hmem, he⟩)
    refine ⟨(select_iff hk).mpr ⟨?_, hhandle⟩, hv.put_new_other hid hsecret hversion hversions hput⟩
    show row ∈ st'.secrets
    rw [hsecrets]
    exact List.mem_append_left _ hmem
  | rotate hselect _ hfresh _ hrot hput =>
    have hid := hother hselect
    refine ⟨(select_iff hk).mpr ⟨?_, hhandle⟩, hv.rotated_other hid h.keys hfresh hrot hput⟩
    show row ∈ st'.secrets
    rw [rotated_secrets h.keys ((select_iff h.keys).mp hselect).1 hrot hput]
    exact List.mem_map.mpr ⟨row, hmem, if_neg hid⟩
  | delete hselect hdel =>
    have hid := hother hselect
    refine ⟨(select_iff hk).mpr ⟨?_, hhandle⟩, hv.deleted hid hdel⟩
    obtain rfl := deleteSecret_ok hdel
    exact List.mem_filter.mpr ⟨hmem, by simpa using hid⟩

/-- **No version is lost** but with its secret. -/
theorem Change.retains {handle' : Handle} {n : UInt32} {blob : PrivateBlob}
    (hc : Change s handle w st') (h : Stocked s) (hdel : w = none → handle' ≠ handle)
    (hr : Retains s.store handle' n blob) : Retains st' handle' n blob := by
  obtain ⟨row, v, hrow, hv, hparent, hno, hblob⟩ := hr
  obtain ⟨hmem, -⟩ := (select_iff h.keys).mp hrow
  obtain ⟨u, hu⟩ := h.current row hmem
  have hother : handle' ≠ handle → st'.selectSecretRow handle' = some row := fun hne =>
    (hc.other h hne hrow hu).1
  cases hc with
  | @put secret new _ _ hsecret _ _ hversion hversions _ _ hhandle hput =>
    obtain ⟨hfresh, -, hvs⟩ := put_new hsecret hversion hversions hput
    have hne : handle' ≠ handle := by
      rintro rfl
      exact hfresh (hhandle ▸ List.mem_map.mpr ⟨row, select_iff h.keys |>.mp hrow⟩)
    refine ⟨row, v, hother hne, ?_, hparent, hno, hblob⟩
    rw [hvs]
    exact List.mem_append_left _ hv
  | @rotate row' new now _ _ hselect _ hfresh _ hrot hput =>
    have hmem' : rewritten (s.store.loadVersionsForSecret row'.id) row'.currentVersionId now v ∈
        st'.versions := (mem_rotated_versions h.keys hfresh hrot hput).mpr (.inr ⟨v, hv, rfl⟩)
    have hblob' : (rewritten (s.store.loadVersionsForSecret row'.id) row'.currentVersionId now v).blob =
        blob := by
      rw [rewritten_eq]
      exact hblob
    by_cases hne : handle' = handle
    · subst hne
      obtain rfl : row' = row := Option.some.inj (hselect.symm.trans hrow)
      exact ⟨rotatedRow row' new, _, select_rotated h.keys hselect hfresh hrot hput, hmem',
        (rewritten_secretId ..).trans hparent, (rewritten_versionNo ..).trans hno, hblob'⟩
    · exact ⟨row, _, hother hne, hmem', (rewritten_secretId ..).trans hparent,
        (rewritten_versionNo ..).trans hno, hblob'⟩
  | @delete row' _ hselect hdelete =>
    have hne := hdel rfl
    refine ⟨row, v, hother hne, ?_, hparent, hno, hblob⟩
    have hid : v.secretId ≠ row'.id := by
      rw [hparent]
      intro he
      obtain ⟨hmem', hhandle'⟩ := (select_iff h.keys).mp hselect
      obtain rfl := List.inj_on_of_nodup_map h.keys.secretIds hmem hmem' he
      exact hne (((select_iff h.keys).mp hrow).2.symm.trans hhandle')
    obtain rfl := deleteSecret_ok hdelete
    exact List.mem_filter.mpr ⟨hv, by simpa using hid⟩

end Stocked

/-! ### Ciphertexts -/

/-- The ciphertext of the blob, its tag joined to it again, encrypts the plaintext under the key and
the associated data of the handle. -/
structure Seals (E : Env) (dek : Key) (handle : Handle) (plaintext : List UInt8)
    (blob : PrivateBlob) : Prop where
  cipher : E.aeadEncrypt dek blob.nonce plaintext (handleAad handle) =
    .ok (blob.ciphertext ++ blob.aeadTag.toList)
  aad : blob.associatedData = handleAad handle

theorem splitTag_eq {ciphertext body : List UInt8} {tag : Vector UInt8 16}
    (h : splitTag ciphertext = some (body, tag)) : body ++ tag.toList = ciphertext := by
  unfold splitTag at h
  split_ifs at h with hlen
  obtain ⟨rfl, rfl⟩ := Prod.mk.inj (Option.some.inj h)
  rw [Vector.toList_mk]
  exact List.take_append_drop _ _

theorem encryptBlob_seals {E : Env} {M : Type*} {R : Rules Op M} {m : M}
    (hidle : Idle R (.port .randomBytes24)) (dek : Key) (handle : Handle) (plaintext : List UInt8) :
    Wp R (encryptBlob E dek handle plaintext).run m fun m' r => m' = m ∧
      ∀ blob, r = .ok blob → Seals E dek handle plaintext blob := by
  unfold encryptBlob
  refine wp_still_bind (still_call hidle) (fun nonce => ?_) fun e => ⟨rfl, nofun⟩
  rw [wp_except_bind, wp_ofExcept]
  refine ⟨fun ciphertext henc => ?_, fun e _ => ⟨rfl, nofun⟩⟩
  show Wp R (orThrow _ _ >>= _ : Handler PrivateBlob).run m _
  rw [wp_except_bind, wp_orThrow]
  refine ⟨fun split hsplit => ?_, fun _ => ⟨rfl, nofun⟩⟩
  obtain ⟨body, tag⟩ := split
  refine ⟨rfl, fun blob hblob => ?_⟩
  obtain rfl := Except.ok.inj hblob
  refine ⟨?_, rfl⟩
  rw [splitTag_eq hsplit]
  exact henc

/-! ### The commands -/

/-- The number of the version that a command answers for. -/
def assigned : Reply → Option UInt32
  | .put _ _ => some 1
  | .rotated n => some n
  | .rolledBack n => some n
  | _ => none

/-- One change of the handle's secret. -/
def Made (s : AppState) (handle : Handle) (w : Option (SecretRow × SecretVersion)) (s' : AppState) :
    Prop :=
  ∃ s₁ st', SameVault s s₁ ∧ Change s₁ handle w st' ∧ SameVault { s₁ with store := st' } s'

/-- A command leaves the vault or makes one change of the given kind; it has made it when it returns,
and answers the number of the version. -/
structure Outcome (handle : Handle) (N : Option (SecretRow × SecretVersion) → Prop) (s s' : AppState)
    (r : Except AppError Reply) : Prop where
  made : SameVault s s' ∨ ∃ w, N w ∧ Made s handle w s'
  done : ∀ reply, r = .ok reply →
    ∃ w, N w ∧ Made s handle w s' ∧ assigned reply = w.map (·.2.versionNo)

/-- A new version under the handle. -/
def Adds (P : SecretRow → SecretVersion → Prop) (w : Option (SecretRow × SecretVersion)) : Prop :=
  ∃ row v, w = some (row, v) ∧ P row v

section Commands

variable {E : Env} {s s₁ s' : AppState} {handle : Handle} {w : Option (SecretRow × SecretVersion)}
  {N : Option (SecretRow × SecretVersion) → Prop}

theorem Made.same (h : Made s handle w s') {s'' : AppState} (hs : SameVault s' s'') :
    Made s handle w s'' := by
  obtain ⟨s₁, st', hbefore, hchange, hafter⟩ := h
  exact ⟨s₁, st', hbefore, hchange, hafter.trans hs⟩

theorem Stocked.made (h : Stocked s) (hm : Made s handle w s') : Stocked s' := by
  obtain ⟨s₁, st', hbefore, hchange, hafter⟩ := hm
  exact ((h.same (sameStock_of_sameVault hbefore)).change hchange).same (sameStock_of_sameVault hafter)

theorem Made.current {row : SecretRow} {v : SecretVersion} (hm : Made s handle (some (row, v)) s')
    (h : Stocked s) : s'.store.selectSecretRow handle = some row ∧ IsCurrent s'.store row v := by
  obtain ⟨s₁, st', hbefore, hchange, hafter⟩ := hm
  obtain ⟨hrow, hv⟩ := hchange.current (h.same (sameStock_of_sameVault hbefore))
  exact ⟨(select_congr hafter.secrets handle).trans hrow, isCurrent_congr hafter.versions hv⟩

theorem outcome_error (hs : SameVault s s') (e : AppError) : Outcome handle N s s' (.error e) :=
  ⟨.inl hs, fun _ h => absurd h error_ne_ok⟩

/-- **The end of a command**: its change, then its entry. -/
theorem record_outcome {op : Write} {params : Audit.Writer.AppendParams} {reply : Reply}
    (hs : SameVault s s₁) (hw : ∀ store, op.apply s₁.store = .ok store → Change s₁ handle w store)
    (hN : N w) (hreply : assigned reply = w.map (·.2.versionNo)) :
    Wp (agentRules E) (do
      write op
      let hmacKey ← requireHmacKey
      auditCommit params hmacKey
      return reply : Handler Reply).run s₁ fun s' r => Outcome handle N s s' r := by
  have hrun : Wp (agentRules E) (do
      write op
      let hmacKey ← requireHmacKey
      auditCommit params hmacKey
      return reply : Handler Reply).run s₁ fun s' r =>
        (SameVault s s' ∨ Made s handle w s') ∧ ∀ a, r = .ok a → Made s handle w s' := by
    refine wp_write_record (.inl hs) (fun store hstore => ?_) (fun h hs' => ?_) fun h hs' => h.same hs'
    · have hmade : Made s handle w { s₁ with store := store } :=
        ⟨s₁, store, hs, hw store hstore, SameVault.refl _⟩
      exact ⟨.inr hmade, hmade⟩
    · exact h.imp (fun h => h.trans hs') fun h => h.same hs'
  have hlast : Returns E (do
      write op
      let hmacKey ← requireHmacKey
      auditCommit params hmacKey
      return reply : Handler Reply) (· = reply) :=
    returns_last fun _ => returns_last fun _ => returns_last fun _ => returns_pure rfl
  refine (hrun.and (hlast s₁)).mono ?_
  rintro s' r ⟨⟨hmade, hdone⟩, hr⟩
  refine ⟨hmade.imp_right fun h => ⟨w, hN, h⟩, fun a ha => ⟨w, hN, hdone a ha, ?_⟩⟩
  rw [hr a ha]
  exact hreply

/-- **Put**: a secret with one version, which seals the payload. -/
theorem put_outcome (h : Stocked s) (cmd : PutSecretCommand) :
    Wp (agentRules E) (cmd.execute E).run s fun s' r => Outcome cmd.handle
      (Adds fun row v => row.namespaceId = cmd.namespaceId ∧ ∃ value,
        payload E cmd.valueFormat cmd.plaintext = some value ∧
          Seals E cmd.dekBytes cmd.handle value v.blob) s s' r := by
  unfold PutSecretCommand.execute
  refine wp_still_bind (still_requireUnsealed idle_isUnsealed) (fun _ => ?_)
    (outcome_error (.refl s))
  refine wp_spec_bind (decodePayload_eq _ _) (fun value hvalue => ?_) (outcome_error (.refl s))
  refine wp_spec_bind (encryptBlob_seals (idle_port _) _ _ _) (fun blob hblob => ?_)
    (outcome_error (.refl s))
  refine wp_newUuid fun placeholder _ => ?_
  refine wp_newUuid fun versionId hversion => ?_
  have hdrawn := (sameVault_drawn s placeholder).trans (sameVault_drawn _ versionId)
  refine wp_still_bind (still_call (idle_port _)) (fun versionTime => ?_) (outcome_error hdrawn)
  refine wp_newUuid fun secretId hsecret => ?_
  have hs := hdrawn.trans (sameVault_drawn _ secretId)
  refine wp_still_bind (still_call (idle_port _)) (fun now => ?_) (outcome_error hs)
  rw [wp_except_bind, wp_ofExcept]
  refine ⟨fun secret hnew => ?_, fun _ _ => outcome_error hs _⟩
  obtain rfl := secretNew_ok hnew
  have hv : versionId ∉ s.issued := fun hmem => hversion (List.mem_cons_of_mem _ hmem)
  have hid : secretId ∉ s.issued := fun hmem =>
    hsecret (List.mem_cons_of_mem _ (List.mem_cons_of_mem _ hmem))
  have horphan : ∀ w ∈ s.store.versions, w.secretId ≠ ⟨secretId⟩ := by
    intro w hw he
    have hissued := (h.versions w hw).2
    rw [he] at hissued
    exact hid hissued
  exact record_outcome hs (fun store hput =>
      .put (v := ⟨⟨versionId⟩, ⟨placeholder⟩, 1, blob, cmd.dekVersion, versionTime, none⟩)
        List.mem_cons_self (h.fresh_secret hid) horphan
        (List.mem_cons_of_mem _ List.mem_cons_self) (h.fresh_version hv) rfl rfl rfl rfl hput)
    ⟨_, _, rfl, rfl, value, hvalue, hblob⟩ rfl

/-- **Rotate**: a version of the stored secret, which seals the payload. -/
theorem rotate_outcome (h : Stocked s) (cmd : RotateSecretCommand) :
    Wp (agentRules E) (cmd.execute E).run s fun s' r => Outcome cmd.handle
      (Adds fun row v => (∃ row', s.store.selectSecretRow cmd.handle = some row' ∧
          row.namespaceId = row'.namespaceId) ∧ ∃ value,
        payload E cmd.valueFormat cmd.plaintext = some value ∧
          Seals E cmd.dekBytes cmd.handle value v.blob) s s' r := by
  unfold RotateSecretCommand.execute
  refine wp_still_bind (still_requireUnsealed idle_isUnsealed) (fun _ => ?_)
    (outcome_error (.refl s))
  refine wp_spec_bind (loadSecret_eq _) (fun sec hsec => ?_) (outcome_error (.refl s))
  obtain ⟨row, hrow, rfl⟩ := hsec
  refine wp_spec_bind (decodePayload_eq _ _) (fun value hvalue => ?_) (outcome_error (.refl s))
  refine wp_spec_bind (encryptBlob_seals (idle_port _) _ _ _) (fun blob hblob => ?_)
    (outcome_error (.refl s))
  refine wp_newUuid fun u hu => ?_
  have hs := sameVault_drawn s u
  refine wp_still_bind (still_call (idle_port _)) (fun versionTime => ?_) (outcome_error hs)
  refine wp_still_bind (still_call (idle_port _)) (fun now => ?_) (outcome_error hs)
  rw [wp_except_bind, wp_ofExcept]
  refine ⟨fun secret hrot => ?_, fun _ _ => outcome_error hs _⟩
  exact record_outcome hs (fun store hput =>
      .rotate hrow List.mem_cons_self (h.fresh_version hu) rfl hrot hput)
    ⟨_, _, rfl, ⟨row, hrow, rfl⟩, value, hvalue, hblob⟩ rfl

/-- **Rollback**: a version of the stored secret with the blob of the version asked for. -/
theorem rollback_outcome (h : Stocked s) (cmd : RollbackSecretCommand) :
    Wp (agentRules E) cmd.execute.run s fun s' r => Outcome cmd.handle
      (Adds fun row v => ∃ row', s.store.selectSecretRow cmd.handle = some row' ∧
        row.namespaceId = row'.namespaceId ∧ ∃ target ∈ s.store.versions,
          target.secretId = row'.id ∧ target.versionNo = cmd.targetVersion ∧
            v.blob = target.blob) s s' r := by
  unfold RollbackSecretCommand.execute
  refine wp_still_bind (still_requireUnsealed idle_isUnsealed) (fun _ => ?_)
    (outcome_error (.refl s))
  refine wp_spec_bind (loadSecret_eq _) (fun sec hsec => ?_) (outcome_error (.refl s))
  obtain ⟨row, hrow, rfl⟩ := hsec
  split_ifs
  · have hdeny : Returns E (deny .rotate cmd.namespaceId cmd.handle
        (loaded s.store row).sensitivity "operator confirmation required for secret rollback"
        (.policyDenied "operator confirmation required for secret rollback") : Handler Reply)
        fun _ => False :=
      returns_last fun _ => returns_last fun _ => returns_throw _
    refine ((wp_quiet (only_deny inert_quiet _ _ _ _ _ _)).and (hdeny s)).mono ?_
    rintro s' r ⟨hs, hr⟩
    exact ⟨.inl hs, fun reply h => (hr reply h).elim⟩
  · refine wp_newUuid fun u hu => ?_
    have hs := sameVault_drawn s u
    refine wp_still_bind (still_call (idle_port _)) (fun now => ?_) (outcome_error hs)
    rw [wp_except_bind, wp_ofExcept]
    refine ⟨fun secret hroll => ?_, fun _ _ => outcome_error hs _⟩
    unfold Secret.rollbackTo at hroll
    split at hroll
    · cases hroll
    · next target htarget =>
      have hmem := mem_load.mp (List.mem_of_find?_eq_some htarget)
      have hno : target.versionNo = cmd.targetVersion := by simpa using List.find?_some htarget
      exact record_outcome hs (fun store hput =>
          .rotate hrow List.mem_cons_self (h.fresh_version hu) rfl hroll hput)
        ⟨_, _, rfl, row, hrow, rfl, target, hmem.1, hmem.2, hno, rfl⟩ rfl

/-- **Delete.** -/
theorem delete_outcome (cmd : DeleteSecretCommand) :
    Wp (agentRules E) cmd.execute.run s fun s' r => Outcome cmd.handle (· = none) s s' r := by
  unfold DeleteSecretCommand.execute
  refine wp_still_bind (still_requireUnsealed idle_isUnsealed) (fun _ => ?_)
    (outcome_error (.refl s))
  refine wp_spec_bind (loadSecret_eq _) (fun sec hsec => ?_) (outcome_error (.refl s))
  obtain ⟨row, hrow, rfl⟩ := hsec
  split_ifs
  · have hdeny : Returns E (deny .delete cmd.namespaceId cmd.handle
        (loaded s.store row).sensitivity
        "operator confirmation required for critical-sensitivity delete"
        (.policyDenied "operator confirmation required for critical-sensitivity delete") :
          Handler Reply) fun _ => False :=
      returns_last fun _ => returns_last fun _ => returns_throw _
    refine ((wp_quiet (only_deny inert_quiet _ _ _ _ _ _)).and (hdeny s)).mono ?_
    rintro s' r ⟨hs, hr⟩
    exact ⟨.inl hs, fun reply h => (hr reply h).elim⟩
  · exact record_outcome (.refl s) (fun store hdel => .delete hrow hdel) rfl rfl

end Commands

end MerkleVault.Socket.Stock
