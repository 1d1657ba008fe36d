import MerkleVault.App.Reveal
import MerkleVault.Sqlite.Versions

/-! # Concurrent Rotations and Rollbacks

`get_secret_by_handle` reads the row of a secret and its versions in two statements, the aggregate is
rotated in memory, and `put_secret` writes it back with no check that it is still the stored one.  A
command whose two reads saw one and the same secret is safe: when another rotation has overtaken it,
the number of its new version is taken and the transaction fails on the unique index.  A command that
read the row before another rotation and the versions after it deprecates the wrong version and
leaves two active ones.

* `versions_of_reachable`: without such torn reads there is one active version, the current one, and
  no returned rotation is lost;
* `torn_read_forks`: with one there are two. -/

namespace MerkleVault.App.ConcurrentVersions

open MerkleVault.Types MerkleVault.External MerkleVault.Lib.Program MerkleVault.Audit.Integrity
open MerkleVault.Secrets.Aggregate MerkleVault.Sqlite.Tables MerkleVault.Sqlite.Versions
open MerkleVault.App.Context MerkleVault.App.SecretCommands MerkleVault.App.IdentitySections
open MerkleVault.App.AuditDurability MerkleVault.App.AuditCoverage MerkleVault.App.Reveal

/-! ### The monitor -/

/-- What a rotation or rollback has read, drawn and written. -/
structure Progress where
  row : Option SecretRow
  seen : Option Secret
  drawn : Option SecretVersionId
  put : Option SecretVersion

namespace Progress

/-- What an action tells a command. -/
def next {β : Type} (m : Progress) : Op β → β → Progress
  | .query (.selectSecretRow _), .ok row => { m with row := row }
  | .query (.loadVersionsForSecret _), .ok vs => { m with seen := m.row.map (secretOf · vs) }
  | .newUuid, u => { m with drawn := some ⟨u⟩ }
  | .write (.putSecret s), .ok () => { m with drawn := none, put := s.currentVersion }
  | _, _ => m

/-- The secret is the one seen, rotated to a new version with the identifier drawn and the next
number. -/
structure Rotates (m : Progress) (sec : Secret) (new : SecretVersion) (now : Rfc3339Timestamp)
    (s : Secret) : Prop where
  seen : m.seen = some sec
  drawn : m.drawn = some new.id
  parent : new.secretId = sec.id
  active : new.isActive = true
  number : new.versionNo = maxVersionNo sec.versions + 1
  rotate : sec.rotate new retainCount now = .ok s

/-- Versions are loaded for the row read, and the only write is that of the rotated secret. -/
def allowed {β : Type} (m : Progress) : Op β → Prop
  | .query (.loadVersionsForSecret id) => m.row.map (·.id) = some id
  | .write w => ∃ sec new now s, w = .putSecret s ∧ Rotates m sec new now s
  | _ => True

/-- A write that goes through makes the new version the current one. -/
def expects {β : Type} (m : Progress) : Op β → β → Prop
  | .write (.putSecret s), .ok () => ∃ sec v, m.seen = some sec ∧ s.currentVersion = some v ∧
      v.versionNo = maxVersionNo sec.versions + 1
  | _, _ => True

end Progress

/-- The rules of one rotation or rollback. -/
def progress : Monitor Op Progress where
  init := ⟨none, none, none, none⟩
  allowed := Progress.allowed
  expects := Progress.expects
  next := Progress.next

/-! ### The commands conform -/

/-- A returned rotation or rollback has put the version with the number that it answers. -/
def Answered (m : Progress) (r : Except AppError Reply) : Prop :=
  ∀ reply, r = .ok reply → ∃ v, m.put = some v ∧
    (reply = .rotated v.versionNo ∨ reply = .rolledBack v.versionNo)

theorem idle_of {β : Type} {op : Op β} (ha : ∀ m : Progress, m.allowed op)
    (hn : ∀ (m : Progress) r, m.next op r = m) : Idle progress.rules op := by
  refine fun m => ⟨ha m, ?_⟩
  rintro r m' ⟨-, rfl⟩
  exact hn m r

theorem idle_isUnsealed : Idle progress.rules (.identity .isUnsealed) :=
  idle_of (fun _ => trivial) fun _ _ => rfl

theorem idle_port {β : Type} (p : Port β) : Idle progress.rules (.port p) :=
  idle_of (fun _ => trivial) fun _ _ => rfl

theorem loadSecret_conforms {handle : Handle} {m : Progress} :
    Conforms progress (loadSecret handle).run m fun m' r => ∀ sec, r = .ok sec →
      m'.seen = some sec ∧ m'.drawn = m.drawn ∧ m'.put = m.put := by
  unfold loadSecret getSecretByHandle
  simp only [query, wp_except_bind, wp_attempt]
  refine ⟨trivial, ?_⟩
  rintro row _ ⟨-, rfl⟩
  rcases row with e | _ | row
  · exact fun sec h => absurd h error_ne_ok
  · exact fun sec h => absurd h error_ne_ok
  · simp only [Except.mapError, wp_except_bind, wp_attempt]
    refine ⟨rfl, ?_⟩
    rintro vs _ ⟨-, rfl⟩
    cases vs with
    | error e => exact fun sec h => absurd h error_ne_ok
    | ok vs =>
      intro sec hsec
      obtain rfl := Except.ok.inj hsec
      exact ⟨rfl, rfl, rfl⟩

/-- The end of both commands: the rotated secret is put and the entry committed. -/
theorem put_conforms {m : Progress} {sec s : Secret} {new : SecretVersion} {now : Rfc3339Timestamp}
    (h : m.Rotates sec new now s) {params : Types.Sensitivity → Audit.Writer.AppendParams}
    {reply : Reply}
    (hreply : reply = .rotated (maxVersionNo sec.versions + 1) ∨
      reply = .rolledBack (maxVersionNo sec.versions + 1)) :
    Conforms progress (do
      write (.putSecret s)
      let hmacKey ← requireHmacKey
      auditCommit (params s.sensitivity) hmacKey
      return reply : Handler Reply).run m Answered := by
  rw [Conforms, wp_except_bind, write, wp_attempt]
  refine ⟨⟨sec, new, now, s, rfl, h⟩, ?_⟩
  rintro r _ ⟨hexp, rfl⟩
  cases r with
  | error e => exact fun reply h => absurd h error_ne_ok
  | ok u =>
    obtain ⟨sec', v, hseen, hcur, hno⟩ := hexp
    obtain rfl : sec' = sec := Option.some.inj (hseen.symm.trans h.seen)
    have herr : ∀ e : AppError, Answered (m.next (.write (.putSecret s)) (.ok u)) (.error e) :=
      fun e reply h => absurd h error_ne_ok
    have hkey : Still progress.rules requireHmacKey :=
      still_bind (still_call (idle_of (fun _ => trivial) fun _ _ => rfl)) fun _ => still_orThrow _ _
    have haudit : ∀ p key, Still progress.rules (auditCommit p key) := fun p key =>
      still_attempt (idle_of (fun _ => trivial) fun _ _ => rfl)
    refine wp_still_bind hkey (fun key => ?_) herr
    refine wp_still_bind (haudit _ _) (fun _ => ?_) herr
    rintro reply' hreply'
    obtain rfl := Except.ok.inj hreply'
    exact ⟨v, hcur, by rwa [hno]⟩

theorem newUuid_conforms {α : Type} {m : Progress} {f : Uuid → Handler α}
    {Q : Progress → Except AppError α → Prop}
    (h : ∀ u, Conforms progress (f u).run { m with drawn := some ⟨u⟩ } Q) :
    Conforms progress (call .newUuid >>= f).run m Q := by
  simp only [Conforms, wp_except_bind, wp_call]
  refine ⟨trivial, ?_⟩
  rintro u _ ⟨-, rfl⟩
  exact h u

theorem rotate_conforms (E : Env) (cmd : RotateSecretCommand) :
    Conforms progress (cmd.execute E).run progress.init Answered := by
  have herr : ∀ (m : Progress) (e : AppError), Answered m (.error e) := fun m e reply => nofun
  unfold RotateSecretCommand.execute
  refine wp_still_bind (still_requireUnsealed idle_isUnsealed) (fun _ => ?_) (herr _)
  rw [wp_except_bind]
  refine loadSecret_conforms.mono fun m r hr => ?_
  cases r with
  | error e => exact herr m e
  | ok sec =>
    obtain ⟨hseen, -, -⟩ := hr sec rfl
    refine wp_still_bind (still_decodePayload _ _) (fun decoded => ?_) (herr _)
    refine wp_still_bind (still_encryptBlob (idle_port _) _ _ _) (fun blob => ?_) (herr _)
    refine newUuid_conforms fun u => ?_
    refine wp_still_bind (still_call (idle_port _)) (fun versionTime => ?_) (herr _)
    refine wp_still_bind (still_call (idle_port _)) (fun now => ?_) (herr _)
    rw [wp_except_bind, wp_ofExcept]
    refine ⟨fun s hs => ?_, fun e _ => herr _ _⟩
    exact put_conforms (m := { m with drawn := some ⟨u⟩ }) ⟨hseen, rfl, rfl, rfl, rfl, hs⟩ (.inl rfl)

theorem rollback_conforms (cmd : RollbackSecretCommand) :
    Conforms progress cmd.execute.run progress.init Answered := by
  have herr : ∀ (m : Progress) (e : AppError), Answered m (.error e) := fun m e reply => nofun
  unfold RollbackSecretCommand.execute
  refine wp_still_bind (still_requireUnsealed idle_isUnsealed) (fun _ => ?_) (herr _)
  rw [wp_except_bind]
  refine loadSecret_conforms.mono fun m r hr => ?_
  cases r with
  | error e => exact herr m e
  | ok sec =>
    obtain ⟨hseen, -, -⟩ := hr sec rfl
    simp only
    split
    · have hkey : Still progress.rules requireHmacKey :=
        still_bind (still_call (idle_of (fun _ => trivial) fun _ _ => rfl)) fun _ => still_orThrow _ _
      refine wp_still_bind hkey (fun key => ?_) (herr _)
      refine wp_still_bind (still_attempt (idle_of (fun _ => trivial) fun _ _ => rfl)) (fun _ => ?_)
        (herr _)
      exact herr _ _
    · refine newUuid_conforms fun u => ?_
      refine wp_still_bind (still_call (idle_port _)) (fun now => ?_) (herr _)
      rw [wp_except_bind, wp_ofExcept]
      refine ⟨fun s hs => ?_, fun e _ => herr _ _⟩
      unfold Secret.rollbackTo at hs
      split at hs
      · cases hs
      · next target htarget =>
        exact put_conforms (m := { m with drawn := some ⟨u⟩ }) ⟨hseen, rfl, rfl, rfl, rfl, hs⟩
          (.inr rfl)

/-! ### The invariant -/

/-- What a command has seen: the stored secret, or one that another rotation has overtaken. -/
structure Snapshot (st : Store) (handle : Handle) (sec : Secret) : Prop where
  sorted : sec.versions.Pairwise fun a b => a.versionNo ≤ b.versionNo
  nodup : (sec.versions.map (·.id)).Nodup
  known : sec.versions.map (·.id) ⊆ st.versions.map (·.id)
  view : (∃ row, st.selectSecretRow handle = some row ∧ sec = loaded st row) ∨
    ∃ r ∈ st.versions, r.secretId = sec.id ∧ r.versionNo = maxVersionNo sec.versions + 1

/-- The version is stored; only its deprecation may have changed. -/
def Kept (st : Store) (w : SecretVersion) : Prop :=
  ∃ v ∈ st.versions, v = { w with deprecatedAt := v.deprecatedAt }

/-- The handle has a secret with a current version, and the identifiers in use were issued. -/
structure Ready (handle : Handle) (s : AppState) : Prop where
  keys : Keys s.store
  current : ∃ row v, s.store.selectSecretRow handle = some row ∧ IsCurrent s.store row v
  issued : ∀ v ∈ s.store.versions, v.id.inner ∈ s.issued

/-- What a command knows of the store. -/
structure Tracks (handle : Handle) (s : AppState) (m : Progress) : Prop where
  seen : ∀ sec, m.seen = some sec → Snapshot s.store handle sec
  drawn : ∀ id, m.drawn = some id → id.inner ∈ s.issued ∧ id ∉ s.store.versions.map (·.id)
  put : ∀ w, m.put = some w → Kept s.store w

/-- The tables are sound, every command knows them and no two hold one version id. -/
structure Sound (handle : Handle) (s : AppState) (ms : List Progress) : Prop where
  ready : Ready handle s
  tracks : ∀ (i : ℕ) m, ms[i]? = some m → Tracks handle s m
  distinct : ∀ (i j : ℕ) m m' id, ms[i]? = some m → ms[j]? = some m' → m.drawn = some id →
    m'.drawn = some id → i = j

/-- Where a command loads versions, the row that it has read is still the stored one. -/
def WholeRead (handle : Handle) (m : Progress) (s : AppState) {β : Type} : Op β → Prop
  | .query (.loadVersionsForSecret _) => m.row = s.store.selectSecretRow handle
  | _ => True

section Steps

variable {handle : Handle} {s s' : AppState} {m m' : Progress} {ms : List Progress} {i : ℕ}

/-- One command moves on. -/
theorem Sound.set (h : Sound handle s ms) (hready : Ready handle s')
    (hothers : ∀ (j : ℕ) n, j ≠ i → ms[j]? = some n → Tracks handle s' n) (hm' : Tracks handle s' m')
    (hdrawn : ∀ id, m'.drawn = some id → ∀ (j : ℕ) n, j ≠ i → ms[j]? = some n → n.drawn ≠ some id) :
    Sound handle s' (ms.set i m') := by
  have hget : ∀ {j : ℕ} {n : Progress}, (ms.set i m')[j]? = some n →
      (j = i ∧ n = m') ∨ (j ≠ i ∧ ms[j]? = some n) := by
    intro j n hj
    rw [List.getElem?_set] at hj
    split_ifs at hj with hij
    · exact .inl ⟨hij.symm, (Option.some.inj hj).symm⟩
    · exact .inr ⟨Ne.symm hij, hj⟩
  refine ⟨hready, ?_, ?_⟩
  · intro j n hj
    rcases hget hj with ⟨-, rfl⟩ | ⟨hne, hj⟩
    · exact hm'
    · exact hothers j n hne hj
  · intro j k n n' id hj hk hn hn'
    rcases hget hj with ⟨rfl, rfl⟩ | ⟨hne, hoj⟩
    · rcases hget hk with ⟨rfl, -⟩ | ⟨hne, hok⟩
      · rfl
      · exact absurd hn' (hdrawn id hn k n' hne hok)
    · rcases hget hk with ⟨rfl, rfl⟩ | ⟨-, hok⟩
      · exact absurd hn (hdrawn id hn' j n hne hoj)
      · exact h.distinct j k n n' id hoj hok hn hn'

/-! ### Steps that write nothing -/

theorem Snapshot.congr {st st' : Store} {sec : Secret} (h : Snapshot st handle sec)
    (hs : st'.secrets = st.secrets) (hv : st'.versions = st.versions) :
    Snapshot st' handle sec := by
  refine ⟨h.sorted, h.nodup, by rw [hv]; exact h.known, ?_⟩
  rw [select_congr hs, hv]
  simp only [loaded_congr hv]
  exact h.view

theorem Ready.congr (h : Ready handle s) (hs : s'.store.secrets = s.store.secrets)
    (hv : s'.store.versions = s.store.versions) (hi : s.issued ⊆ s'.issued) : Ready handle s' := by
  obtain ⟨row, v, hrow, hcur⟩ := h.current
  refine ⟨⟨?_, ?_, ?_⟩, ⟨row, v, ?_, ?_⟩, ?_⟩
  · rw [hs]
    exact h.keys.secretIds
  · rw [hs]
    exact h.keys.handles
  · rw [hv]
    exact h.keys.versionIds
  · rw [select_congr hs]
    exact hrow
  · refine ⟨?_, hcur.parent, hcur.named, hcur.active, ?_⟩
    · rw [hv]
      exact hcur.stored
    · rw [hv]
      exact hcur.newest
  · rw [hv]
    exact fun v hmem => hi (h.issued v hmem)

theorem Tracks.congr (h : Tracks handle s m) (hs : s'.store.secrets = s.store.secrets)
    (hv : s'.store.versions = s.store.versions) (hi : s.issued ⊆ s'.issued) :
    Tracks handle s' m := by
  refine ⟨fun sec hsec => (h.seen sec hsec).congr hs hv, fun id hid => ?_, fun w hw => ?_⟩
  · rw [hv]
    exact ⟨hi (h.drawn id hid).1, (h.drawn id hid).2⟩
  · rw [Kept, hv]
    exact h.put w hw

/-- A whole read is a snapshot. -/
theorem snapshot_loaded {row : SecretRow} (h : Ready handle s)
    (hrow : s.store.selectSecretRow handle = some row) :
    Snapshot s.store handle (loaded s.store row) :=
  ⟨load_sorted s.store row.id, load_nodup h.keys.versionIds row.id, load_ids_subset row.id,
    .inl ⟨row, hrow, rfl⟩⟩

/-- A step after which the command has seen, drawn and put what it had before. -/
theorem Sound.same (h : Sound handle s ms) (hm : ms[i]? = some m) (hready : Ready handle s')
    (htracks : ∀ n, Tracks handle s n → Tracks handle s' n) (hseen : m'.seen = m.seen)
    (hdrawn : m'.drawn = m.drawn) (hput : m'.put = m.put) : Sound handle s' (ms.set i m') := by
  have ht := htracks m (h.tracks i m hm)
  refine h.set hready (fun j n _ hj => htracks n (h.tracks j n hj)) ?_ ?_
  · exact ⟨by rw [hseen]; exact ht.seen, by rw [hdrawn]; exact ht.drawn, by rw [hput]; exact ht.put⟩
  · intro id hid j n hne hj hn
    rw [hdrawn] at hid
    exact hne (h.distinct j i n m id hj hm hn hid)

/-- **A step that writes nothing**, in a command whose reads are whole. -/
theorem Sound.read {K : Crates} {β : Type} {op : Op β} {r : β} (h : Sound handle s ms)
    (hm : ms[i]? = some m) (ha : m.allowed op) (hx : exec K op s r s') (hw : writeOf op = none)
    (hg : WholeRead handle m s op) : Sound handle s' (ms.set i (m.next op r)) := by
  obtain ⟨hs, hv, hissued⟩ := exec_rows hx hw
  have hsub : s.issued ⊆ s'.issued := by
    rw [hissued]
    exact List.subset_append_right _ _
  have hready := h.ready.congr hs hv hsub
  have htracks : ∀ n, Tracks handle s n → Tracks handle s' n := fun n hn => hn.congr hs hv hsub
  have hsame : (m.next op r).seen = m.seen → (m.next op r).drawn = m.drawn →
      (m.next op r).put = m.put → Sound handle s' (ms.set i (m.next op r)) :=
    h.same hm hready htracks
  cases op with
  | write w => cases hw
  | newUuid =>
    -- The identifier is new to the store and to the other commands.
    have hfresh : r ∉ s.issued := hx.1
    have ht := htracks m (h.tracks i m hm)
    refine h.set hready (fun j n _ hj => htracks n (h.tracks j n hj)) ⟨ht.seen, ?_, ht.put⟩ ?_
    · intro id hid
      obtain rfl := Option.some.inj hid
      refine ⟨by rw [hissued]; exact List.mem_cons_self, fun hmem => hfresh ?_⟩
      rw [hv] at hmem
      obtain ⟨v, hmem, hid⟩ := List.mem_map.mp hmem
      rw [show r = v.id.inner from (congrArg SecretVersionId.inner hid).symm]
      exact h.ready.issued v hmem
    · intro id hid j n _ hj hn
      obtain rfl := Option.some.inj hid
      exact hfresh ((h.tracks j n hj).drawn _ hn).1
  | query q =>
    cases q with
    | loadVersionsForSecret id =>
      obtain ⟨rfl, fault, rfl⟩ := hx
      cases fault with
      | some e => exact hsame rfl rfl rfl
      | none =>
        have ht := h.tracks i m hm
        refine h.set hready (fun j n _ hj => htracks n (h.tracks j n hj)) ⟨?_, ht.drawn, ht.put⟩ ?_
        · intro sec hsec
          obtain ⟨row, hrow, rfl⟩ := Option.map_eq_some_iff.mp hsec
          have hid : row.id = id := by
            have ha' : m.row.map (·.id) = some id := ha
            rw [hrow] at ha'
            exact Option.some.inj ha'
          subst hid
          exact snapshot_loaded h.ready (Eq.trans (Eq.symm hg) hrow)
        · intro id hid j n hne hj hn
          exact hne (h.distinct j i n m id hj hm hn hid)
    | selectSecretRow handle =>
      cases r with
      | ok row => exact hsame rfl rfl rfl
      | error e => exact hsame rfl rfl rfl
    | pinnedHead => exact hsame rfl rfl rfl
    | getNamespaceByLabel label => exact hsame rfl rfl rfl
    | getNamespaceById id => exact hsame rfl rfl rfl
    | getNamespacePolicy id => exact hsame rfl rfl rfl
    | listCompanionDevices => exact hsame rfl rfl rfl
  | identity o => exact hsame rfl rfl rfl
  | readHmacKey => exact hsame rfl rfl rfl
  | writeHmacKey key => exact hsame rfl rfl rfl
  | auditCommit params key => exact hsame rfl rfl rfl
  | installHead pinned => exact hsame rfl rfl rfl
  | registerUseToken key token => exact hsame rfl rfl rfl
  | consumeUseToken key handle => exact hsame rfl rfl rfl
  | port p => exact hsame rfl rfl rfl

/-! ### The write -/

/-- The put of a rotation that another one has overtaken fails on the unique index. -/
theorem overtaken_put_fails {st st' : Store} {sec sec' : Secret} {new r : SecretVersion}
    {now : Rfc3339Timestamp} (hsnap : Snapshot st handle sec)
    (hrot : sec.rotate new retainCount now = .ok sec') (hnew : new.id ∉ st.versions.map (·.id))
    (hr : r ∈ st.versions) (hparent : r.secretId = sec.id) (hno : r.versionNo = new.versionNo) :
    st.putSecret sec' ≠ .ok st' := by
  intro hput
  obtain ⟨-, -, rfl⟩ := rotate_ok hsnap.sorted hsnap.nodup hrot
  obtain ⟨st₁, vs, -, hvs, -⟩ := putSecret_ok hput
  have hnodup := written_nodup sec.currentVersionId now hsnap.nodup
    fun hmem => hnew (hsnap.known hmem)
  obtain ⟨-, hfree⟩ := upsertVersions_ok hnodup hvs
  exact hfree new (by simp) hnew r hr hparent hno

section Write

variable {row : SecretRow} {new : SecretVersion} {now : Rfc3339Timestamp} {sec' : Secret}
  {st' : Store}

/-- Version rows keep their identifier, parent and number. -/
theorem rotated_keeps (hk : Keys s.store) (hnew : new.id ∉ s.store.versions.map (·.id))
    (hrot : (loaded s.store row).rotate new retainCount now = .ok sec')
    (hput : s.store.putSecret sec' = .ok st') {v : SecretVersion} (hv : v ∈ s.store.versions) :
    ∃ v' ∈ st'.versions, v' = { v with deprecatedAt := v'.deprecatedAt } := by
  exact ⟨_, (mem_rotated_versions hk hnew hrot hput).mpr (.inr ⟨v, hv, rfl⟩), rewritten_eq _ _ _ v⟩

/-- Every snapshot is overtaken by a rotation of the stored secret. -/
theorem Snapshot.rotated (hk : Keys s.store) (hrow : s.store.selectSecretRow handle = some row)
    (hnew : new.id ∉ s.store.versions.map (·.id))
    (hno : new.versionNo = maxVersionNo (loaded s.store row).versions + 1)
    (hrot : (loaded s.store row).rotate new retainCount now = .ok sec')
    (hput : s.store.putSecret sec' = .ok st') {sec : Secret} (h : Snapshot s.store handle sec) :
    Snapshot st' handle sec := by
  refine ⟨h.sorted, h.nodup, ?_, .inr ?_⟩
  · intro id hid
    obtain ⟨v, hv, rfl⟩ := List.mem_map.mp (h.known hid)
    obtain ⟨v', hv', he⟩ := rotated_keeps hk hnew hrot hput hv
    exact List.mem_map.mpr ⟨v', hv', by rw [he]⟩
  · rcases h.view with ⟨row', hrow', rfl⟩ | ⟨r, hr, hparent, hnumber⟩
    · obtain rfl : row' = row := Option.some.inj (hrow'.symm.trans hrow)
      exact ⟨_, (mem_rotated_versions hk hnew hrot hput).mpr (.inl rfl), rfl, hno⟩
    · obtain ⟨r', hr', he⟩ := rotated_keeps hk hnew hrot hput hr
      refine ⟨r', hr', ?_, ?_⟩
      · rw [he]
        exact hparent
      · rw [he]
        exact hnumber

theorem Kept.rotated (hk : Keys s.store) (hnew : new.id ∉ s.store.versions.map (·.id))
    (hrot : (loaded s.store row).rotate new retainCount now = .ok sec')
    (hput : s.store.putSecret sec' = .ok st') {w : SecretVersion} (h : Kept s.store w) :
    Kept st' w := by
  obtain ⟨v, hv, he⟩ := h
  obtain ⟨v', hv', he'⟩ := rotated_keeps hk hnew hrot hput hv
  refine ⟨v', hv', ?_⟩
  rw [he', he]

end Write

/-- **A put that goes through** is that of the stored secret: the new version becomes the current
one, and all other snapshots are overtaken. -/
theorem Sound.write {sec sec' : Secret} {new : SecretVersion} {now : Rfc3339Timestamp} {st' : Store}
    (h : Sound handle s ms) (hm : ms[i]? = some m) (hr : m.Rotates sec new now sec')
    (hput : s.store.putSecret sec' = .ok st') :
    sec'.currentVersion = some new ∧ Sound handle { s with store := st' }
      (ms.set i { m with drawn := none, put := sec'.currentVersion }) := by
  have ht := h.tracks i m hm
  have hsnap := ht.seen sec hr.seen
  obtain ⟨hissued, hnew⟩ := ht.drawn new.id hr.drawn
  have hcur := currentVersion_rotate hsnap.sorted hsnap.nodup (fun hmem => hnew (hsnap.known hmem))
    hr.rotate
  refine ⟨hcur, ?_⟩
  rcases hsnap.view with ⟨row, hrow, rfl⟩ | ⟨r, hr', hparent, hno⟩
  · have hk := h.ready.keys
    obtain ⟨row', v, hrow', hv⟩ := h.ready.current
    obtain rfl : row' = row := Option.some.inj (hrow'.symm.trans hrow)
    have hmem := ((select_iff hk).mp hrow).1
    have htracks : ∀ n, Tracks handle s n → (∀ id, n.drawn = some id → id ≠ new.id) →
        Tracks handle { s with store := st' } n := by
      intro n hn hne
      refine ⟨fun sec hsec => (hn.seen sec hsec).rotated hk hrow hnew hr.number hr.rotate hput, ?_,
        fun w hw => (hn.put w hw).rotated hk hnew hr.rotate hput⟩
      intro id hid
      refine ⟨(hn.drawn id hid).1, fun hmem => ?_⟩
      obtain ⟨w, hw, rfl⟩ := List.mem_map.mp hmem
      rcases (mem_rotated_versions hk hnew hr.rotate hput).mp hw with rfl | ⟨r, hr', rfl⟩
      · exact hne _ hid rfl
      · exact (hn.drawn _ hid).2 (List.mem_map.mpr ⟨r, hr', (rewritten_id _ _ _ r).symm⟩)
    refine h.set ⟨hk.rotated hmem hnew hr.rotate hput, ⟨_, _, select_rotated hk hrow hnew hr.rotate hput,
      hv.rotated hk hnew hr.active hr.rotate hput⟩, ?_⟩ ?_ ?_ (fun id => nofun)
    · intro w hw
      rcases (mem_rotated_versions hk hnew hr.rotate hput).mp hw with rfl | ⟨r, hr', rfl⟩
      · exact hissued
      · rw [rewritten_id]
        exact h.ready.issued r hr'
    · intro j n hne hj
      refine htracks n (h.tracks j n hj) ?_
      rintro id hid rfl
      exact hne (h.distinct j i n m _ hj hm hid hr.drawn)
    · have hnone := htracks { m with drawn := none } ⟨ht.seen, fun id => nofun, ht.put⟩
        fun id => nofun
      refine ⟨hnone.seen, fun id => nofun, fun w hw => ?_⟩
      obtain rfl : w = new := Option.some.inj (hw.symm.trans hcur)
      refine ⟨_, (mem_rotated_versions hk hnew hr.rotate hput).mpr (.inl rfl), ?_⟩
      rw [show row'.id = w.secretId from hr.parent.symm]
  · exact absurd hput (overtaken_put_fails hsnap hr.rotate hnew hr' hparent (hno.trans hr.number.symm))

end Steps

/-! ### Runs -/

/-- Any number of rotations and rollbacks of one handle. -/
inductive VersionClient (E : Env) (handle : Handle) : Prog Op (Except AppError Reply) → Prop
  | rotate (cmd : RotateSecretCommand) (h : cmd.handle = handle) :
      VersionClient E handle (cmd.execute E).run
  | rollback (cmd : RollbackSecretCommand) (h : cmd.handle = handle) :
      VersionClient E handle cmd.execute.run

/-- No rotation or rollback is committed between the two reads of a command. -/
def wholeReads (handle : Handle) : Guard AppState Op := fun hist s e =>
  WholeRead handle (progress.after hist) s e.op

/-- The stored secret has exactly one version with no `deprecated_at`: the one that its row names and
that a reveal picks. -/
def OneVersion (st : Store) (handle : Handle) : Prop :=
  ∃ row v, st.selectSecretRow handle = some row ∧
    (st.versions.filter fun w => w.secretId = row.id && w.isActive) = [v] ∧
    v.id = row.currentVersionId ∧
    (secretOf row (st.loadVersionsForSecret row.id)).activeVersion = some v

theorem Ready.oneVersion {handle : Handle} {s : AppState} (h : Ready handle s) :
    OneVersion s.store handle := by
  obtain ⟨row, v, hrow, hv⟩ := h.current
  refine ⟨row, v, hrow, List.perm_singleton.mp ?_, hv.named, hv.activeVersion⟩
  have hnodup : s.store.versions.Nodup := List.Nodup.of_map _ h.keys.versionIds
  rw [List.perm_ext_iff_of_nodup (hnodup.filter _) (List.nodup_singleton v)]
  intro w
  rw [List.mem_filter, List.mem_singleton]
  constructor
  · rintro ⟨hw, hact⟩
    rw [Bool.and_eq_true, decide_eq_true_eq] at hact
    by_contra hne
    have hold := (hv.newest w hw hact.1 hne).1
    rw [hact.2] at hold
    cases hold
  · rintro rfl
    exact ⟨hv.stored, by simp [hv.parent, hv.active]⟩

/-- A version is put by a put that goes through. -/
theorem put_next {β : Type} {op : Op β} {r : β} {m : Progress} {v : SecretVersion}
    (h : (m.next op r).put = some v) : m.put = some v ∨
      ∃ sec, (⟨op, r⟩ : Event Op) = ⟨.write (.putSecret sec), .ok ()⟩ ∧
        sec.currentVersion = some v := by
  cases op with
  | write w =>
    cases w with
    | putSecret sec =>
      cases r with
      | ok u => exact .inr ⟨sec, rfl, h⟩
      | error e => exact .inl h
    | _ => exact .inl h
  | query q =>
    cases q with
    | selectSecretRow handle => cases r <;> exact .inl h
    | loadVersionsForSecret id => cases r <;> exact .inl h
    | _ => exact .inl h
  | _ => exact .inl h

/-- What a command has put is in its history. -/
theorem put_after {hist : List (Event Op)} {v : SecretVersion}
    (h : (progress.after hist).put = some v) :
    ∃ sec, ⟨.write (.putSecret sec), .ok ()⟩ ∈ hist ∧ sec.currentVersion = some v := by
  induction hist using List.reverseRecOn with
  | nil => cases h
  | append_singleton hist e ih =>
    rw [Monitor.after_concat] at h
    rcases put_next h with hold | ⟨sec, he, hcur⟩
    · obtain ⟨sec, hmem, hcur⟩ := ih hold
      exact ⟨sec, List.mem_append_left _ hmem, hcur⟩
    · exact ⟨sec, List.mem_append_right _ (List.mem_singleton.mpr he.symm), hcur⟩

theorem getElem?_concat_init {ms : List Progress} {i : ℕ} {m : Progress}
    (h : (ms ++ [progress.init])[i]? = some m) : ms[i]? = some m ∨ m = progress.init := by
  rw [List.getElem?_append] at h
  split_ifs at h with hi
  · exact .inl h
  · rcases Nat.eq_zero_or_pos (i - ms.length) with hz | hpos
    · rw [hz] at h
      exact .inr (Option.some.inj h).symm
    · rw [List.getElem?_eq_none (by rw [List.length_singleton]; exact hpos)] at h
      cases h

theorem sound_of_reachable (E : Env) {handle : Handle} {s₀ : AppState} (h₀ : Ready handle s₀)
    {c : Config AppState Op (Except AppError Reply)}
    (h : Reachable (agentSystem E.toCrates (VersionClient E handle)) (wholeReads handle) s₀ c) :
    Sound handle c.state (monitors progress c.tasks) ∧
      ∀ t ∈ c.tasks, Conforms progress t.prog (progress.after t.hist) Answered := by
  refine h.rule progress (fun _ => Answered) (Sound handle) ⟨h₀, by simp, by simp⟩ ?_ ?_ ?_ ?_
  · intro p hp
    cases hp with
    | rotate cmd _ => exact rotate_conforms E cmd
    | rollback cmd _ => exact rollback_conforms cmd
  · intro s ms hI
    refine ⟨hI.ready, ?_, ?_⟩
    · intro i m hi
      rcases getElem?_concat_init hi with hi | rfl
      · exact hI.tracks i m hi
      · exact ⟨fun sec => nofun, fun id => nofun, fun w => nofun⟩
    · intro i j m m' id hi hj hm hm'
      rcases getElem?_concat_init hi with hi | rfl
      · rcases getElem?_concat_init hj with hj | rfl
        · exact hI.distinct i j m m' id hi hj hm hm'
        · cases hm'
      · cases hm
  · intro β op hist s s' r ms i hI hi hallowed hx hg
    cases hw : writeOf op with
    | none =>
      refine ⟨?_, hI.read hi hallowed hx hw hg⟩
      cases op with
      | write w => cases hw
      | _ => trivial
    | some w =>
      cases op with
      | write w =>
        obtain ⟨sec, new, now, sec', rfl, hrot⟩ := hallowed
        obtain ⟨fault, hx⟩ := hx
        rcases writeSection_eq hx with ⟨rfl, st', hput, rfl⟩ | ⟨⟨e, rfl⟩, rfl⟩
        · obtain ⟨hcur, hI'⟩ := hI.write hi hrot hput
          exact ⟨⟨sec, new, hrot.seen, hcur, hrot.number⟩, hI'⟩
        · exact ⟨trivial, hI.same hi hI.ready (fun _ hn => hn) rfl rfl rfl⟩
      | _ => cases hw
  · rintro s _ ms hI rfl
    exact ⟨hI.ready.congr rfl rfl (List.Subset.refl _), by simp, by simp⟩

/-- **Concurrent rotations and rollbacks.**  In every run on one handle whose commands read the
secret as a whole, the stored secret has one active version, the one that its row names and that a
reveal picks, and every command that returned has its version stored. -/
theorem versions_of_reachable (E : Env) (handle : Handle) (s₀ : AppState) (h₀ : Ready handle s₀)
    (c : Config AppState Op (Except AppError Reply))
    (h : Reachable (agentSystem E.toCrates (VersionClient E handle)) (wholeReads handle) s₀ c) :
    OneVersion c.state.store handle ∧
      ∀ t ∈ c.tasks, ∀ reply, t.prog = .ret (.ok reply) → ∃ sec v,
        ⟨.write (.putSecret sec), .ok ()⟩ ∈ t.hist ∧ sec.currentVersion = some v ∧
        (reply = .rotated v.versionNo ∨ reply = .rolledBack v.versionNo) ∧
        Kept c.state.store v := by
  obtain ⟨hsound, hconf⟩ := sound_of_reachable E h₀ h
  refine ⟨hsound.ready.oneVersion, fun t ht reply hend => ?_⟩
  have hans := hconf t ht
  rw [hend] at hans
  obtain ⟨v, hput, hreply⟩ := hans reply rfl
  obtain ⟨sec, hmem, hcur⟩ := put_after hput
  obtain ⟨i, hi⟩ := List.getElem?_of_mem (List.mem_map.mpr ⟨t, ht, rfl⟩ :
    progress.after t.hist ∈ monitors progress c.tasks)
  exact ⟨sec, v, hmem, hcur, hreply, (hsound.tracks i _ hi).put v hput⟩

/-! ### Runs of two rotations -/

/-- A rotation of the sample secret. -/
def sampleRotate : RotateSecretCommand :=
  ⟨⟨sampleUuid 1⟩, sampleHandle, [4, 5], .utf8, 1, sampleKey⟩

/-- Its first version. -/
def sampleFirst : SecretVersion := sampleVersion 1 (sampleBlob sampleKey [1, 2, 3])

/-- The version number `n` that a sample rotation makes, with the identifier number `n + 1`. -/
def sampleNext (n : UInt8) : SecretVersion :=
  { sampleVersion n (sampleBlob sampleKey [4, 5]) with id := ⟨sampleUuid (n + 1)⟩ }

/-- A vault with that version. -/
def sampleStart : AppState := sampleVault 1 [sampleFirst]

theorem sampleStart_ready : Ready sampleHandle sampleStart := by
  refine ⟨⟨by decide, by decide, by decide⟩, ⟨sampleRow 1, sampleFirst, rfl, ?_⟩, by decide⟩
  exact ⟨List.mem_cons_self, rfl, rfl, rfl, by decide⟩

/-- The vault after the first rotation. -/
def sampleRotated : AppState := { sampleVault 3 [setDeprecated epoch sampleFirst, sampleNext 2] with
  issued := sampleUuid 3 :: sampleStart.issued }

theorem sample_load_one : sampleStart.store.loadVersionsForSecret (sampleRow 1).id = [sampleFirst] := by
  simp [Store.loadVersionsForSecret, sampleStart, sampleVault, sampleFirst, sampleVersion, sampleRow]

theorem one_rotation_current : ∃ c : Config AppState Op (Except AppError Reply),
    Ready sampleHandle sampleStart ∧
    Reachable (agentSystem sampleEnv.toCrates (VersionClient sampleEnv sampleHandle))
      (wholeReads sampleHandle) sampleStart c ∧
    (∃ p hist, c.tasks = [⟨p, .ret (.ok (.rotated 2)), hist⟩]) ∧
    OneVersion c.state.store sampleHandle ∧
      ∀ t ∈ c.tasks, ∀ reply, t.prog = .ret (.ok reply) → ∃ sec v,
        ⟨.write (.putSecret sec), .ok ()⟩ ∈ t.hist ∧ sec.currentVersion = some v ∧
        (reply = .rotated v.versionNo ∨ reply = .rolledBack v.versionNo) ∧
        Kept c.state.store v := by
  let s₁ : AppState := { sampleStart with issued := sampleUuid 3 :: sampleStart.issued }
  obtain ⟨s₂, hx, -⟩ := first_commit sampleCrates
    (rotated sampleRotate.namespaceId sampleHandle .high) sampleKey (sampleCall 1).draw
    sampleRotated rfl
  have h₀ := Reachable.here (agentSystem sampleEnv.toCrates (VersionClient sampleEnv sampleHandle))
    (wholeReads sampleHandle) sampleStart
  have h₁ := h₀.start _ (.rotate sampleRotate rfl)
  have h₂ := h₁.act 0 rfl true sampleStart rfl trivial
  have h₃ := h₂.act 0 rfl (.ok (some (sampleRow 1))) sampleStart ⟨rfl, none, rfl⟩ trivial
  have h₄ := h₃.act 0 rfl (.ok [sampleFirst]) sampleStart
    ⟨rfl, none, by rw [← sample_load_one]; rfl⟩ rfl
  have h₅ := h₄.act 0 rfl (Vector.replicate 24 0) sampleStart rfl trivial
  have h₆ := h₅.act 0 rfl (sampleUuid 3) s₁ ⟨by decide, rfl⟩ trivial
  have h₇ := h₆.act 0 rfl epoch s₁ rfl trivial
  have h₈ := h₇.act 0 rfl epoch s₁ rfl trivial
  have h₉ := h₈.act 0 rfl (.ok ()) sampleRotated ⟨none, rfl⟩ trivial
  have h₁₀ := h₉.act 0 rfl (some sampleKey) sampleRotated ⟨rfl, rfl⟩ trivial
  have h₁₁ := h₁₀.act 0 rfl (.ok ()) s₂ ⟨_, _, hx⟩ trivial
  exact ⟨_, sampleStart_ready, h₁₁, ⟨_, _, rfl⟩,
    versions_of_reachable sampleEnv sampleHandle sampleStart sampleStart_ready _ h₁₁⟩

/-- The vault after the second rotation: two versions are active. -/
def sampleForked : AppState :=
  { sampleVault 4 [setDeprecated epoch sampleFirst, sampleNext 2, sampleNext 3] with
    issued := sampleUuid 4 :: sampleRotated.issued }

theorem sample_load_two : sampleRotated.store.loadVersionsForSecret (sampleRow 1).id =
    [setDeprecated epoch sampleFirst, sampleNext 2] := by
  have hfilter : (sampleRotated.store.versions.filter fun v => v.secretId = (sampleRow 1).id) =
      [setDeprecated epoch sampleFirst, sampleNext 2] := rfl
  rw [Store.loadVersionsForSecret, hfilter]
  exact List.mergeSort_of_pairwise (by decide)

/-- A rotation reads the row, another one is committed, and the first reads the versions: it
deprecates the version that the other one has deprecated already, and leaves two active ones. -/
theorem torn_read_forks : ∃ c : Config AppState Op (Except AppError Reply),
    Ready sampleHandle sampleStart ∧
    Reachable (agentSystem sampleEnv.toCrates (VersionClient sampleEnv sampleHandle)) unguarded
      sampleStart c ∧ ¬ OneVersion c.state.store sampleHandle := by
  let s₁ : AppState := { sampleStart with issued := sampleUuid 3 :: sampleStart.issued }
  let s₂ : AppState := { sampleRotated with issued := sampleUuid 4 :: sampleRotated.issued }
  have h₀ := Reachable.here (agentSystem sampleEnv.toCrates (VersionClient sampleEnv sampleHandle))
    unguarded sampleStart
  have h₁ := (h₀.start _ (.rotate sampleRotate rfl)).start _ (.rotate sampleRotate rfl)
  -- The first command reads the row.
  have h₂ := h₁.act 0 rfl true sampleStart rfl trivial
  have h₃ := h₂.act 0 rfl (.ok (some (sampleRow 1))) sampleStart ⟨rfl, none, rfl⟩ trivial
  -- The second runs up to its write.
  have h₄ := h₃.act 1 rfl true sampleStart rfl trivial
  have h₅ := h₄.act 1 rfl (.ok (some (sampleRow 1))) sampleStart ⟨rfl, none, rfl⟩ trivial
  have h₆ := h₅.act 1 rfl (.ok [sampleFirst]) sampleStart
    ⟨rfl, none, by rw [← sample_load_one]; rfl⟩ trivial
  have h₇ := h₆.act 1 rfl (Vector.replicate 24 0) sampleStart rfl trivial
  have h₈ := h₇.act 1 rfl (sampleUuid 3) s₁ ⟨by decide, rfl⟩ trivial
  have h₉ := h₈.act 1 rfl epoch s₁ rfl trivial
  have h₁₀ := h₉.act 1 rfl epoch s₁ rfl trivial
  have h₁₁ := h₁₀.act 1 rfl (.ok ()) sampleRotated ⟨none, rfl⟩ trivial
  -- The first reads the versions and goes on with the row that it has.
  have h₁₂ := h₁₁.act 0 rfl (.ok [setDeprecated epoch sampleFirst, sampleNext 2]) sampleRotated
    ⟨rfl, none, by rw [← sample_load_two]; rfl⟩ trivial
  have h₁₃ := h₁₂.act 0 rfl (Vector.replicate 24 0) sampleRotated rfl trivial
  have h₁₄ := h₁₃.act 0 rfl (sampleUuid 4) s₂ ⟨by decide, rfl⟩ trivial
  have h₁₅ := h₁₄.act 0 rfl epoch s₂ rfl trivial
  have h₁₆ := h₁₅.act 0 rfl epoch s₂ rfl trivial
  have h₁₇ := h₁₆.act 0 rfl (.ok ()) sampleForked ⟨none, rfl⟩ trivial
  refine ⟨_, sampleStart_ready, h₁₇, ?_⟩
  rintro ⟨row, v, hrow, hone, -⟩
  obtain rfl : sampleRow 4 = row := Option.some.inj hrow
  have htwo : (sampleForked.store.versions.filter fun w =>
      w.secretId = (sampleRow 4).id && w.isActive) = [sampleNext 2, sampleNext 3] := rfl
  rw [htwo] at hone
  cases hone

end MerkleVault.App.ConcurrentVersions
