import MerkleVault.Socket.Steps

/-! # Isolation of Consumers

A namespace may deny a program.  The gate that enforces this is passed for the namespace in the path
(put, rotate, rollback, delete) or for the one of the stored secret (reveal), and not at all by the
handlers that use secrets, while every handler finds the secret by its handle alone.  So a denied
program can change a secret of the namespace through the path of another one, and can use it where
its ciphertext opens under the key of the namespace that the body names.

`Reaches` says exactly which requests get to a secret of the namespace this way.

* `consumer_isolated`: a request is isolated from the namespace if and only if it does not reach it;
* `denied_peer_deletes`: a denied program deletes a secret of the namespace. -/

namespace MerkleVault.Socket.ConsumerIsolation

open MerkleVault.Types MerkleVault.External MerkleVault.Lib.Program MerkleVault.Audit.Writer
open MerkleVault.Secrets.Aggregate MerkleVault.Sqlite.Tables MerkleVault.Sqlite.Versions
open MerkleVault.App.Context MerkleVault.App.SecretCommands MerkleVault.App.UseCommands
open MerkleVault.App.Reveal MerkleVault.App.IdentitySections MerkleVault.App.AuditDurability
open MerkleVault.Audit.Integrity MerkleVault.Socket.Gate MerkleVault.Socket.Handlers
open MerkleVault.Socket.Proxy MerkleVault.Socket.Actions MerkleVault.Socket.Steps

/-! ### Isolation -/

/-- The policy of the namespace lists consumers, and the peer is none of them. -/
def Denied (s : AppState) (namespaceId : NamespaceId) (peer : PeerCredentials) : Prop :=
  ∃ policy, s.store.getNamespacePolicy namespaceId = some policy ∧ policy.allowedConsumers ≠ [] ∧
    ∀ path, peer.programPath = some path → consumersMatch policy.allowedConsumers path = false

/-- The plaintext is returned, written out or used as a credential. -/
def Leaves (plaintext : List UInt8) (hist : List (Event Op)) (r : Except Problem Response) : Prop :=
  (∃ response, r = .ok response ∧ response.reply = .revealed plaintext) ∨
  (∃ path a, ⟨.port (.writeFile path plaintext), a⟩ ∈ hist) ∨
  (∃ path, ⟨.port (.spawnFifoWriter path plaintext), ()⟩ ∈ hist) ∨
  ∃ spec a, ⟨.port (.httpRequest spec (buildHttpAuth none (some plaintext))), a⟩ ∈ hist

/-- A secret of the namespace is loaded, and a plaintext of its active version leaves. -/
def Discloses (E : Env) (namespaceId : NamespaceId) (hist : List (Event Op))
    (r : Except Problem Response) : Prop :=
  ∃ handle row vs v dek plaintext, row.namespaceId = namespaceId ∧
    ⟨.query (.selectSecretRow handle), .ok (some row)⟩ ∈ hist ∧
    ⟨.query (.loadVersionsForSecret row.id), .ok vs⟩ ∈ hist ∧
    (secretOf row vs).activeVersion = some v ∧ decryptBlob E dek v.blob = .ok plaintext ∧
    Leaves plaintext hist r

/-- The secrets of the namespace are stored as before. -/
def Unchanged (namespaceId : NamespaceId) (st st' : Store) : Prop :=
  ∀ row ∈ st.secrets, row.namespaceId = namespaceId →
    row ∈ st'.secrets ∧ st'.loadVersionsForSecret row.id = st.loadVersionsForSecret row.id

/-- No run of the request discloses or changes a secret of the namespace. -/
def Isolated (E : Env) (namespaceId : NamespaceId) (peer : PeerCredentials) (s : AppState)
    (q : Request) : Prop :=
  ∀ hist r s', Runs (exec E.toCrates) (q.serve E peer).run s hist r s' →
    ¬ Discloses E namespaceId hist r ∧ Unchanged namespaceId s.store s'.store

/-- The keys of the schema hold, the identifiers in use were issued, and there are more of them. -/
structure WellFormed (s : AppState) : Prop where
  keys : Keys s.store
  rows : ∀ row ∈ s.store.secrets, row.id.inner ∈ s.issued
  versions : ∀ v ∈ s.store.versions, v.id.inner ∈ s.issued
  room : ∃ u, u ∉ s.issued

/-! ### Requests that reach the namespace -/

/-- The path's namespace lets the peer pass, and the handle selects a secret of the other one. -/
structure Routed (namespaceId : NamespaceId) (peer : PeerCredentials) (s : AppState) (path : Uuid)
    (handleEncoded : String) (id : NamespaceId) (handle : Handle) (row : SecretRow) : Prop where
  unsealed : s.identity.isUnsealed = true
  parsed : NamespaceId.ofUuid path = some id
  passes : Passes s id peer
  decoded : Handle.fromStr handleEncoded = some handle
  selected : s.store.selectSecretRow handle = some row
  owner : row.namespaceId = namespaceId

/-- There is a next version number, and the current version is there. -/
structure Rotatable (secret : Secret) : Prop where
  number : maxVersionNo secret.versions < maxVersionNo secret.versions + 1
  current : ∃ v ∈ secret.versions, v.id = secret.currentVersionId

/-- The value can be encrypted for the handle. -/
def Encrypts (E : Env) (dek : Key) (handle : Handle) (value : List UInt8) : Prop :=
  ∃ nonce ciphertext, E.aeadEncrypt dek nonce value (handleAad handle) = .ok ciphertext ∧
    16 ≤ ciphertext.length

/-- The active version of the secret that the handle selects opens under the key of the namespace
that the body names. -/
structure Opened (E : Env) (namespaceId : NamespaceId) (s : AppState) (body : Uuid) (handle : Handle)
    (id : NamespaceId) (k : Key) (row : SecretRow) : Prop where
  unsealed : s.identity.isUnsealed = true
  parsed : NamespaceId.ofUuid body = some id
  key : s.hmacKey = some k
  selected : s.store.selectSecretRow handle = some row
  owner : row.namespaceId = namespaceId
  opens : ∃ v plaintext, (loaded s.store row).activeVersion = some v ∧
    decryptBlob E (namespaceDek E k id) v.blob = .ok plaintext

/-- The token is known, for the handle, fresh at some time and not consumed. -/
def Usable (s : AppState) (token : String) (handle : Handle) : Prop :=
  ∃ now, (consumeUseTokenSection token handle now s).1 = .ok ()

/-- The entry can be appended and stored. -/
def Commits (K : Crates) (params : AppendParams) (key : Key) (s : AppState) : Prop :=
  ∃ draw log entry pinned store, append K s.auditLog params key.toList draw = .ok (log, entry, pinned) ∧
    s.store.commitAuditEntry entry pinned = .ok store

/-- The request gets to a secret of the namespace past its gate. -/
def Reaches (E : Env) (namespaceId : NamespaceId) (peer : PeerCredentials) (s : AppState) :
    Request → Prop
  | .put _ => False
  | .rotate q => ∃ id handle row k value,
      Routed namespaceId peer s q.namespaceId q.handleEncoded id handle row ∧ s.hmacKey = some k ∧
      payload E q.valueFormat (textBytes q.newValue) = some value ∧
      Encrypts E (namespaceDek E k id) handle value ∧ Rotatable (loaded s.store row)
  | .rollback q => ∃ id handle row,
      Routed namespaceId peer s q.namespaceId q.handleEncoded id handle row ∧
      q.slashCommand = true ∧ (∃ v ∈ (loaded s.store row).versions, v.versionNo = q.targetVersion) ∧
      Rotatable (loaded s.store row)
  | .delete q => ∃ id handle row,
      Routed namespaceId peer s q.namespaceId q.handleEncoded id handle row ∧ q.slashCommand = true
  | .reveal _ => False
  | .issueUseToken _ => False
  | .writeTempfile q => ∃ id k row, Opened E namespaceId s q.namespaceId q.handle id k row ∧
      Usable s q.useToken q.handle
  | .writeFifo q => ∃ id k row, Opened E namespaceId s q.namespaceId q.handle id k row ∧
      Usable s q.useToken q.handle ∧
      Commits E.toCrates (used .writeTempfile id q.handle row.sensitivity) k s
  | .httpRequest q => ∃ handle id k row, q.secretHandle = some handle ∧
      Opened E namespaceId s q.namespaceId handle id k row
  | .httpDownload q => ∃ handle id k row, q.secretHandle = some handle ∧
      Opened E namespaceId s q.namespaceId handle id k row
  | .httpUpload q => ∃ handle id k row, q.secretHandle = some handle ∧
      Opened E namespaceId s q.namespaceId handle id k row

/-! ### What is stored of the namespace -/

section Store

variable {namespaceId : NamespaceId} {s s' : AppState} {st st' : Store}

theorem unchanged_same (h : SameVault s s') : Unchanged namespaceId s.store s'.store := by
  intro row hrow _
  refine ⟨by rwa [h.secrets], ?_⟩
  rw [Store.loadVersionsForSecret, h.versions]
  rfl

theorem Unchanged.same (h : Unchanged namespaceId st s.store) (hs : SameVault s s') :
    Unchanged namespaceId st s'.store := by
  intro row hrow hns
  obtain ⟨hmem, hload⟩ := h row hrow hns
  refine ⟨by rwa [hs.secrets], ?_⟩
  rw [← hload, Store.loadVersionsForSecret, hs.versions]
  rfl

theorem load_of_filter {id : SecretId} (h : (st'.versions.filter fun v => v.secretId = id) =
    st.versions.filter fun v => v.secretId = id) :
    st'.loadVersionsForSecret id = st.loadVersionsForSecret id := by
  rw [Store.loadVersionsForSecret, h]
  rfl

/-- Secrets of two namespaces are two secrets. -/
theorem id_ne_of_namespace (hk : Keys st) {row other : SecretRow} (hrow : row ∈ st.secrets)
    (hother : other ∈ st.secrets) (h : row.namespaceId ≠ other.namespaceId) : row.id ≠ other.id := by
  intro he
  exact h (by rw [List.inj_on_of_nodup_map hk.secretIds hrow hother he])

theorem unchanged_rotated (hk : Keys st) {row : SecretRow} {new : SecretVersion}
    {now : Rfc3339Timestamp} {secret : Secret} (hrow : row ∈ st.secrets)
    (hns : row.namespaceId ≠ namespaceId) (hnew : new.id ∉ st.versions.map (·.id))
    (hrot : (loaded st row).rotate new retainCount now = .ok secret)
    (hput : st.putSecret secret = .ok st') : Unchanged namespaceId st st' := by
  rintro other hother rfl
  have hne : other.id ≠ row.id := id_ne_of_namespace hk hother hrow (Ne.symm hns)
  refine ⟨?_, load_of_filter ?_⟩
  · rw [rotated_secrets hk hrow hrot hput]
    exact List.mem_map.mpr ⟨other, hother, if_neg hne⟩
  · rw [rotated_versions hk hnew hrot hput, List.filter_append, List.filter_map]
    have hparent : ((fun v : SecretVersion => decide (v.secretId = other.id)) ∘
        rewritten (st.loadVersionsForSecret row.id) row.currentVersionId now) =
        fun v => decide (v.secretId = other.id) := by
      funext v
      rw [Function.comp_apply, rewritten_secretId]
    have hkeep : ∀ v ∈ st.versions.filter fun v => v.secretId = other.id,
        rewritten (st.loadVersionsForSecret row.id) row.currentVersionId now v = v := by
      intro v hv
      have hv' : v.secretId = other.id := by simpa using (List.mem_filter.mp hv).2
      exact rewritten_of_other (by rwa [hv'])
    rw [hparent, List.map_congr_left hkeep, List.map_id']
    simp [Ne.symm hne]

theorem unchanged_deleted (hk : Keys st) {row : SecretRow} (hrow : row ∈ st.secrets)
    (hns : row.namespaceId ≠ namespaceId) (hdel : st.deleteSecret row.id = .ok st') :
    Unchanged namespaceId st st' := by
  rintro other hother rfl
  have hne : other.id ≠ row.id := id_ne_of_namespace hk hother hrow (Ne.symm hns)
  rw [deleteSecret_ok hdel]
  refine ⟨List.mem_filter.mpr ⟨hother, by simpa using hne⟩, load_of_filter ?_⟩
  rw [List.filter_filter]
  refine List.filter_congr fun v _ => ?_
  by_cases hv : v.secretId = other.id
  · simp [hv, hne]
  · simp [hv]

theorem unchanged_put {secret : Secret} {v : SecretVersion}
    (hid : secret.id ∉ st.secrets.map (·.id)) (hv : v.id ∉ st.versions.map (·.id))
    (hversions : secret.versions = [v]) (hput : st.putSecret secret = .ok st') :
    Unchanged namespaceId st st' := by
  intro row hrow _
  obtain ⟨-, hsecrets, hvs⟩ := put_new hid hv hversions hput
  have hne : secret.id ≠ row.id := fun he => hid (List.mem_map.mpr ⟨row, hrow, he.symm⟩)
  refine ⟨?_, load_of_filter ?_⟩
  · rw [hsecrets]
    exact List.mem_append_left _ hrow
  · rw [hvs, List.filter_append]
    simp [hne]

end Store

/-! ### Rotations that go through -/

theorem rotatable_of_rotate {secret secret' : Secret} {new : SecretVersion} {now : Rfc3339Timestamp}
    (hno : new.versionNo = maxVersionNo secret.versions + 1)
    (h : secret.rotate new retainCount now = .ok secret') : Rotatable secret := by
  unfold Secret.rotate at h
  split_ifs at h with hle hcur
  refine ⟨?_, by simpa using hcur⟩
  rw [← hno]
  exact UInt32.not_le.mp hle

theorem rotate_of_rotatable {secret : Secret} (h : Rotatable secret) (new : SecretVersion)
    (hno : new.versionNo = maxVersionNo secret.versions + 1) (now : Rfc3339Timestamp) :
    ∃ secret', secret.rotate new retainCount now = .ok secret' := by
  have hle : ¬new.versionNo ≤ maxVersionNo secret.versions := by
    rw [hno]
    exact UInt32.not_le.mpr h.number
  have hcur : ¬(!secret.versions.any fun v => v.id = secret.currentVersionId) = true := by
    simpa using h.current
  exact ⟨_, by rw [Secret.rotate, if_neg hle, if_neg hcur]⟩

/-- A blob means that the value could be encrypted. -/
theorem encryptBlob_eq {E : Env} {M : Type*} {R : Rules Op M} {m : M}
    (hidle : Idle R (.port .randomBytes24)) (dek : Key) (handle : Handle) (value : List UInt8) :
    Wp R (encryptBlob E dek handle value).run m fun m' r => m' = m ∧
      ∀ blob, r = .ok blob → Encrypts E dek handle value := by
  unfold encryptBlob
  refine wp_still_bind (still_call hidle) (fun nonce => ?_) fun e => ⟨rfl, fun _ h => nomatch h⟩
  rw [wp_except_bind, wp_ofExcept]
  refine ⟨fun ciphertext henc => ?_, fun e _ => ⟨rfl, fun _ h => nomatch h⟩⟩
  show Wp R (orThrow _ _ >>= _ : Handler PrivateBlob).run m _
  rw [wp_except_bind, wp_orThrow]
  refine ⟨fun split hsplit => ⟨rfl, fun blob _ => ⟨nonce, ciphertext, henc, ?_⟩⟩,
    fun _ => ⟨rfl, fun _ h => nomatch h⟩⟩
  unfold splitTag at hsplit
  split_ifs at hsplit with hlen
  exact hlen

/-! ### Isolated requests -/

section Isolated

variable {E : Env} {namespaceId : NamespaceId} {peer : PeerCredentials} {s : AppState}

/-- The response carries no plaintext. -/
def NoPlaintext (response : Response) : Prop := ∀ plaintext, response.reply ≠ .revealed plaintext

theorem not_leaves {plaintext : List UInt8} {hist : List (Event Op)} {r : Except Problem Response}
    (hsilent : ∀ e ∈ hist, silent e.op) (hr : ∀ response, r = .ok response → NoPlaintext response) :
    ¬ Leaves plaintext hist r := by
  rintro (⟨response, hok, hreply⟩ | ⟨path, a, he⟩ | ⟨path, he⟩ | ⟨spec, a, he⟩)
  · exact hr response hok plaintext hreply
  · exact hsilent _ he
  · exact hsilent _ he
  · exact hsilent _ he

/-- Requests that export nothing and return no plaintext. -/
theorem isolated_of_silent {q : Request} (honly : Only silent (q.serve E peer).run)
    (hreply : Returns E (q.serve E peer) NoPlaintext)
    (hwp : Wp (agentRules E) (q.serve E peer).run s fun s' _ => Unchanged namespaceId s.store s'.store) :
    Isolated E namespaceId peer s q := by
  intro hist r s' hrun
  have hsilent := (only_runs (I := fun _ => True) (E := fun e => silent e.op)
    (fun hop _ _ => ⟨trivial, hop⟩) honly trivial hrun).2
  have hr := wp_runs (Q := fun _ r => ∀ response, r = .ok response → NoPlaintext response)
    (hreply s) hrun
  refine ⟨?_, wp_runs (Q := fun s' _ => Unchanged namespaceId s.store s'.store) hwp hrun⟩
  rintro ⟨_, _, _, _, _, _, -, -, -, -, -, hleaves⟩
  exact not_leaves hsilent hr hleaves

theorem unchanged_of_quiet {ε α : Type} {x : Cmd Op ε α} (h : Only quiet x.run) :
    Wp (agentRules E) x.run s fun s' _ => Unchanged namespaceId s.store s'.store :=
  (wp_quiet h).mono fun _ _ hs => unchanged_same hs

/-- A lookup in the run finds what the store had before. -/
def Shows (s : AppState) (handle : Handle) (e : Event Op) : Prop :=
  ∀ h row, e = ⟨.query (.selectSecretRow h), .ok row⟩ →
    h = handle ∧ row = s.store.selectSecretRow h

theorem shows_of_uses {handle : Handle} {ε α : Type} {x : Cmd Op ε α} {hist : List (Event Op)}
    {r : Except ε α} {s' : AppState} (honly : Only (uses handle) x.run)
    (hrun : Runs (exec E.toCrates) x.run s hist r s') : ∀ e ∈ hist, Shows s handle e := by
  refine (only_runs (I := SameVault s) ?_ honly (SameVault.refl s) hrun).2
  intro β op s₁ s₂ r hop hs hx
  refine ⟨hs.trans (exec_quiet hop.1 hx), ?_⟩
  rintro h row he
  cases he
  obtain ⟨rfl, fault, hr⟩ := hx
  obtain ⟨-, hok⟩ := faulty_ok hr.symm
  refine ⟨hop.2, ?_⟩
  rw [← Except.ok.inj hok, Query.answer, select_congr hs.secrets]

/-- Requests whose handle selects no secret of the namespace. -/
theorem isolated_of_other {q : Request} {handle : Handle} (honly : Only (uses handle) (q.serve E peer).run)
    (hother : ∀ row, s.store.selectSecretRow handle = some row → row.namespaceId ≠ namespaceId) :
    Isolated E namespaceId peer s q := by
  intro hist r s' hrun
  refine ⟨?_, wp_runs (Q := fun s' _ => Unchanged namespaceId s.store s'.store)
    (unchanged_of_quiet (honly.mono And.left)) hrun⟩
  rintro ⟨h, row, _, _, _, _, hns, hsel, -⟩
  obtain ⟨rfl, hrow⟩ := shows_of_uses honly hrun _ hsel _ _ rfl
  exact hother row hrow.symm hns

/-- Requests that do not get to export. -/
theorem isolated_of_guarded {q : Request} (honly : Only quiet (q.serve E peer).run)
    (hwp : Wp (guardedRules (exec E.toCrates) silent) (q.serve E peer).run s
      fun _ r => ∀ response, r = .ok response → NoPlaintext response) :
    Isolated E namespaceId peer s q := by
  intro hist r s' hrun
  obtain ⟨hr, hsilent⟩ := wp_guarded_runs hwp hrun
  refine ⟨?_, wp_runs (Q := fun s' _ => Unchanged namespaceId s.store s'.store)
    (unchanged_of_quiet honly) hrun⟩
  rintro ⟨_, _, _, _, _, _, -, -, -, -, -, hleaves⟩
  exact not_leaves hsilent hr hleaves

/-! ### Put, rotate, rollback and delete -/

/-- What a command leaves of the namespace, the quiet end of its handler leaves too. -/
theorem unchanged_then {ε α β : Type} {st : Store} {x : Cmd Op ε α} {f : α → Cmd Op ε β}
    (hx : Wp (agentRules E) x.run s fun s' _ => Unchanged namespaceId st s'.store)
    (hf : ∀ a, Only quiet (f a).run) :
    Wp (agentRules E) (x >>= f).run s fun s' _ => Unchanged namespaceId st s'.store := by
  rw [wp_except_bind]
  refine hx.mono fun s' r h => ?_
  cases r with
  | error e => exact h
  | ok a => exact (wp_quiet (hf a)).mono fun _ _ hs => h.same hs

theorem WellFormed.fresh (h : WellFormed s) {u : Uuid} (hu : u ∉ s.issued) :
    ⟨u⟩ ∉ s.store.versions.map (·.id) := by
  intro hmem
  obtain ⟨v, hv, he⟩ := List.mem_map.mp hmem
  have hi := h.versions v hv
  rw [he] at hi
  exact hu hi

theorem unchanged_refl : Unchanged namespaceId s.store s.store := unchanged_same (SameVault.refl s)

/-- A transaction that leaves the namespace alone, and its entry. -/
theorem write_unchanged {st : Store} {w : Write} {params : AppendParams} {reply : Reply}
    (h : Unchanged namespaceId st s.store)
    (hw : ∀ store, w.apply s.store = .ok store → Unchanged namespaceId st store) :
    Wp (agentRules E) (do
      write w
      let hmacKey ← requireHmacKey
      auditCommit params hmacKey
      return reply : Handler Reply).run s fun s' _ => Unchanged namespaceId st s'.store :=
  (wp_write_record (I := fun s' => Unchanged namespaceId st s'.store) (J := fun _ => True) h
    (fun store hstore => ⟨hw store hstore, trivial⟩) (fun h hs => h.same hs)
    fun _ _ => trivial).mono fun _ _ hr => hr.1

theorem putCommand_unchanged (hw : WellFormed s) (cmd : PutSecretCommand) :
    Wp (agentRules E) (cmd.execute E).run s fun s' _ => Unchanged namespaceId s.store s'.store := by
  have h₀ : Unchanged namespaceId s.store s.store := unchanged_refl
  unfold PutSecretCommand.execute
  refine wp_still_bind (still_requireUnsealed idle_isUnsealed) (fun _ => ?_) fun _ => h₀
  refine wp_still_bind (still_decodePayload _ _) (fun decoded => ?_) fun _ => h₀
  refine wp_still_bind (still_encryptBlob (idle_port _) _ _ _) (fun blob => ?_) fun _ => h₀
  refine wp_newUuid fun placeholder _ => ?_
  refine wp_newUuid fun versionId hversion => ?_
  refine wp_still_bind (still_call (idle_port _)) (fun versionTime => ?_) fun _ => h₀
  refine wp_newUuid fun secretId hsecret => ?_
  refine wp_still_bind (still_call (idle_port _)) (fun now => ?_) fun _ => h₀
  rw [wp_except_bind, wp_ofExcept]
  refine ⟨fun secret hnew => ?_, fun _ _ => h₀⟩
  obtain rfl := secretNew_ok hnew
  change Wp (agentRules E) _ _ _
  refine write_unchanged h₀ fun store hput => ?_
  have hv : versionId ∉ s.issued := fun hmem => hversion (List.mem_cons_of_mem _ hmem)
  have hid : ⟨secretId⟩ ∉ s.store.secrets.map (·.id) := by
    intro hmem
    obtain ⟨row, hrow, he⟩ := List.mem_map.mp hmem
    have hi := hw.rows row hrow
    rw [he] at hi
    exact hsecret (List.mem_cons_of_mem _ (List.mem_cons_of_mem _ hi))
  exact unchanged_put hid (hw.fresh hv) rfl hput

theorem isolated_put (hw : WellFormed s) (q : PutSecretRequest) :
    Isolated E namespaceId peer s (.put q) := by
  have h₀ : Unchanged namespaceId s.store s.store := unchanged_refl
  refine isolated_of_silent (silent_serve trivial) ?_ ?_
  · refine returns_last fun _ => returns_last fun _ => returns_last fun _ => returns_last fun _ =>
      returns_last fun _ => returns_last fun _ => returns_last fun _ => ?_
    refine returns_bind (F := fun reply => ∀ p, reply ≠ .revealed p) (returns_withError ?_)
      fun reply hreply => returns_last fun _ => returns_pure hreply
    refine returns_last fun _ => returns_last fun _ => returns_last fun _ => returns_last fun _ =>
      returns_last fun _ => returns_last fun _ => returns_last fun _ => returns_last fun _ =>
      returns_last fun _ => returns_last fun _ => returns_last fun _ => returns_last fun _ => ?_
    exact returns_pure fun _ => nofun
  · show Wp (agentRules E) (putSecret E peer q).run s _
    unfold putSecret
    refine wp_still_bind (still_orThrow _ _) (fun id => ?_) fun _ => h₀
    refine wp_still_bind (still_check _ _) (fun _ => ?_) fun _ => h₀
    refine wp_still_bind (still_orThrow _ _) (fun category => ?_) fun _ => h₀
    refine wp_still_bind (still_withError (still_attempt (idle_query _))) (fun ns => ?_) fun _ => h₀
    refine wp_still_bind (still_orThrow _ _) (fun ns => ?_) fun _ => h₀
    refine wp_still_bind (still_orThrow _ _) (fun secretName => ?_) fun _ => h₀
    refine wp_spec_bind (deriveDekBytes_eq _) (fun dek _ => ?_) fun _ => h₀
    refine unchanged_then (by rw [runApp, wp_withError]; exact putCommand_unchanged hw _) fun _ => ?_
    exact only_except_bind (only_call trivial) fun _ => only_pure _

/-- A rotation changes the namespace only if it can rotate a secret of it. -/
theorem rotateCommand_unchanged (hw : WellFormed s) (cmd : RotateSecretCommand)
    (h : ∀ row value, s.identity.isUnsealed = true → s.store.selectSecretRow cmd.handle = some row →
      row.namespaceId = namespaceId → payload E cmd.valueFormat cmd.plaintext = some value →
      Encrypts E cmd.dekBytes cmd.handle value → ¬ Rotatable (loaded s.store row)) :
    Wp (agentRules E) (cmd.execute E).run s fun s' _ => Unchanged namespaceId s.store s'.store := by
  have h₀ : Unchanged namespaceId s.store s.store := unchanged_refl
  unfold RotateSecretCommand.execute
  refine wp_spec_bind requireUnsealed_eq (fun _ hunsealed => ?_) fun _ => h₀
  refine wp_spec_bind (loadSecret_eq _) (fun sec hsec => ?_) fun _ => h₀
  obtain ⟨row, hrow, rfl⟩ := hsec
  refine wp_spec_bind (decodePayload_eq _ _) (fun value hvalue => ?_) fun _ => h₀
  refine wp_spec_bind (encryptBlob_eq (idle_port _) _ _ _) (fun blob henc => ?_) fun _ => h₀
  refine wp_newUuid fun u hu => ?_
  refine wp_still_bind (still_call (idle_port _)) (fun versionTime => ?_) fun _ => h₀
  refine wp_still_bind (still_call (idle_port _)) (fun now => ?_) fun _ => h₀
  rw [wp_except_bind, wp_ofExcept]
  refine ⟨fun secret hrot => ?_, fun _ _ => h₀⟩
  have hns : row.namespaceId ≠ namespaceId := fun hns =>
    h row value hunsealed hrow hns hvalue henc (rotatable_of_rotate rfl hrot)
  change Wp (agentRules E) _ _ _
  refine write_unchanged h₀ fun store hput => ?_
  exact unchanged_rotated hw.keys ((select_iff hw.keys).mp hrow).1 hns (hw.fresh hu) hrot hput

theorem isolated_rotate (hw : WellFormed s) {q : RotateSecretRequest}
    (h : ¬ Reaches E namespaceId peer s (.rotate q)) : Isolated E namespaceId peer s (.rotate q) := by
  have h₀ : Unchanged namespaceId s.store s.store := unchanged_refl
  refine isolated_of_silent (silent_serve trivial) ?_ ?_
  · refine returns_last fun _ => returns_last fun _ => returns_last fun _ => returns_last fun _ => ?_
    refine returns_bind (F := fun reply => ∀ p, reply ≠ .revealed p) (returns_withError ?_)
      fun reply hreply => returns_last fun _ => returns_last fun _ => returns_pure hreply
    refine returns_last fun _ => returns_last fun _ => returns_last fun _ => returns_last fun _ =>
      returns_last fun _ => returns_last fun _ => returns_last fun _ => returns_last fun _ =>
      returns_last fun _ => returns_last fun _ => returns_last fun _ => ?_
    exact returns_pure fun _ => nofun
  · show Wp (agentRules E) (rotateSecret E peer q).run s _
    unfold rotateSecret
    rw [wp_except_bind, wp_orThrow]
    refine ⟨fun id hid => ?_, fun _ => h₀⟩
    refine wp_spec_bind (check_eq _ _) (fun _ hpasses => ?_) fun _ => h₀
    rw [wp_except_bind, wp_ofExcept]
    refine ⟨fun handle hhandle => ?_, fun _ _ => h₀⟩
    refine wp_spec_bind (deriveDekBytes_eq _) (fun dek hdek => ?_) fun _ => h₀
    obtain ⟨k, hk, rfl⟩ := hdek
    refine unchanged_then ?_ fun _ => ?_
    · rw [runApp, wp_withError]
      refine rotateCommand_unchanged hw _ fun row value hunsealed hrow hns hvalue henc hrot => ?_
      exact h ⟨id, handle, row, k, value,
        ⟨hunsealed, hid, hpasses, parseHandleEncoded_ok hhandle, hrow, hns⟩, hk, hvalue, henc, hrot⟩
    · exact only_except_bind (only_secretVersionCount reads_quiet) fun _ =>
        only_except_bind (only_call trivial) fun _ => only_pure _

theorem requireSlash_eq (slashCommand : Bool) (operation command purpose : String) :
    Wp (agentRules E) (requireSlash slashCommand operation command purpose).run s
      fun s' r => s' = s ∧ ∀ a, r = .ok a → slashCommand = true := by
  unfold requireSlash
  split_ifs with hslash
  · exact ⟨rfl, fun _ _ => hslash⟩
  · exact ⟨rfl, fun _ h => nomatch h⟩

/-- A rollback changes the namespace only if it can roll back a secret of it. -/
theorem rollbackCommand_unchanged (hw : WellFormed s) (cmd : RollbackSecretCommand)
    (h : ∀ row, s.identity.isUnsealed = true → s.store.selectSecretRow cmd.handle = some row →
      row.namespaceId = namespaceId →
      (∃ v ∈ (loaded s.store row).versions, v.versionNo = cmd.targetVersion) →
      ¬ Rotatable (loaded s.store row)) :
    Wp (agentRules E) cmd.execute.run s fun s' _ => Unchanged namespaceId s.store s'.store := by
  have h₀ : Unchanged namespaceId s.store s.store := unchanged_refl
  unfold RollbackSecretCommand.execute
  refine wp_spec_bind requireUnsealed_eq (fun _ hunsealed => ?_) fun _ => h₀
  refine wp_spec_bind (loadSecret_eq _) (fun sec hsec => ?_) fun _ => h₀
  obtain ⟨row, hrow, rfl⟩ := hsec
  split_ifs
  · exact unchanged_of_quiet (only_deny inert_quiet _ _ _ _ _ _)
  · refine wp_newUuid fun u hu => ?_
    refine wp_still_bind (still_call (idle_port _)) (fun now => ?_) fun _ => h₀
    rw [wp_except_bind, wp_ofExcept]
    refine ⟨fun secret hroll => ?_, fun _ _ => h₀⟩
    unfold Secret.rollbackTo at hroll
    split at hroll
    · cases hroll
    · next target htarget =>
      have htarget' : target.versionNo = cmd.targetVersion := by simpa using List.find?_some htarget
      have hns : row.namespaceId ≠ namespaceId := fun hns =>
        h row hunsealed hrow hns ⟨target, List.mem_of_find?_eq_some htarget, htarget'⟩
          (rotatable_of_rotate rfl hroll)
      change Wp (agentRules E) _ _ _
      refine write_unchanged h₀ fun store hput => ?_
      exact unchanged_rotated hw.keys ((select_iff hw.keys).mp hrow).1 hns (hw.fresh hu) hroll hput

theorem isolated_rollback (hw : WellFormed s) {q : RollbackSecretRequest}
    (h : ¬ Reaches E namespaceId peer s (.rollback q)) :
    Isolated E namespaceId peer s (.rollback q) := by
  have h₀ : Unchanged namespaceId s.store s.store := unchanged_refl
  refine isolated_of_silent (silent_serve trivial) ?_ ?_
  · refine returns_last fun _ => returns_last fun _ => returns_last fun _ => returns_last fun _ => ?_
    refine returns_bind (F := fun reply => ∀ p, reply ≠ .revealed p) (returns_withError ?_)
      fun reply hreply => returns_last fun _ => returns_pure hreply
    refine returns_last fun _ => returns_last fun _ => ?_
    split_ifs
    · exact returns_last fun _ => returns_last fun _ => returns_throw _
    · refine returns_last fun _ => returns_last fun _ => returns_last fun _ => returns_last fun _ =>
        returns_last fun _ => returns_last fun _ => returns_pure fun _ => nofun
  · show Wp (agentRules E) (rollbackSecret peer q).run s _
    unfold rollbackSecret
    rw [wp_except_bind, wp_orThrow]
    refine ⟨fun id hid => ?_, fun _ => h₀⟩
    refine wp_spec_bind (check_eq _ _) (fun _ hpasses => ?_) fun _ => h₀
    rw [wp_except_bind, wp_ofExcept]
    refine ⟨fun handle hhandle => ?_, fun _ _ => h₀⟩
    refine wp_spec_bind (requireSlash_eq _ _ _ _) (fun _ hslash => ?_) fun _ => h₀
    refine unchanged_then ?_ fun _ => ?_
    · rw [runApp, wp_withError]
      refine rollbackCommand_unchanged hw _ fun row hunsealed hrow hns htarget hrot => ?_
      exact h ⟨id, handle, row,
        ⟨hunsealed, hid, hpasses, parseHandleEncoded_ok hhandle, hrow, hns⟩, hslash, htarget, hrot⟩
    · exact only_except_bind (only_call trivial) fun _ => only_pure _

theorem deleteCommand_unchanged (hw : WellFormed s) (cmd : DeleteSecretCommand)
    (h : s.identity.isUnsealed = true → ∀ row, s.store.selectSecretRow cmd.handle = some row →
      row.namespaceId ≠ namespaceId) :
    Wp (agentRules E) cmd.execute.run s fun s' _ => Unchanged namespaceId s.store s'.store := by
  have h₀ : Unchanged namespaceId s.store s.store := unchanged_refl
  unfold DeleteSecretCommand.execute
  refine wp_spec_bind requireUnsealed_eq (fun _ hunsealed => ?_) fun _ => h₀
  refine wp_spec_bind (loadSecret_eq _) (fun sec hsec => ?_) fun _ => h₀
  obtain ⟨row, hrow, rfl⟩ := hsec
  split_ifs
  · exact unchanged_of_quiet (only_deny inert_quiet _ _ _ _ _ _)
  · refine write_unchanged h₀ fun store hdel => ?_
    exact unchanged_deleted hw.keys ((select_iff hw.keys).mp hrow).1 (h hunsealed row hrow) hdel

theorem isolated_delete (hw : WellFormed s) {q : DeleteSecretRequest}
    (h : ¬ Reaches E namespaceId peer s (.delete q)) : Isolated E namespaceId peer s (.delete q) := by
  have h₀ : Unchanged namespaceId s.store s.store := unchanged_refl
  refine isolated_of_silent (silent_serve trivial) ?_ ?_
  · refine returns_last fun _ => returns_last fun _ => returns_last fun _ => returns_last fun _ =>
      returns_last fun _ => ?_
    refine returns_bind (F := fun reply => ∀ p, reply ≠ .revealed p) (returns_withError ?_)
      fun reply hreply => returns_pure hreply
    refine returns_last fun _ => returns_last fun _ => ?_
    split_ifs
    · exact returns_last fun _ => returns_last fun _ => returns_throw _
    · exact returns_last fun _ => returns_last fun _ => returns_last fun _ => returns_pure fun _ => nofun
  · show Wp (agentRules E) (deleteSecret peer q).run s _
    unfold deleteSecret
    rw [wp_except_bind, wp_orThrow]
    refine ⟨fun id hid => ?_, fun _ => h₀⟩
    refine wp_spec_bind (check_eq _ _) (fun _ hpasses => ?_) fun _ => h₀
    rw [wp_except_bind, wp_ofExcept]
    refine ⟨fun handle hhandle => ?_, fun _ _ => h₀⟩
    refine wp_spec_bind (requireSlash_eq _ _ _ _) (fun _ hslash => ?_) fun _ => h₀
    refine wp_still_bind still_secretVersionCount (fun count => ?_) fun _ => h₀
    refine unchanged_then ?_ fun _ => only_pure _
    rw [runApp, wp_withError]
    refine deleteCommand_unchanged hw _ fun hunsealed row hrow hns => ?_
    exact h ⟨id, handle, row, ⟨hunsealed, hid, hpasses, parseHandleEncoded_ok hhandle, hrow, hns⟩,
      hslash⟩

/-! ### Reveal and use-tokens -/

theorem Denied.not_passes (h : Denied s namespaceId peer) : ¬ Passes s namespaceId peer := by
  obtain ⟨policy, hpolicy, hne, hmatch⟩ := h
  intro hpasses
  have hok := hpasses policy hpolicy
  unfold enforceConsumerAllowlist at hok
  rw [if_neg (by simpa using hne)] at hok
  split at hok
  · next path hpath =>
    rw [hmatch path hpath] at hok
    cases hok
  · cases hok

/-- The gate of a reveal is that of the stored secret's namespace. -/
theorem reveal_denied (hdenied : Denied s namespaceId peer) {q : RevealRequest} {row : SecretRow}
    (hrow : s.store.selectSecretRow q.handle = some row) (hns : row.namespaceId = namespaceId) :
    Wp (agentRules E) (Handlers.reveal E peer q).run s fun _ r => ∀ response, r ≠ .ok response := by
  unfold Handlers.reveal
  split_ifs
  · exact fun _ => error_ne_ok
  · refine wp_still_bind (still_withError (still_requireUnsealed idle_isUnsealed)) (fun _ => ?_)
      fun _ _ => error_ne_ok
    rw [wp_except_bind, runApp, wp_withError]
    refine (loadSecret_eq _).mono ?_
    rintro s' r ⟨rfl, hr⟩
    cases r with
    | error e => exact fun _ => error_ne_ok
    | ok sec =>
      obtain ⟨row', hrow', rfl⟩ := hr sec rfl
      obtain rfl : row' = row := Option.some.inj (hrow'.symm.trans hrow)
      change Wp (agentRules E) _ _ _
      refine wp_spec_bind (check_eq _ _) (fun _ hpasses => ?_) fun _ _ => error_ne_ok
      have hpasses' : Passes s' row'.namespaceId peer := hpasses
      rw [hns] at hpasses'
      exact absurd hpasses' hdenied.not_passes

theorem isolated_reveal (hdenied : Denied s namespaceId peer) (q : RevealRequest) :
    Isolated E namespaceId peer s (.reveal q) := by
  by_cases hother : ∀ row, s.store.selectSecretRow q.handle = some row → row.namespaceId ≠ namespaceId
  · exact isolated_of_other ((about_reveal peer q).mono about_uses) hother
  · push Not at hother
    obtain ⟨row, hrow, hns⟩ := hother
    refine isolated_of_guarded ((about_reveal peer q).mono about_quiet) ?_
    refine Wp.guard ((about_reveal peer q).mono about_silent) ?_
    exact (reveal_denied hdenied hrow hns).mono fun _ _ hr response hok => absurd hok (hr response)

theorem isolated_issueUseToken (q : UseTokenRequest) :
    Isolated E namespaceId peer s (.issueUseToken q) := by
  refine isolated_of_silent ((about_issueUseToken q).mono about_silent) ?_
    (unchanged_of_quiet ((about_issueUseToken q).mono about_quiet))
  refine returns_last fun _ => returns_last fun _ => ?_
  refine returns_bind (F := fun reply => ∀ p, reply ≠ .revealed p) (returns_withError ?_)
    fun reply hreply => returns_pure hreply
  refine returns_last fun _ => returns_last fun _ => returns_last fun _ => returns_last fun _ =>
    returns_last fun _ => returns_last fun _ => returns_last fun _ => returns_last fun _ => ?_
  exact returns_pure fun _ => nofun

/-! ### Materialization -/

/-- What an opened secret shows of the state before. -/
structure OpenedFrom (E : Env) (s : AppState) (cmd : MaterializeCommand) (s' : AppState)
    (opened : Secret × List UInt8) : Prop where
  unsealed : s.identity.isUnsealed = true
  usable : Usable s cmd.useToken cmd.handle
  row : ∃ row v, s.store.selectSecretRow cmd.handle = some row ∧ opened.1 = loaded s.store row ∧
    (loaded s.store row).activeVersion = some v ∧ decryptBlob E cmd.dekBytes v.blob = .ok opened.2
  same : s' = { s with useTokens := s'.useTokens }

theorem openSecret_eq (cmd : MaterializeCommand) :
    Wp (agentRules E) (openSecret E cmd).run s fun s' r =>
      ∀ opened, r = .ok opened → OpenedFrom E s cmd s' opened := by
  unfold openSecret
  refine wp_spec_bind requireUnsealed_eq (fun _ hunsealed => ?_) fun _ _ h => nomatch h
  rw [wp_except_bind, wp_attempt]
  refine ⟨trivial, ?_⟩
  rintro r s₁ ⟨now, hconsume⟩
  have hs₁ := consumeUseTokenSection_eq hconsume
  cases r with
  | error e => exact fun _ h => nomatch h
  | ok u =>
    change Wp (agentRules E) _ _ _
    refine wp_spec_bind (loadSecret_eq _) (fun sec hsec => ?_) fun _ _ h => nomatch h
    obtain ⟨row, hrow, rfl⟩ := hsec
    rw [wp_except_bind, wp_orThrow]
    refine ⟨fun v hv => ?_, fun _ _ h => nomatch h⟩
    change Wp (agentRules E) _ _ _
    rw [wp_except_bind, wp_ofExcept]
    refine ⟨fun plaintext hplain => ?_, fun _ _ _ h => nomatch h⟩
    intro opened hopened
    obtain rfl := Except.ok.inj hopened
    have hstore : s₁.store = s.store := by rw [hs₁]
    rw [hstore] at hrow hv
    refine ⟨hunsealed, ⟨now, by rw [hconsume]⟩, ⟨row, v, hrow, by rw [hstore], hv, hplain⟩, hs₁⟩

theorem isolated_writeTempfile {q : MaterializeRequest}
    (h : ¬ Reaches E namespaceId peer s (.writeTempfile q)) :
    Isolated E namespaceId peer s (.writeTempfile q) := by
  by_cases hother : ∀ row, s.store.selectSecretRow q.handle = some row → row.namespaceId ≠ namespaceId
  · exact isolated_of_other (uses_materialize uses_writeTempfile q) hother
  push Not at hother
  obtain ⟨row, hrow, hns⟩ := hother
  refine isolated_of_guarded ((uses_materialize uses_writeTempfile q).mono And.left) ?_
  show Wp (guardedRules (exec E.toCrates) silent)
    (materialize E (App.UseCommands.writeTempfile E) q).run s _
  unfold materialize parseBodyNamespace
  rw [wp_except_bind, wp_orThrow]
  refine ⟨fun id hid => ?_, fun _ _ h => absurd h error_ne_ok⟩
  change Wp (guardedRules (exec E.toCrates) silent) _ _ _
  refine wp_spec_bind ((deriveDekBytes_eq _).guard (only_deriveDekBytes inert_silent _))
    (fun dek hdek => ?_) fun _ _ h => absurd h error_ne_ok
  obtain ⟨k, hk, rfl⟩ := hdek
  rw [wp_except_bind, runApp, wp_withError, App.UseCommands.writeTempfile, wp_except_bind]
  refine ((openSecret_eq _).guard ((about_openSecret _).mono about_silent)).mono fun s₁ r hr => ?_
  cases r with
  | error e => exact fun _ h => absurd h error_ne_ok
  | ok opened =>
    obtain ⟨hunsealed, husable, ⟨row', v, hrow', -, hv, hplain⟩, -⟩ := hr opened rfl
    obtain rfl : row' = row := Option.some.inj (hrow'.symm.trans hrow)
    exact absurd ⟨id, k, row', ⟨hunsealed, hid, hk, hrow, hns, v, opened.2, hv, hplain⟩, husable⟩ h

theorem commits_of_ok {K : Crates} {params : AppendParams} {key : Key} {draw : Draw}
    {fault : Option StorageError} {s' : AppState} {u : Unit}
    (h : auditCommitSection K params key draw fault s = (.ok u, s')) : Commits K params key s := by
  unfold auditCommitSection at h
  split at h
  · cases (Prod.mk.inj h).1
  · next log entry pinned happend =>
    split at h
    · cases (Prod.mk.inj h).1
    · next store hstore =>
      exact ⟨draw, log, entry, pinned, store, happend, (faulty_ok hstore).2⟩

theorem orCleanUp_eq {α : Type} {P : AppState → α → Prop} {x : Handler α} (path : String)
    (hx : Wp (agentRules E) x.run s fun s' r => ∀ a, r = .ok a → P s' a) :
    Wp (agentRules E) (orCleanUp path x).run s fun s' r => ∀ a, r = .ok a → P s' a := by
  unfold orCleanUp
  rw [wp_except_bind, wp_resultOf]
  refine hx.mono fun s' r hr => ?_
  cases r with
  | ok a =>
    intro a' ha'
    obtain rfl := Except.ok.inj ha'
    exact hr a rfl
  | error e =>
    change Wp (agentRules E) (call _ >>= _ : Handler α).run _ _
    rw [wp_except_bind, wp_call]
    exact ⟨trivial, fun _ _ _ _ h => nomatch h⟩

/-- A recorded materialization means that the entry could be committed. -/
theorem recordMaterialization_eq (cmd : MaterializeCommand) (secret : Secret) (path : String) :
    Wp (agentRules E) (recordMaterialization cmd secret path).run s fun _ r => ∀ a, r = .ok a →
      ∃ k, s.hmacKey = some k ∧
        Commits E.toCrates (used .writeTempfile cmd.namespaceId cmd.handle secret.sensitivity) k s := by
  unfold recordMaterialization
  rw [wp_except_bind]
  have hkey : Wp (agentRules E) (orCleanUp path requireHmacKey).run s fun s' r =>
      ∀ k, r = .ok k → s' = s ∧ s.hmacKey = some k :=
    orCleanUp_eq path (requireHmacKey_eq.mono fun _ _ h k hk => ⟨h.1, h.2 k hk⟩)
  refine hkey.mono fun s' r hr => ?_
  cases r with
  | error e => exact fun _ h => nomatch h
  | ok k =>
    obtain ⟨rfl, hk⟩ := hr k rfl
    change Wp (agentRules E) (orCleanUp path _).run s' _
    refine orCleanUp_eq path ?_
    rw [auditCommit, wp_attempt]
    refine ⟨trivial, ?_⟩
    rintro r s₁ ⟨draw, fault, hx⟩ a ha
    cases r with
    | error e => cases ha
    | ok u => exact ⟨k, hk, commits_of_ok hx⟩

theorem isolated_writeFifo {q : MaterializeRequest}
    (h : ¬ Reaches E namespaceId peer s (.writeFifo q)) :
    Isolated E namespaceId peer s (.writeFifo q) := by
  by_cases hother : ∀ row, s.store.selectSecretRow q.handle = some row → row.namespaceId ≠ namespaceId
  · exact isolated_of_other (uses_materialize uses_writeFifo q) hother
  push Not at hother
  obtain ⟨row, hrow, hns⟩ := hother
  refine isolated_of_guarded ((uses_materialize uses_writeFifo q).mono And.left) ?_
  show Wp (guardedRules (exec E.toCrates) silent)
    (materialize E (App.UseCommands.writeFifo E) q).run s _
  unfold materialize parseBodyNamespace
  rw [wp_except_bind, wp_orThrow]
  refine ⟨fun id hid => ?_, fun _ _ h => absurd h error_ne_ok⟩
  change Wp (guardedRules (exec E.toCrates) silent) _ _ _
  refine wp_spec_bind ((deriveDekBytes_eq _).guard (only_deriveDekBytes inert_silent _))
    (fun dek hdek => ?_) fun _ _ h => absurd h error_ne_ok
  obtain ⟨k, hk, rfl⟩ := hdek
  rw [wp_except_bind, runApp, wp_withError, App.UseCommands.writeFifo, wp_except_bind]
  refine ((openSecret_eq _).guard ((about_openSecret _).mono about_silent)).mono fun s₁ r hr => ?_
  cases r with
  | error e => exact fun _ h => absurd h error_ne_ok
  | ok opened =>
    obtain ⟨hunsealed, husable, ⟨row', v, hrow', hsecret, hv, hplain⟩, hs₁⟩ := hr opened rfl
    obtain rfl : row' = row := Option.some.inj (hrow'.symm.trans hrow)
    have hport : ∀ {β : Type} (p : Port β), silent (.port p) →
        Still (guardedRules (exec E.toCrates) silent) (call (.port p) : Handler β) :=
      fun p hp => Still.guard (still_call (idle_port p)) (only_call hp)
    change Wp (guardedRules (exec E.toCrates) silent) _ _ _
    refine wp_still_bind (hport _ trivial) (fun bytes => ?_) fun _ _ h => absurd h error_ne_ok
    refine wp_still_bind (hport _ trivial) (fun dir => ?_) fun _ _ h => absurd h error_ne_ok
    refine wp_still_bind (Still.guard (still_attempt (idle_port _)) (only_attempt trivial))
      (fun _ => ?_) fun _ _ h => absurd h error_ne_ok
    rw [wp_except_bind]
    refine ((recordMaterialization_eq _ _ _).guard
      ((about_recordMaterialization _ _ _).mono about_silent)).mono fun s₂ r hr => ?_
    cases r with
    | error e => exact fun _ h => absurd h error_ne_ok
    | ok u =>
      -- The entry was committed, so the pipe's writer would start.
      obtain ⟨k', hk', hcommits⟩ := hr u rfl
      rw [hs₁] at hk' hcommits
      obtain rfl : k = k' := Option.some.inj (hk.symm.trans hk')
      rw [hsecret] at hcommits
      exact absurd ⟨id, k, row', ⟨hunsealed, hid, hk, hrow, hns, v, opened.2, hv, hplain⟩, husable,
        hcommits⟩ h

/-! ### HTTP -/

theorem secretPlaintext_eq (id : NamespaceId) (handle : Handle) :
    Wp (agentRules E) (secretPlaintext E id (some handle)).run s fun s' r => s' = s ∧
      ∀ p, r = .ok p → ∃ k row v plaintext, s.hmacKey = some k ∧
        s.store.selectSecretRow handle = some row ∧ (loaded s.store row).activeVersion = some v ∧
        decryptBlob E (namespaceDek E k id) v.blob = .ok plaintext := by
  unfold secretPlaintext
  refine wp_spec_bind (deriveDekBytes_eq _) (fun dek hdek => ?_)
    fun _ => ⟨rfl, fun _ h => absurd h error_ne_ok⟩
  obtain ⟨k, hk, rfl⟩ := hdek
  refine wp_spec_bind (P := fun _ => ∃ row v plaintext, s.store.selectSecretRow handle = some row ∧
    (loaded s.store row).activeVersion = some v ∧
    decryptBlob E (namespaceDek E k id) v.blob = .ok plaintext) ?_ (fun p hp => ⟨rfl, fun _ _ => ?_⟩)
    fun _ => ⟨rfl, fun _ h => absurd h error_ne_ok⟩
  · unfold resolveKeyBytes
    rw [wp_except_bind, runApp, wp_withError]
    refine (getSecretByHandle_eq handle).mono ?_
    rintro s' r ⟨rfl, hr⟩
    cases r with
    | error e => exact ⟨rfl, fun _ h => absurd h error_ne_ok⟩
    | ok sec =>
      change Wp (agentRules E) _ _ _
      rw [wp_except_bind, wp_orThrow]
      refine ⟨fun sec' hsec => ?_, fun _ => ⟨rfl, fun _ h => absurd h error_ne_ok⟩⟩
      obtain ⟨row, hrow, rfl⟩ := Option.map_eq_some_iff.mp ((hr sec rfl).trans hsec)
      change Wp (agentRules E) _ _ _
      rw [wp_except_bind, wp_orThrow]
      refine ⟨fun v hv => ?_, fun _ => ⟨rfl, fun _ h => absurd h error_ne_ok⟩⟩
      change Wp (agentRules E) _ _ _
      rw [wp_ofExcept]
      exact ⟨fun plaintext hplain => ⟨rfl, fun _ _ => ⟨row, v, plaintext, hrow, hv, hplain⟩⟩,
        fun _ _ => ⟨rfl, fun _ h => absurd h error_ne_ok⟩⟩
  · obtain ⟨row, v, plaintext, hrow, hv, hplain⟩ := hp
    exact ⟨k, row, v, plaintext, hk, hrow, hv, hplain⟩

theorem silent_secretPlaintext (id : NamespaceId) (handle : Handle) :
    Only silent (secretPlaintext E id (some handle)).run := by
  refine only_except_bind (only_deriveDekBytes inert_silent _) fun dek => ?_
  refine only_except_bind ?_ fun _ => only_pure _
  refine only_except_bind (only_withError (only_getSecretByHandle reads_silent)) fun _ => ?_
  refine only_except_bind (only_orThrow _ _) fun _ => ?_
  exact only_except_bind (only_orThrow _ _) fun _ => only_ofExcept _ _

/-- The HTTP handlers, for the command of each, which starts by asking whether the vault is
unsealed. -/
theorem isolated_proxied {q : Request} {body : Uuid} {secretHandle : Option Handle}
    {rest : NamespaceId → Option (List UInt8) → Handler Reply}
    (hserve : q.serve E peer = proxied E body secretHandle fun id plaintext => do
      requireUnsealed
      rest id plaintext)
    (honly : ∀ id plaintext, Only outward (do
      requireUnsealed
      rest id plaintext : Handler Reply).run)
    (h : ¬ ∃ handle id k row, secretHandle = some handle ∧ Opened E namespaceId s body handle id k row) :
    Isolated E namespaceId peer s q := by
  cases secretHandle with
  | none =>
    intro hist r s' hrun
    rw [hserve] at hrun
    refine ⟨?_, wp_runs (Q := fun s' _ => Unchanged namespaceId s.store s'.store)
      (unchanged_of_quiet ((outward_proxied honly).mono And.left)) hrun⟩
    rintro ⟨_, _, _, _, _, _, -, hsel, -⟩
    exact (only_runs (I := fun _ => True) (E := fun e => blind e.op)
      (fun hop _ _ => ⟨trivial, hop.2⟩) (outward_proxied honly) trivial hrun).2 _ hsel
  | some handle =>
    by_cases hother : ∀ row, s.store.selectSecretRow handle = some row → row.namespaceId ≠ namespaceId
    · refine isolated_of_other ?_ hother
      rw [hserve]
      exact uses_proxied honly handle
    push Not at hother
    obtain ⟨row, hrow, hns⟩ := hother
    refine isolated_of_guarded ?_ ?_
    · rw [hserve]
      exact quiet_proxied honly (some handle)
    rw [hserve]
    unfold proxied parseBodyNamespace
    rw [wp_except_bind, wp_orThrow]
    refine ⟨fun id hid => ?_, fun _ _ h => absurd h error_ne_ok⟩
    change Wp (guardedRules (exec E.toCrates) silent) _ _ _
    refine wp_spec_bind ((secretPlaintext_eq _ _).guard (silent_secretPlaintext _ _))
      (fun p hp => ?_) fun _ _ h => absurd h error_ne_ok
    obtain ⟨k, row', v, plaintext, hk, hrow', hv, hplain⟩ := hp
    obtain rfl : row' = row := Option.some.inj (hrow'.symm.trans hrow)
    rw [wp_except_bind, runApp, wp_withError, wp_except_bind]
    refine (requireUnsealed_eq.guard (only_requireUnsealed inert_silent)).mono ?_
    rintro s' r ⟨rfl, hr⟩
    cases r with
    | error e => exact fun _ h => absurd h error_ne_ok
    | ok u =>
      exact absurd ⟨handle, id, k, row', rfl, hr u rfl, hid, hk, hrow, hns, v, plaintext, hv, hplain⟩ h

/-- **Requests that do not reach the namespace are isolated from it.** -/
theorem isolated_of_not_reaches (hw : WellFormed s) (hdenied : Denied s namespaceId peer) {q : Request}
    (h : ¬ Reaches E namespaceId peer s q) : Isolated E namespaceId peer s q := by
  cases q with
  | put q => exact isolated_put hw q
  | rotate q => exact isolated_rotate hw h
  | rollback q => exact isolated_rollback hw h
  | delete q => exact isolated_delete hw h
  | reveal q => exact isolated_reveal hdenied q
  | issueUseToken q => exact isolated_issueUseToken q
  | writeTempfile q => exact isolated_writeTempfile h
  | writeFifo q => exact isolated_writeFifo h
  | httpRequest q => exact isolated_proxied rfl (fun _ _ => outward_httpRequest _) h
  | httpDownload q => exact isolated_proxied rfl (fun _ _ => outward_httpDownload _) h
  | httpUpload q => exact isolated_proxied rfl (fun _ _ => outward_httpUpload _) h

end Isolated

/-! ### Requests that are not isolated -/

section Reached

variable {E : Env} {namespaceId : NamespaceId} {peer : PeerCredentials} {s : AppState}

/-- Some time. -/
def someTime : Rfc3339Timestamp := .ofSeconds 0

theorem runs_write {w : Write} {store : Store} (h : w.apply s.store = .ok store) :
    Runs (exec E.toCrates) (write w).run s [⟨.write w, .ok ()⟩] (.ok ()) { s with store := store } := by
  have hx : exec E.toCrates (.write w) s (.ok ()) { s with store := store } :=
    ⟨none, by simp [writeSection, faulty, h]⟩
  exact runs_attempt hx

theorem runs_encryptBlob {dek : Key} {handle : Handle} {value : List UInt8}
    (h : Encrypts E dek handle value) : ∃ nonce blob, Runs (exec E.toCrates)
      (encryptBlob E dek handle value).run s [⟨.port .randomBytes24, nonce⟩] (.ok blob) s := by
  obtain ⟨nonce, ciphertext, henc, hlen⟩ := h
  have hsplit : splitTag ciphertext = some (ciphertext.take (ciphertext.length - 16),
      ⟨(ciphertext.drop (ciphertext.length - 16)).toArray, by simp; omega⟩) := dif_pos hlen
  have hport : exec E.toCrates (.port .randomBytes24) s nonce s := rfl
  exact ⟨nonce, _, runs_ok_bind (runs_call hport) (runs_ok_bind (runs_ofExcept henc)
    (runs_ok_bind (runs_orThrow hsplit) runs_pure))⟩

/-- A rotated secret is not stored as before. -/
theorem row_notMem_rotated {st st' : Store} {row : SecretRow} {new : SecretVersion}
    {now : Rfc3339Timestamp} {secret : Secret} (hk : Keys st) (hrow : row ∈ st.secrets)
    (hnew : new.id ∉ st.versions.map (·.id))
    (hrot : (loaded st row).rotate new retainCount now = .ok secret)
    (hput : st.putSecret secret = .ok st') : row ∉ st'.secrets := by
  obtain ⟨-, ⟨v, hv, hcurrent⟩, -⟩ := rotate_loaded hk hrot
  rw [rotated_secrets hk hrow hrot hput]
  intro hmem
  obtain ⟨r, -, hr⟩ := List.mem_map.mp hmem
  by_cases hid : r.id = row.id
  · rw [if_pos hid] at hr
    have hcur : new.id = row.currentVersionId := congrArg SecretRow.currentVersionId hr
    exact hnew (List.mem_map.mpr ⟨v, (mem_load.mp hv).1, hcurrent.trans hcur.symm⟩)
  · rw [if_neg hid] at hr
    exact hid (by rw [hr])

/-- The end of a rotation or a rollback of the secret: the row changes. -/
theorem runs_rotated (hw : WellFormed s) {u : Uuid} (hu : u ∉ s.issued) {row : SecretRow}
    {new : SecretVersion} {now : Rfc3339Timestamp} {secret : Secret} (params : AppendParams)
    (reply : Reply) (hrow : row ∈ s.store.secrets) (hid : new.id = ⟨u⟩)
    (hrot : (loaded s.store row).rotate new retainCount now = .ok secret) :
    ∃ hist b s', Runs (exec E.toCrates) (do
      write (.putSecret secret)
      let hmacKey ← requireHmacKey
      auditCommit params hmacKey
      return reply : Handler Reply).run { s with issued := u :: s.issued } hist b s' ∧
      row ∉ s'.store.secrets := by
  have hfresh : new.id ∉ s.store.versions.map (·.id) := by
    rw [hid]
    exact hw.fresh hu
  obtain ⟨store, hput⟩ := rotated_put hw.keys hrow hfresh hrot
  have hwrite : Write.apply (.putSecret secret) s.store = .ok store := hput
  obtain ⟨h₂, b, s', hrun, hsame⟩ := runs_before
    (runs_write (E := E) (s := { s with issued := u :: s.issued }) hwrite)
    fun _ => only_record inert_settled params (only_pure reply)
  refine ⟨_, b, s', hrun, ?_⟩
  rw [hsame.secrets]
  exact row_notMem_rotated hw.keys hrow hfresh hrot hput

/-- The request has a run that changes a secret of the namespace. -/
def Changes (E : Env) (namespaceId : NamespaceId) (peer : PeerCredentials) (s : AppState)
    (q : Request) : Prop :=
  ∃ hist r s' row, Runs (exec E.toCrates) (q.serve E peer).run s hist r s' ∧
    row ∈ s.store.secrets ∧ row.namespaceId = namespaceId ∧ row ∉ s'.store.secrets

theorem runs_requireSlash {slashCommand : Bool} {operation command purpose : String}
    (h : slashCommand = true) : Runs (exec E.toCrates)
      (requireSlash slashCommand operation command purpose).run s [] (.ok ()) s := by
  subst h
  exact runs_pure

theorem rotate_changes (hw : WellFormed s) {q : RotateSecretRequest}
    (h : Reaches E namespaceId peer s (.rotate q)) : Changes E namespaceId peer s (.rotate q) := by
  obtain ⟨id, handle, row, k, value, ⟨hunsealed, hid, hpasses, hhandle, hrow, hns⟩, hk, hvalue, henc,
    hrotatable⟩ := h
  have hmem := ((select_iff hw.keys).mp hrow).1
  obtain ⟨u, hu⟩ := hw.room
  obtain ⟨nonce, blob, hblob⟩ := runs_encryptBlob (s := s) henc
  obtain ⟨secret, hrot⟩ := rotate_of_rotatable hrotatable ⟨⟨u⟩, row.id,
    maxVersionNo (loaded s.store row).versions + 1, blob, 1, someTime, none⟩ rfl someTime
  obtain ⟨h₁, b, s₁, hend, hgone⟩ := runs_rotated (E := E) hw hu (rotated id handle secret.sensitivity)
    (.rotated (maxVersionNo (loaded s.store row).versions + 1)) hmem rfl hrot
  have hdraw : exec E.toCrates .newUuid s u { s with issued := u :: s.issued } := ⟨hu, rfl⟩
  have hnow : exec E.toCrates (.port .now) { s with issued := u :: s.issued } someTime
      { s with issued := u :: s.issued } := rfl
  have hexec : Runs (exec E.toCrates) (RotateSecretCommand.execute E
      ⟨id, handle, textBytes q.newValue, q.valueFormat, 1, namespaceDek E k id⟩).run s _ b s₁ :=
    runs_ok_bind (runs_requireUnsealed hunsealed) (runs_ok_bind (runs_loadSecret hrow)
      (runs_ok_bind (runs_decodePayload hvalue) (runs_ok_bind hblob (runs_ok_bind (runs_call hdraw)
        (runs_ok_bind (runs_call hnow) (runs_ok_bind (runs_call hnow)
          (runs_ok_bind (runs_ofExcept hrot) hend)))))))
  obtain ⟨h₂, r, s', hrun, hsame⟩ := runs_before (runs_runApp hexec) (f := fun reply => (do
      let versionsRetained ← secretVersionCount handle
      return ⟨reply, some handle, some (← call (.port .now)), some versionsRetained⟩ :
        SocketHandler Response))
    fun reply => only_except_bind (only_secretVersionCount reads_settled) fun _ =>
      only_except_bind (only_call ⟨trivial, trivial⟩) fun _ => only_pure _
  have hserve : Runs (exec E.toCrates) (rotateSecret E peer q).run s _ r s' :=
    runs_ok_bind (runs_orThrow hid) (runs_ok_bind (runs_check hpasses)
      (runs_ok_bind (runs_ofExcept (parseHandleEncoded_of_some hhandle))
        (runs_ok_bind (runs_deriveDekBytes hk id) hrun)))
  refine ⟨_, r, s', row, hserve, hmem, hns, ?_⟩
  rw [hsame.secrets]
  exact hgone

theorem rollback_changes (hw : WellFormed s) {q : RollbackSecretRequest}
    (h : Reaches E namespaceId peer s (.rollback q)) : Changes E namespaceId peer s (.rollback q) := by
  obtain ⟨id, handle, row, ⟨hunsealed, hid, hpasses, hhandle, hrow, hns⟩, hslash, ⟨v, hv, hno⟩,
    hrotatable⟩ := h
  have hmem := ((select_iff hw.keys).mp hrow).1
  obtain ⟨u, hu⟩ := hw.room
  have hfound : ((loaded s.store row).versions.find? fun v => v.versionNo = q.targetVersion).isSome :=
    List.find?_isSome.mpr ⟨v, hv, by simpa using hno⟩
  obtain ⟨target, htarget⟩ := Option.isSome_iff_exists.mp hfound
  obtain ⟨secret, hrot⟩ := rotate_of_rotatable hrotatable
    (rollbackVersion (loaded s.store row) target ⟨row.id, ⟨u⟩, someTime⟩) rfl someTime
  have hroll : (loaded s.store row).rollbackTo q.targetVersion retainCount
      ⟨row.id, ⟨u⟩, someTime⟩ = .ok secret := by
    rw [Secret.rollbackTo, htarget]
    exact hrot
  obtain ⟨h₁, b, s₁, hend, hgone⟩ := runs_rotated (E := E) hw hu (rotated id handle secret.sensitivity)
    (.rolledBack (maxVersionNo (loaded s.store row).versions + 1)) hmem rfl hrot
  have hdraw : exec E.toCrates .newUuid s u { s with issued := u :: s.issued } := ⟨hu, rfl⟩
  have hnow : exec E.toCrates (.port .now) { s with issued := u :: s.issued } someTime
      { s with issued := u :: s.issued } := rfl
  obtain ⟨h₂, hexec⟩ : ∃ hist, Runs (exec E.toCrates) (RollbackSecretCommand.execute
      ⟨id, handle, q.targetVersion, q.slashCommand⟩).run s hist b s₁ := by
    rw [hslash]
    exact ⟨_, runs_ok_bind (runs_requireUnsealed hunsealed) (runs_ok_bind (runs_loadSecret hrow)
      (runs_ok_bind (runs_call hdraw) (runs_ok_bind (runs_call hnow)
        (runs_ok_bind (runs_ofExcept hroll) hend))))⟩
  obtain ⟨h₃, r, s', hrun, hsame⟩ := runs_before (runs_runApp hexec) (f := fun reply => (do
      return ⟨reply, some handle, some (← call (.port .now)), none⟩ : SocketHandler Response))
    fun reply => only_except_bind (only_call ⟨trivial, trivial⟩) fun _ => only_pure _
  have hserve : Runs (exec E.toCrates) (rollbackSecret peer q).run s _ r s' :=
    runs_ok_bind (runs_orThrow hid) (runs_ok_bind (runs_check hpasses)
      (runs_ok_bind (runs_ofExcept (parseHandleEncoded_of_some hhandle))
        (runs_ok_bind (runs_requireSlash hslash) hrun)))
  refine ⟨_, r, s', row, hserve, hmem, hns, ?_⟩
  rw [hsame.secrets]
  exact hgone

theorem runs_secretVersionCount {handle : Handle} {row : SecretRow}
    (h : s.store.selectSecretRow handle = some row) : Runs (exec E.toCrates)
      (secretVersionCount handle).run s (lookup s.store handle row)
      (.ok (countU32 (loaded s.store row).versions.length)) s :=
  runs_ok_bind (runs_runApp (runs_resultOf (runs_getSecretByHandle h))) runs_pure

theorem delete_changes (hw : WellFormed s) {q : DeleteSecretRequest}
    (h : Reaches E namespaceId peer s (.delete q)) : Changes E namespaceId peer s (.delete q) := by
  obtain ⟨id, handle, row, ⟨hunsealed, hid, hpasses, hhandle, hrow, hns⟩, hslash⟩ := h
  have hmem := ((select_iff hw.keys).mp hrow).1
  have hdel : Write.apply (.deleteSecret row.id) s.store = .ok { s.store with
      secrets := s.store.secrets.filter fun r => r.id ≠ row.id
      versions := s.store.versions.filter fun v => v.secretId ≠ row.id } :=
    if_neg (by simpa using ⟨row, hmem, rfl⟩)
  let cmd : DeleteSecretCommand := ⟨id, handle, q.slashCommand⟩
  obtain ⟨h₁, b, s₁, hend, hsame⟩ := runs_before (runs_write (E := E) hdel)
    fun _ => only_record inert_settled (cmd.allow row.sensitivity) (only_pure (Reply.deleted handle))
  have hconfirmed : ¬(Sensitivity.high.rank ≤ (loaded s.store row).sensitivity.rank ∧
      !cmd.slashCommand) := by
    simp [cmd, hslash]
  obtain ⟨h₂, hexec⟩ : ∃ hist, Runs (exec E.toCrates) cmd.execute.run s hist b s₁ := by
    refine ⟨_ ++ (_ ++ ([⟨.write (.deleteSecret row.id), .ok ()⟩] ++ h₁)),
      runs_ok_bind (runs_requireUnsealed hunsealed) (runs_ok_bind (runs_loadSecret hrow) ?_)⟩
    rw [if_neg hconfirmed]
    exact hend
  obtain ⟨h₃, r, s', hrun, hsame'⟩ := runs_before (runs_runApp hexec)
    (f := fun reply => (return ⟨reply, none, none, some (countU32 (loaded s.store row).versions.length)⟩ :
      SocketHandler Response)) fun reply => only_pure _
  have hserve : Runs (exec E.toCrates) (deleteSecret peer q).run s _ r s' :=
    runs_ok_bind (runs_orThrow hid) (runs_ok_bind (runs_check hpasses)
      (runs_ok_bind (runs_ofExcept (parseHandleEncoded_of_some hhandle))
        (runs_ok_bind (runs_requireSlash hslash) (runs_ok_bind (runs_secretVersionCount hrow) hrun))))
  refine ⟨_, r, s', row, hserve, hmem, hns, ?_⟩
  rw [hsame'.secrets, hsame.secrets]
  simp

/-! ### Requests that disclose -/

/-- The program has a run with the given events. -/
def Exhibits {ε α : Type} (E : Env) (x : Cmd Op ε α) (s : AppState) (es : List (Event Op)) : Prop :=
  ∃ hist r s', Runs (exec E.toCrates) x.run s hist r s' ∧ es ⊆ hist

section Exhibits

variable {ε α β : Type} {s₁ : AppState} {es h₁ : List (Event Op)} {x : Cmd Op ε α}
  {f : α → Cmd Op ε β}

theorem exhibits_bind {a : α} (hx : Runs (exec E.toCrates) x.run s h₁ (.ok a) s₁)
    (hf : Exhibits E (f a) s₁ es) : Exhibits E (x >>= f) s (h₁ ++ es) := by
  obtain ⟨h₂, b, s', hrun, hes⟩ := hf
  refine ⟨h₁ ++ h₂, b, s', runs_ok_bind hx hrun, ?_⟩
  exact List.append_subset.mpr ⟨List.subset_append_left _ _, fun _ he =>
    List.mem_append_right _ (hes he)⟩

/-- After the events the program only records. -/
theorem Exhibits.before (hx : Exhibits E x s es) (hf : ∀ a, Only settled (f a).run) :
    Exhibits E (x >>= f) s es := by
  obtain ⟨h₁, r, s₁, hrun, hes⟩ := hx
  obtain ⟨h₂, b, s', hrun', -⟩ := runs_before hrun hf
  exact ⟨h₁ ++ h₂, b, s', hrun', fun _ he => List.mem_append_left _ (hes he)⟩

theorem Exhibits.runApp {x : Handler α} (h : Exhibits E x s es) : Exhibits E (runApp x) s es := by
  obtain ⟨hist, r, s', hrun, hes⟩ := h
  exact ⟨hist, _, s', runs_runApp hrun, hes⟩

theorem Exhibits.mono {es' : List (Event Op)} (h : Exhibits E x s es) (hes : es' ⊆ es) :
    Exhibits E x s es' := by
  obtain ⟨hist, r, s', hrun, hsub⟩ := h
  exact ⟨hist, r, s', hrun, fun _ he => hsub (hes he)⟩

end Exhibits

theorem runs_port {ε β : Type} (p : Port β) (r : β) : Runs (exec E.toCrates)
    (call (.port p) : Cmd Op ε β).run s [⟨.port p, r⟩] (.ok r) s :=
  runs_call rfl

theorem runs_attemptPort {ε δ β : Type} {f : δ → ε} (p : Port (Except δ β)) (b : β) :
    Runs (exec E.toCrates) (attempt f (.port p)).run s [⟨.port p, .ok b⟩] (.ok b) s :=
  runs_attempt (r := .ok b) rfl

theorem runs_orCleanUp {α : Type} {x : Handler α} {a : α} {s₁ : AppState} {h₁ : List (Event Op)}
    (path : String) (hx : Runs (exec E.toCrates) x.run s h₁ (.ok a) s₁) :
    Runs (exec E.toCrates) (orCleanUp path x).run s (h₁ ++ []) (.ok a) s₁ :=
  runs_ok_bind (runs_resultOf hx) runs_pure

/-- A token that can be used lets the secret be opened. -/
theorem runs_openSecret (cmd : MaterializeCommand) {row : SecretRow} {v : SecretVersion}
    {plaintext : List UInt8} (hunsealed : s.identity.isUnsealed = true)
    (husable : Usable s cmd.useToken cmd.handle)
    (hrow : s.store.selectSecretRow cmd.handle = some row)
    (hv : (loaded s.store row).activeVersion = some v)
    (hplain : decryptBlob E cmd.dekBytes v.blob = .ok plaintext) :
    ∃ hist s₁, Runs (exec E.toCrates) (openSecret E cmd).run s hist
      (.ok (loaded s.store row, plaintext)) s₁ ∧ lookup s.store cmd.handle row ⊆ hist ∧
      s₁ = { s with useTokens := s₁.useTokens } := by
  obtain ⟨now, hnow⟩ := husable
  let s₁ := (consumeUseTokenSection cmd.useToken cmd.handle now s).2
  have hs₁ : s₁ = { s with useTokens := s₁.useTokens } := consumeUseTokenSection_eq rfl
  have hstore : s₁.store = s.store := by rw [hs₁]
  have hx : exec E.toCrates (.consumeUseToken cmd.useToken cmd.handle) s (.ok ()) s₁ :=
    ⟨now, by rw [← hnow]⟩
  have hconsume : Runs (exec E.toCrates) (attempt id (.consumeUseToken cmd.useToken cmd.handle)).run s
      [⟨.consumeUseToken cmd.useToken cmd.handle, .ok ()⟩] (.ok ()) s₁ := runs_attempt hx
  have hload : Runs (exec E.toCrates) (loadSecret cmd.handle).run s₁ (lookup s.store cmd.handle row)
      (.ok (loaded s.store row)) s₁ := by
    rw [← hstore] at hrow ⊢
    exact runs_loadSecret hrow
  refine ⟨_, s₁, runs_ok_bind (runs_requireUnsealed hunsealed) (runs_ok_bind hconsume
    (runs_ok_bind hload (runs_ok_bind (runs_orThrow hv) (runs_ok_bind (runs_ofExcept hplain)
      runs_pure)))), ?_, hs₁⟩
  exact fun e he => List.mem_append_right _ (List.mem_append_right _ (List.mem_append_left _ he))

/-- The request has a run that discloses a secret of the namespace. -/
def Exposes (E : Env) (namespaceId : NamespaceId) (peer : PeerCredentials) (s : AppState)
    (q : Request) : Prop :=
  ∃ hist r s', Runs (exec E.toCrates) (q.serve E peer).run s hist r s' ∧ Discloses E namespaceId hist r

/-- A run with the lookup of the secret and an export of its plaintext discloses it. -/
theorem exposes_of_exhibits {q : Request} (handle : Handle) {row : SecretRow} {v : SecretVersion}
    {dek : Key} {plaintext : List UInt8} {e : Event Op} (hns : row.namespaceId = namespaceId)
    (hv : (loaded s.store row).activeVersion = some v)
    (hplain : decryptBlob E dek v.blob = .ok plaintext)
    (hleaves : ∀ hist r, e ∈ hist → Leaves plaintext hist r)
    (h : Exhibits E (q.serve E peer) s (lookup s.store handle row ++ [e])) :
    Exposes E namespaceId peer s q := by
  obtain ⟨hist, r, s', hrun, hes⟩ := h
  refine ⟨hist, r, s', hrun, handle, row, _, v, dek, plaintext, hns, hes ?_, hes ?_, hv, hplain,
    hleaves hist r (hes ?_)⟩
  · exact List.mem_cons_self
  · exact List.mem_cons_of_mem _ List.mem_cons_self
  · exact List.mem_append_right _ List.mem_cons_self

theorem settled_port {β : Type} (p : Port β) : settled (.port p) := ⟨trivial, trivial⟩

theorem settled_recordMaterialization (cmd : MaterializeCommand) (secret : Secret) (path : String) :
    Only settled (recordMaterialization cmd secret path).run :=
  only_except_bind (only_orCleanUp (settled_port _) (only_requireHmacKey inert_settled)) fun key =>
    only_orCleanUp (settled_port _) (only_auditCommit inert_settled _ key)

/-- The handler of a materialization shows what its command shows. -/
theorem exhibits_materialize {execute : MaterializeCommand → Handler Reply} {q : MaterializeRequest}
    {id : NamespaceId} {k : Key} {es : List (Event Op)} (hid : NamespaceId.ofUuid q.namespaceId = some id)
    (hk : s.hmacKey = some k)
    (h : Exhibits E (execute ⟨id, q.handle, namespaceDek E k id, q.useToken⟩) s es) :
    Exhibits E (materialize E execute q) s es := by
  refine Exhibits.mono (exhibits_bind (runs_orThrow hid) (exhibits_bind (runs_deriveDekBytes hk id)
    (h.runApp.before fun reply => only_pure _))) ?_
  exact fun e he => List.mem_append_right _ (List.mem_append_right _ he)

theorem writeTempfile_exposes {q : MaterializeRequest}
    (h : Reaches E namespaceId peer s (.writeTempfile q)) :
    Exposes E namespaceId peer s (.writeTempfile q) := by
  obtain ⟨id, k, row, ⟨hunsealed, hid, hk, hrow, hns, v, plaintext, hv, hplain⟩, husable⟩ := h
  let cmd : MaterializeCommand := ⟨id, q.handle, namespaceDek E k id, q.useToken⟩
  obtain ⟨h₁, s₁, hopen, hlookup, -⟩ := runs_openSecret cmd hunsealed husable hrow hv hplain
  let path := "" ++ "merkle_" ++ opaqueToken (Vector.replicate 32 0) ++ ".tmp"
  have hwrite : Exhibits E (orCleanUp path (attempt (fun e => textFault
      ("write_tempfile: I/O error: " ++ e)) (.port (.writeFile path plaintext)))) s₁
      [⟨.port (.writeFile path plaintext), .ok ()⟩] :=
    ⟨_, _, s₁, runs_orCleanUp path (runs_attemptPort _ ()), by simp⟩
  have hexec : Exhibits E (App.UseCommands.writeTempfile E cmd) s
      (h₁ ++ ([⟨.port .randomBytes32, Vector.replicate 32 0⟩] ++ ([⟨.port .tempDir, ""⟩] ++
        ([⟨.port (.createFile path), .ok ()⟩] ++ [⟨.port (.writeFile path plaintext), .ok ()⟩])))) := by
    refine exhibits_bind hopen ?_
    refine exhibits_bind (runs_port _ _) ?_
    refine exhibits_bind (runs_port _ _) ?_
    refine exhibits_bind (runs_attemptPort _ ()) ?_
    refine hwrite.before fun _ => ?_
    refine only_except_bind (only_orCleanUp (settled_port _) (only_attempt (settled_port _))) fun _ => ?_
    refine only_except_bind (settled_recordMaterialization _ _ _) fun _ => ?_
    refine only_except_bind (only_orCleanUp (settled_port _) (only_attempt (settled_port _))) fun _ => ?_
    exact only_except_bind (only_call (settled_port _)) fun _ => only_pure _
  refine exposes_of_exhibits q.handle hns hv hplain (fun hist r he => .inr (.inl ⟨path, .ok (), he⟩))
    (exhibits_materialize hid hk (hexec.mono ?_))
  refine List.append_subset.mpr ⟨fun _ he => List.mem_append_left _ (hlookup he), ?_⟩
  simp

theorem runs_auditCommit {params : AppendParams} {k : Key} (h : Commits E.toCrates params k s) :
    ∃ s', Runs (exec E.toCrates) (auditCommit params k).run s [⟨.auditCommit params k, .ok ()⟩]
      (.ok ()) s' := by
  obtain ⟨draw, log, entry, pinned, store, happend, hstore⟩ := h
  have hx : exec E.toCrates (.auditCommit params k) s (.ok ())
      { s with auditLog := log, store := store } :=
    ⟨draw, none, by simp [auditCommitSection, happend, faulty, hstore]⟩
  exact ⟨_, runs_attempt hx⟩

theorem writeFifo_exposes {q : MaterializeRequest}
    (h : Reaches E namespaceId peer s (.writeFifo q)) :
    Exposes E namespaceId peer s (.writeFifo q) := by
  obtain ⟨id, k, row, ⟨hunsealed, hid, hk, hrow, hns, v, plaintext, hv, hplain⟩, husable, hcommits⟩ := h
  let cmd : MaterializeCommand := ⟨id, q.handle, namespaceDek E k id, q.useToken⟩
  obtain ⟨h₁, s₁, hopen, hlookup, hs₁⟩ := runs_openSecret cmd hunsealed husable hrow hv hplain
  let path := "" ++ "merkle_" ++ opaqueToken (Vector.replicate 32 0) ++ ".fifo"
  -- Consuming the token leaves the key and the chain.
  have hcommits₁ : Commits E.toCrates (used .writeTempfile id q.handle row.sensitivity) k s₁ := by
    rw [hs₁]
    exact hcommits
  have hk₁ : s₁.hmacKey = some k := by
    rw [hs₁]
    exact hk
  obtain ⟨s₂, hcommit⟩ := runs_auditCommit hcommits₁
  have hrecord : Runs (exec E.toCrates) (recordMaterialization cmd (loaded s.store row) path).run s₁ _
      (.ok ()) s₂ :=
    runs_ok_bind (runs_orCleanUp path (runs_requireHmacKey hk₁)) (runs_orCleanUp path hcommit)
  have hspawn : Exhibits E (call (.port (.spawnFifoWriter path plaintext)) : Handler Unit) s₂
      [⟨.port (.spawnFifoWriter path plaintext), ()⟩] :=
    ⟨_, _, s₂, runs_port _ (), List.Subset.refl _⟩
  have hexec : Exhibits E (App.UseCommands.writeFifo E cmd) s
      (h₁ ++ [⟨.port (.spawnFifoWriter path plaintext), ()⟩]) := by
    refine Exhibits.mono (exhibits_bind hopen (exhibits_bind (runs_port _ (Vector.replicate 32 0))
      (exhibits_bind (runs_port _ "") (exhibits_bind (runs_attemptPort _ ()) (exhibits_bind hrecord
        (exhibits_bind (runs_orCleanUp path (runs_attemptPort _ someTime))
          (hspawn.before fun _ =>
            only_except_bind (only_call (settled_port _)) fun _ => only_pure _))))))) ?_
    simp
  refine exposes_of_exhibits q.handle hns hv hplain (fun hist r he => .inr (.inr (.inl ⟨path, he⟩)))
    (exhibits_materialize hid hk (hexec.mono ?_))
  exact List.append_subset.mpr ⟨fun _ he => List.mem_append_left _ (hlookup he), by simp⟩

theorem runs_secretPlaintext {handle : Handle} {id : NamespaceId} {k : Key} {row : SecretRow}
    {v : SecretVersion} {plaintext : List UInt8} (hk : s.hmacKey = some k)
    (hrow : s.store.selectSecretRow handle = some row)
    (hv : (loaded s.store row).activeVersion = some v)
    (hplain : decryptBlob E (namespaceDek E k id) v.blob = .ok plaintext) :
    ∃ hist, Runs (exec E.toCrates) (secretPlaintext E id (some handle)).run s hist
      (.ok (some plaintext)) s ∧ lookup s.store handle row ⊆ hist := by
  have hbytes : Runs (exec E.toCrates) (resolveKeyBytes E id handle (namespaceDek E k id)).run s _
      (.ok plaintext) s :=
    runs_ok_bind (runs_runApp (runs_getSecretByHandle hrow)) (runs_ok_bind (runs_orThrow rfl)
      (runs_ok_bind (runs_orThrow hv) (runs_ofExcept hplain)))
  refine ⟨_, runs_ok_bind (runs_deriveDekBytes hk id) (runs_ok_bind hbytes runs_pure), ?_⟩
  exact fun e he => List.mem_append_right _ (List.mem_append_left _ (List.mem_append_left _ he))

/-- The HTTP handlers, for the command of each, which sends the request once the vault is found
unsealed. -/
theorem proxied_exposes {q : Request} {body : Uuid} {secretHandle : Option Handle}
    {rest : NamespaceId → Option (List UInt8) → Handler Reply}
    (hserve : q.serve E peer = proxied E body secretHandle fun id plaintext => do
      requireUnsealed
      rest id plaintext)
    (hrest : ∀ id plaintext, ∃ spec a, Exhibits E (rest id (some plaintext)) s
      [⟨.port (.httpRequest spec (buildHttpAuth none (some plaintext))), a⟩])
    (h : ∃ handle id k row, secretHandle = some handle ∧ Opened E namespaceId s body handle id k row) :
    Exposes E namespaceId peer s q := by
  obtain ⟨handle, id, k, row, rfl, hunsealed, hid, hk, hrow, hns, v, plaintext, hv, hplain⟩ := h
  obtain ⟨spec, a, hsent⟩ := hrest id plaintext
  obtain ⟨h₁, hplaintext, hlookup⟩ := runs_secretPlaintext hk hrow hv hplain
  refine exposes_of_exhibits handle hns hv hplain (fun hist r he => .inr (.inr (.inr ⟨spec, a, he⟩))) ?_
  rw [hserve]
  refine Exhibits.mono (exhibits_bind (runs_orThrow hid) (exhibits_bind hplaintext
    ((exhibits_bind (runs_requireUnsealed hunsealed) hsent).runApp.before fun _ => only_pure _))) ?_
  refine List.append_subset.mpr ⟨fun _ he => ?_, by simp⟩
  exact List.mem_append_right _ (List.mem_append_left _ (hlookup he))

theorem settled_recordRequest (op : AuditOp) (namespaceId : NamespaceId) :
    Only settled (recordRequest op namespaceId).run :=
  only_except_bind (only_requireHmacKey inert_settled) fun key =>
    only_auditCommit inert_settled _ key

/-- The response of a server. -/
def someResponse : HttpResponse := ⟨200, [], []⟩

theorem exhibits_sent {f : ExternalError → AppError} {spec : HttpRequestSpec} {auth : HttpAuth} :
    Exhibits E (attempt f (.port (.httpRequest spec auth))) s
      [⟨.port (.httpRequest spec auth), .ok someResponse⟩] :=
  ⟨_, _, s, runs_attemptPort _ someResponse, List.Subset.refl _⟩

theorem Changes.not_isolated {q : Request} (h : Changes E namespaceId peer s q) :
    ¬ Isolated E namespaceId peer s q := by
  obtain ⟨hist, r, s', row, hrun, hmem, hns, hgone⟩ := h
  intro hisolated
  exact hgone ((hisolated hist r s' hrun).2 row hmem hns).1

theorem Exposes.not_isolated {q : Request} (h : Exposes E namespaceId peer s q) :
    ¬ Isolated E namespaceId peer s q := by
  obtain ⟨hist, r, s', hrun, hdiscloses⟩ := h
  exact fun hisolated => (hisolated hist r s' hrun).1 hdiscloses

/-- **A request that reaches the namespace is not isolated from it.** -/
theorem not_isolated_of_reaches (hw : WellFormed s) {q : Request}
    (h : Reaches E namespaceId peer s q) : ¬ Isolated E namespaceId peer s q := by
  cases q with
  | put q => exact h.elim
  | rotate q => exact (rotate_changes hw h).not_isolated
  | rollback q => exact (rollback_changes hw h).not_isolated
  | delete q => exact (delete_changes hw h).not_isolated
  | reveal q => exact h.elim
  | issueUseToken q => exact h.elim
  | writeTempfile q => exact (writeTempfile_exposes h).not_isolated
  | writeFifo q => exact (writeFifo_exposes h).not_isolated
  | httpRequest q =>
    refine (proxied_exposes rfl (fun _ _ => ⟨_, _, exhibits_sent.before fun _ => ?_⟩) h).not_isolated
    exact only_except_bind (settled_recordRequest _ _) fun _ => only_pure _
  | httpDownload q =>
    refine (proxied_exposes rfl (fun _ _ => ⟨_, _, exhibits_sent.before fun _ => ?_⟩) h).not_isolated
    refine only_except_bind (only_attempt (settled_port _)) fun _ => ?_
    exact only_except_bind (settled_recordRequest _ _) fun _ => only_pure _
  | httpUpload q =>
    refine (proxied_exposes rfl (fun _ _ => ⟨_, _, Exhibits.mono (exhibits_bind (runs_attemptPort _ [])
      (exhibits_sent.before fun _ => ?_)) (List.subset_append_right _ _)⟩) h).not_isolated
    exact only_except_bind (settled_recordRequest _ _) fun _ => only_pure _

end Reached

/-- **A request of a denied program is isolated from the namespace if and only if it does not reach a
secret of it past the gate.** -/
theorem consumer_isolated {E : Env} {namespaceId : NamespaceId} {peer : PeerCredentials} {s : AppState}
    (hw : WellFormed s) (hdenied : Denied s namespaceId peer) (q : Request) :
    Isolated E namespaceId peer s q ↔ ¬ Reaches E namespaceId peer s q :=
  ⟨fun hisolated hreaches => not_isolated_of_reaches hw hreaches hisolated,
    isolated_of_not_reaches hw hdenied⟩

/-! ### A program that `prod` denies -/

/-- A vault with the namespaces `prod` and `dev` and a secret of `prod`, which lists one consumer. -/
def sampleGuarded : AppState := { sampleState with
  issued := [sampleUuid 5, sampleUuid 4, sampleUuid 0x72, sampleUuid 0x71]
  store := { Store.empty with
    namespaces := [⟨⟨sampleUuid 0x71⟩, sampleLabel, none, 1, epoch⟩,
      ⟨⟨sampleUuid 0x72⟩, sampleDev, none, 1, epoch⟩]
    policies := [{ NamespacePolicy.balanced ⟨sampleUuid 0x71⟩ with allowedConsumers := ["/opt/deploy"] }]
    secrets := [⟨⟨sampleUuid 5⟩, ⟨sampleUuid 0x71⟩, sampleHandle, .database, .medium, [], ⟨none, false⟩,
      epoch, ⟨sampleUuid 4⟩⟩]
    versions := [⟨⟨sampleUuid 4⟩, ⟨sampleUuid 5⟩, 1,
      sampleBlob (namespaceDek sampleEnv sampleKey ⟨sampleUuid 0x71⟩) [97, 98, 99], 1, epoch, none⟩] } }

/-- A program that no list names. -/
def sampleStranger : PeerCredentials := ⟨some "/tmp/tool"⟩

/-- A deletion of the secret with the given namespace in its path. -/
def sampleDeletion (ns : UInt8) : DeleteSecretRequest :=
  ⟨sampleUuid ns, "vault://prod/database/postgres", true⟩

theorem sample_wellFormed : WellFormed sampleGuarded where
  keys := ⟨by decide, by decide, by decide⟩
  rows := by decide
  versions := by decide
  room := ⟨sampleUuid 6, by decide⟩

theorem sample_denied : Denied sampleGuarded ⟨sampleUuid 0x71⟩ sampleStranger := by
  refine ⟨_, rfl, by decide, ?_⟩
  rintro path hpath
  obtain rfl := Option.some.inj hpath
  decide

theorem sample_reaches :
    Reaches sampleEnv ⟨sampleUuid 0x71⟩ sampleStranger sampleGuarded (.delete (sampleDeletion 0x72)) := by
  refine ⟨⟨sampleUuid 0x72⟩, sampleHandle, _, ⟨rfl, by decide, ?_, rfl, rfl, rfl⟩, rfl⟩
  rintro policy hpolicy
  cases hpolicy

/-- The same deletion under the path of `prod` itself is stopped. -/
theorem denied_deletion_isolated : WellFormed sampleGuarded ∧
    Denied sampleGuarded ⟨sampleUuid 0x71⟩ sampleStranger ∧
    Isolated sampleEnv ⟨sampleUuid 0x71⟩ sampleStranger sampleGuarded (.delete (sampleDeletion 0x71)) := by
  refine ⟨sample_wellFormed, sample_denied, ?_⟩
  refine (consumer_isolated sample_wellFormed sample_denied _).mpr ?_
  rintro ⟨id, handle, row, ⟨-, hid, hpasses, -, -, -⟩, -⟩
  have hid' : NamespaceId.ofUuid (sampleUuid 0x71) = some ⟨sampleUuid 0x71⟩ := by decide
  obtain rfl := Option.some.inj (hid'.symm.trans hid)
  exact sample_denied.not_passes hpasses

/-- The denied program deletes the secret of `prod` under the path of `dev`. -/
theorem denied_peer_deletes : ¬ ∀ (E : Env) (namespaceId : NamespaceId) (peer : PeerCredentials)
    (s : AppState) (q : Request), WellFormed s → Denied s namespaceId peer →
      Isolated E namespaceId peer s q :=
  fun h => not_isolated_of_reaches sample_wellFormed sample_reaches
    (h sampleEnv ⟨sampleUuid 0x71⟩ sampleStranger sampleGuarded (.delete (sampleDeletion 0x72))
      sample_wellFormed sample_denied)

end MerkleVault.Socket.ConsumerIsolation
