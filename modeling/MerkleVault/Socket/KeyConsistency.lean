import MerkleVault.Socket.Stock

/-! # Data Keys of Stored Ciphertexts

A ciphertext is readable as long as it was made under the data key of its secret's namespace.  Put
uses the namespace that it stores, rollback copies a ciphertext of the same secret; rotate encrypts
under the key of the namespace in the path, whatever the namespace of the stored secret is.

* `ciphertexts_open`: as long as the path of every rotation names the secret's own namespace, every
  stored version opens, and a reveal after a rotation returns the value sent;
* `mismatched_rotation_unreadable`: otherwise the secret is lost. -/

namespace MerkleVault.Socket.KeyConsistency

open MerkleVault.Types MerkleVault.External MerkleVault.Lib.Program MerkleVault.Audit.Integrity
open MerkleVault.Secrets.Aggregate MerkleVault.Sqlite.Tables MerkleVault.Sqlite.Versions
open MerkleVault.App.Context MerkleVault.App.SecretCommands MerkleVault.App.AuditDurability
open MerkleVault.App.IdentitySections MerkleVault.App.Reveal
open MerkleVault.Socket.Gate MerkleVault.Socket.Handlers MerkleVault.Socket.Proxy
open MerkleVault.Socket.Actions MerkleVault.Socket.Steps MerkleVault.Socket.Stock

/-- Decryption inverts encryption under the same key, nonce and associated data. -/
def DecryptsEncrypted (E : Env) : Prop :=
  ∀ key nonce plaintext aad ciphertext, E.aeadEncrypt key nonce plaintext aad = .ok ciphertext →
    E.aeadDecrypt key nonce ciphertext aad = .ok plaintext

/-! ### The vault -/

/-- The version opens under the data key of the row's namespace. -/
def Opens (E : Env) (k : Key) (row : SecretRow) (v : SecretVersion) : Prop :=
  ∃ plaintext, decryptBlob E (namespaceDek E k row.namespaceId) v.blob = .ok plaintext

/-- A vault with the audit key `k`: every secret has its current version, every version opens, and
the identifiers in use were issued. -/
structure Vault (E : Env) (k : Key) (s : AppState) : Prop where
  key : s.hmacKey = some k
  keys : Keys s.store
  current : ∀ row ∈ s.store.secrets, ∃ v, IsCurrent s.store row v
  rows : ∀ row ∈ s.store.secrets, row.id.inner ∈ s.issued
  versions : ∀ v ∈ s.store.versions, v.id.inner ∈ s.issued ∧ v.secretId.inner ∈ s.issued
  opens : ∀ row ∈ s.store.secrets, ∀ v ∈ s.store.versions, v.secretId = row.id → Opens E k row v

section Vault

variable {E : Env} {k : Key} {s s' : AppState}

theorem Vault.stocked (h : Vault E k s) : Stocked s := ⟨h.keys, h.current, h.rows, h.versions⟩

/-- A stock of secrets whose versions all open. -/
theorem Stocked.vault (h : Stocked s) (hk : s.hmacKey = some k)
    (hopens : ∀ row ∈ s.store.secrets, ∀ v ∈ s.store.versions, v.secretId = row.id → Opens E k row v) :
    Vault E k s :=
  ⟨hk, h.keys, h.current, h.rows, h.versions, hopens⟩

theorem Vault.same (h : Vault E k s) (hs : SameVault s s') : Vault E k s' := by
  refine Stocked.vault (h.stocked.same (sameStock_of_sameVault hs)) (hs.hmacKey.trans h.key) ?_
  rw [hs.secrets, hs.versions]
  exact h.opens

/-- A change whose version opens. -/
theorem Vault.change (h : Vault E k s) {handle : Handle} {w : Option (SecretRow × SecretVersion)}
    {st' : Store} (hc : Change s handle w st')
    (hopens : ∀ row v, w = some (row, v) → Opens E k row v) : Vault E k { s with store := st' } := by
  refine Stocked.vault (h.stocked.change hc) h.key ?_
  cases hc with
  | @put secret v _ _ hsecret horphan _ hversion hversions _ _ _ hput =>
    obtain ⟨-, hsecrets, hvs⟩ := put_new hsecret hversion hversions hput
    simp only [hsecrets, hvs]
    intro row hrow w hw hparent
    rcases List.mem_append.mp hrow with hrow | hrow
    · rcases List.mem_append.mp hw with hw | hw
      · exact h.opens row hrow w hw hparent
      · rw [List.mem_singleton.mp hw] at hparent
        exact absurd (List.mem_map.mpr ⟨row, hrow, hparent.symm⟩) hsecret
    · obtain rfl := List.mem_singleton.mp hrow
      rcases List.mem_append.mp hw with hw | hw
      · exact absurd hparent (horphan w hw)
      · rw [List.mem_singleton.mp hw]
        exact hopens _ _ rfl
  | @rotate row new _ _ _ hselect _ hfresh _ hrot hput =>
    intro r hr w hw hparent
    have hrow := ((select_iff h.keys).mp hselect).1
    have hmem := mem_rotated_secrets h.keys hrow hrot hput hr
    -- The ciphertext of a stored version stays what it was.
    rcases (mem_rotated_versions h.keys hfresh hrot hput).mp hw with rfl | ⟨u, hu, rfl⟩
    · rcases hmem with rfl | ⟨-, hne⟩
      · exact hopens _ _ rfl
      · exact absurd hparent.symm hne
    · rw [rewritten_secretId] at hparent
      rw [rewritten_eq]
      rcases hmem with rfl | ⟨hr, -⟩
      · exact h.opens row hrow u hu hparent
      · exact h.opens r hr u hu hparent
  | delete _ hdel =>
    obtain ⟨hrows, hvs⟩ := mem_deleted hdel
    exact fun row hrow v hv => h.opens row (hrows row hrow).1 v (hvs v hv).1

/-- **A command whose version opens** keeps the vault. -/
theorem Vault.outcome (h : Vault E k s) {handle : Handle}
    {N : Option (SecretRow × SecretVersion) → Prop} {r : Except AppError Reply}
    (ho : Outcome handle N s s' r) (hN : ∀ row v, N (some (row, v)) → Opens E k row v) :
    Vault E k s' := by
  rcases ho.made with hs | ⟨w, hw, s₁, st', hbefore, hchange, hafter⟩
  · exact h.same hs
  · exact ((h.same hbefore).change hchange fun row v he => hN row v (by rwa [← he])).same hafter

end Vault

/-- A sealed blob opens under its key. -/
theorem opens_of_seals {E : Env} {dek : Key} {handle : Handle} {value : List UInt8} {blob : PrivateBlob}
    (h : Seals E dek handle value blob) (hE : DecryptsEncrypted E) :
    decryptBlob E dek blob = .ok value := by
  unfold decryptBlob
  rw [h.aad]
  exact hE _ _ _ _ _ h.cipher

/-! ### The commands keep the vault -/

/-- The version that a reveal of the handle reads opens to the value. -/
def Holds (E : Env) (k : Key) (handle : Handle) (value : List UInt8) (s : AppState) : Prop :=
  ∃ row v, s.store.selectSecretRow handle = some row ∧
    (loaded s.store row).activeVersion = some v ∧
    decryptBlob E (namespaceDek E k row.namespaceId) v.blob = .ok value

section Commands

variable {E : Env} {k : Key} {s s' : AppState}

theorem Holds.same {handle : Handle} {value : List UInt8} (h : Holds E k handle value s)
    (hs : SameVault s s') : Holds E k handle value s' := by
  obtain ⟨row, v, hrow, hv, hopen⟩ := h
  exact ⟨row, v, (select_congr hs.secrets handle).trans hrow,
    by rw [loaded_congr hs.versions]; exact hv, hopen⟩

/-- **Put**, with the key of the namespace that it stores. -/
theorem put_keeps (hE : DecryptsEncrypted E) (h : Vault E k s) {cmd : PutSecretCommand}
    (hdek : cmd.dekBytes = namespaceDek E k cmd.namespaceId) :
    Wp (agentRules E) (cmd.execute E).run s fun s' _ => Vault E k s' := by
  refine (put_outcome h.stocked cmd).mono fun s' r ho => h.outcome ho ?_
  rintro row v ⟨_, _, he, hns, value, -, hseals⟩
  obtain ⟨rfl, rfl⟩ := Prod.mk.inj (Option.some.inj he)
  refine ⟨value, ?_⟩
  rw [hns, ← hdek]
  exact opens_of_seals hseals hE

/-- **Rotate**, with the key of the secret's own namespace. -/
theorem rotate_keeps (hE : DecryptsEncrypted E) (h : Vault E k s) {cmd : RotateSecretCommand}
    (hdek : ∀ row, s.store.selectSecretRow cmd.handle = some row →
      cmd.dekBytes = namespaceDek E k row.namespaceId) :
    Wp (agentRules E) (cmd.execute E).run s fun s' r => Vault E k s' ∧ ∀ a, r = .ok a →
      ∃ value, payload E cmd.valueFormat cmd.plaintext = some value ∧
        Holds E k cmd.handle value s' := by
  refine (rotate_outcome h.stocked cmd).mono fun s' r ho => ⟨h.outcome ho ?_, fun a ha => ?_⟩
  · rintro row v ⟨_, _, he, ⟨row', hrow', hns⟩, value, -, hseals⟩
    obtain ⟨rfl, rfl⟩ := Prod.mk.inj (Option.some.inj he)
    refine ⟨value, ?_⟩
    rw [hns, ← hdek row' hrow']
    exact opens_of_seals hseals hE
  · obtain ⟨_, ⟨row, v, rfl, ⟨row', hrow', hns⟩, value, hvalue, hseals⟩, hmade, -⟩ := ho.done a ha
    obtain ⟨hrow, hv⟩ := hmade.current h.stocked
    refine ⟨value, hvalue, row, v, hrow, hv.activeVersion, ?_⟩
    rw [hns, ← hdek row' hrow']
    exact opens_of_seals hseals hE

/-- **Rollback**: the ciphertext of another version of the same secret. -/
theorem rollback_keeps (h : Vault E k s) {cmd : RollbackSecretCommand} :
    Wp (agentRules E) cmd.execute.run s fun s' _ => Vault E k s' := by
  refine (rollback_outcome h.stocked cmd).mono fun s' r ho => h.outcome ho ?_
  rintro row v ⟨_, _, he, row', hrow', hns, target, htarget, hparent, -, hblob⟩
  obtain ⟨rfl, rfl⟩ := Prod.mk.inj (Option.some.inj he)
  unfold Opens
  rw [hns, hblob]
  exact h.opens row' ((select_iff h.keys).mp hrow').1 target htarget hparent

theorem delete_keeps (h : Vault E k s) {cmd : DeleteSecretCommand} :
    Wp (agentRules E) cmd.execute.run s fun s' _ => Vault E k s' :=
  (delete_outcome cmd).mono fun _ _ ho => h.outcome ho fun _ _ hnone => absurd hnone (by simp)

end Commands

/-! ### The handlers keep the vault -/

/-- A rotation names in its path the namespace of the secret that it rotates. -/
def NamespaceMatches (s : AppState) : Request → Prop
  | .rotate q => ∀ row ∈ s.store.secrets, Handle.fromStr q.handleEncoded = some row.handle →
      row.namespaceId.inner = q.namespaceId
  | _ => True

section Handlers

variable {E : Env} {k : Key} {s s' : AppState} {peer : PeerCredentials}

theorem putSecret_keeps (hE : DecryptsEncrypted E) (h : Vault E k s) (q : PutSecretRequest) :
    Wp (agentRules E) (putSecret E peer q).run s fun s' _ => Vault E k s' := by
  unfold putSecret
  refine wp_still_bind (still_orThrow _ _) (fun namespaceId => ?_) fun _ => h
  refine wp_still_bind (still_check _ _) (fun _ => ?_) fun _ => h
  refine wp_still_bind (still_orThrow _ _) (fun category => ?_) fun _ => h
  refine wp_still_bind (still_withError (still_attempt (idle_query _))) (fun ns => ?_) fun _ => h
  refine wp_still_bind (still_orThrow _ _) (fun ns => ?_) fun _ => h
  refine wp_still_bind (still_orThrow _ _) (fun secretName => ?_) fun _ => h
  refine wp_spec_bind (deriveDekBytes_eq _) (fun dek hdek => ?_) fun _ => h
  obtain ⟨k', hk', hdek⟩ := hdek
  obtain rfl : k = k' := Option.some.inj (h.key.symm.trans hk')
  rw [wp_except_bind, runApp, wp_withError]
  refine (put_keeps hE h hdek).mono fun s' r h' => ?_
  cases r with
  | error e => exact h'
  | ok reply => exact wp_still_bind (still_call (idle_port _)) (fun _ => h') fun _ => h'

/-- A rotation that answered success holds the value that was sent. -/
theorem rotateSecret_keeps (hE : DecryptsEncrypted E) (h : Vault E k s) (q : RotateSecretRequest)
    (hq : NamespaceMatches s (.rotate q)) :
    Wp (agentRules E) (rotateSecret E peer q).run s fun s' r => Vault E k s' ∧
      ∀ response, r = .ok response → ∃ handle value, Handle.fromStr q.handleEncoded = some handle ∧
        payload E q.valueFormat (textBytes q.newValue) = some value ∧ Holds E k handle value s' := by
  have herr : ∀ {s' : AppState}, Vault E k s' → ∀ e : Problem, Vault E k s' ∧
      ∀ response : Response, Except.error e = .ok response → ∃ handle value,
        Handle.fromStr q.handleEncoded = some handle ∧
        payload E q.valueFormat (textBytes q.newValue) = some value ∧ Holds E k handle value s' :=
    fun h _ => ⟨h, fun _ h => nomatch h⟩
  unfold rotateSecret
  rw [wp_except_bind, wp_orThrow]
  refine ⟨fun namespaceId hns => ?_, fun _ => herr h _⟩
  obtain rfl := ofUuid_eq hns
  refine wp_still_bind (still_check _ _) (fun _ => ?_) (herr h)
  rw [wp_except_bind, wp_ofExcept]
  refine ⟨fun handle hhandle => ?_, fun e _ => herr h _⟩
  have hparse := parseHandleEncoded_ok hhandle
  refine wp_spec_bind (deriveDekBytes_eq _) (fun dek hdek => ?_) (herr h)
  obtain ⟨k', hk', hdek⟩ := hdek
  obtain rfl : k = k' := Option.some.inj (h.key.symm.trans hk')
  rw [wp_except_bind, runApp, wp_withError]
  have hmatch : ∀ row, s.store.selectSecretRow handle = some row →
      dek = namespaceDek E k row.namespaceId := by
    intro row hrow
    obtain ⟨hmem, rfl⟩ := (select_iff h.keys).mp hrow
    rw [hdek, ← hq row hmem hparse]
  refine (rotate_keeps hE h hmatch).mono ?_
  rintro s' r ⟨h', hr⟩
  cases r with
  | error e => exact herr h' _
  | ok reply =>
    obtain ⟨value, hvalue, hholds⟩ := hr reply rfl
    have htail : Only quiet (do
        let versionsRetained ← secretVersionCount handle
        return ⟨reply, some handle, some (← call (.port .now)), some versionsRetained⟩ :
          SocketHandler Response).run :=
      only_except_bind (only_secretVersionCount reads_quiet) fun _ =>
        only_except_bind (only_call trivial) fun _ => only_pure _
    refine (wp_quiet htail).mono fun s'' r hs => ⟨h'.same hs, fun _ _ => ?_⟩
    exact ⟨handle, value, hparse, hvalue, hholds.same hs⟩

theorem rollbackSecret_keeps (h : Vault E k s) (q : RollbackSecretRequest) :
    Wp (agentRules E) (rollbackSecret peer q).run s fun s' _ => Vault E k s' := by
  unfold rollbackSecret
  refine wp_still_bind (still_orThrow _ _) (fun namespaceId => ?_) fun _ => h
  refine wp_still_bind (still_check _ _) (fun _ => ?_) fun _ => h
  refine wp_still_bind (still_ofExcept _ _) (fun handle => ?_) fun _ => h
  refine wp_still_bind (still_requireSlash _ _ _ _) (fun _ => ?_) fun _ => h
  rw [wp_except_bind, runApp, wp_withError]
  refine (rollback_keeps h).mono fun s' r h' => ?_
  cases r with
  | error e => exact h'
  | ok reply => exact wp_still_bind (still_call (idle_port _)) (fun _ => h') fun _ => h'

theorem deleteSecret_keeps (h : Vault E k s) (q : DeleteSecretRequest) :
    Wp (agentRules E) (deleteSecret peer q).run s fun s' _ => Vault E k s' := by
  unfold deleteSecret
  refine wp_still_bind (still_orThrow _ _) (fun namespaceId => ?_) fun _ => h
  refine wp_still_bind (still_check _ _) (fun _ => ?_) fun _ => h
  refine wp_still_bind (still_ofExcept _ _) (fun handle => ?_) fun _ => h
  refine wp_still_bind (still_requireSlash _ _ _ _) (fun _ => ?_) fun _ => h
  rw [wp_except_bind]
  refine (wp_quiet (only_secretVersionCount reads_quiet)).mono fun s' r hs => ?_
  cases r with
  | error e => exact h.same hs
  | ok count =>
    show Wp (agentRules E) (runApp _ >>= _ : SocketHandler Response).run s' _
    rw [wp_except_bind, runApp, wp_withError]
    refine (delete_keeps (h.same hs)).mono fun s' r h' => ?_
    cases r with
    | error e => exact h'
    | ok reply => exact h'

/-- **One request.** -/
theorem serve_keeps (hE : DecryptsEncrypted E) (h : Vault E k s) (q : Request)
    (hq : NamespaceMatches s q) :
    Wp (agentRules E) (q.serve E peer).run s fun s' _ => Vault E k s' := by
  have hquiet : ∀ {q : Request}, ¬changes q →
      Wp (agentRules E) (q.serve E peer).run s fun s' _ => Vault E k s' :=
    fun hq => (wp_quiet (quiet_serve hq)).mono fun _ _ hs => h.same hs
  cases q with
  | put q => exact putSecret_keeps hE h q
  | rotate q => exact (rotateSecret_keeps hE h q hq).mono fun _ _ hr => hr.1
  | rollback q => exact rollbackSecret_keeps h q
  | delete q => exact deleteSecret_keeps h q
  | _ => exact hquiet id

end Handlers

/-! ### Reveal -/

/-- The program changes no secret and does not fail in cryptography. -/
def Harmless {α : Type} (E : Env) (x : Handler α) : Prop :=
  ∀ s, Wp (agentRules E) x.run s fun s' r => SameVault s s' ∧ ∀ c, r ≠ .error (.crypto c)

section Harmless

variable {E : Env} {α β : Type}

theorem harmless_pure (a : α) : Harmless E (pure a) := fun s => ⟨SameVault.refl s, fun _ => nofun⟩

theorem harmless_throw {e : AppError} (he : ∀ c, e ≠ .crypto c) : Harmless E (throw e : Handler α) :=
  fun s => ⟨SameVault.refl s, fun c h => he c (Except.error.inj h)⟩

theorem harmless_orThrow {e : AppError} (he : ∀ c, e ≠ .crypto c) (o : Option α) :
    Harmless E (orThrow e o) := by
  cases o with
  | none => exact harmless_throw he
  | some a => exact harmless_pure a

theorem harmless_call (op : Op β) (h : quiet op) : Harmless E (call op) := by
  intro s
  rw [wp_call]
  exact ⟨trivial, fun r s' hx => ⟨exec_quiet h hx, fun _ => nofun⟩⟩

theorem harmless_port (p : Port β) : Harmless E (call (.port p)) := harmless_call _ trivial

theorem harmless_attempt {δ : Type} {f : δ → AppError} (hf : ∀ e c, f e ≠ .crypto c)
    {op : Op (Except δ β)} (h : quiet op) : Harmless E (attempt f op) := by
  intro s
  rw [wp_attempt]
  refine ⟨trivial, fun r s' hx => ⟨exec_quiet h hx, fun c hc => ?_⟩⟩
  cases r with
  | ok a => cases hc
  | error e => exact hf e c (Except.error.inj hc)

theorem harmless_query (q : Query β) : Harmless E (query q) :=
  @harmless_attempt _ _ _ .storage (fun _ _ h => AppError.noConfusion h) (.query q) trivial

theorem harmless_ofExcept {δ : Type} {f : δ → AppError} {x : Except δ α}
    (hx : ∀ e c, x = .error e → f e ≠ .crypto c) : Harmless E (Lib.Program.ofExcept f x) := by
  intro s
  rw [wp_ofExcept]
  refine ⟨fun a _ => ⟨SameVault.refl s, fun _ => nofun⟩, fun e he => ⟨SameVault.refl s, fun c hc => ?_⟩⟩
  exact hx e c he (Except.error.inj hc)

theorem harmless_bind {x : Handler α} {f : α → Handler β} (hx : Harmless E x)
    (hf : ∀ a, Harmless E (f a)) : Harmless E (x >>= f) := by
  intro s
  rw [wp_except_bind]
  refine (hx s).mono ?_
  rintro s' r ⟨hs, hr⟩
  cases r with
  | ok a => exact (hf a s').mono fun _ _ h => ⟨hs.trans h.1, h.2⟩
  | error e => exact ⟨hs, fun c h => hr c (by rw [Except.error.inj h])⟩

theorem auditCommitSection_error {K : Crates} {params : Audit.Writer.AppendParams} {key : Key}
    {draw : Audit.Writer.Draw} {fault : Option StorageError} {s s' : AppState} {e : AppError}
    (h : auditCommitSection K params key draw fault s = (.error e, s')) :
    (∃ a, e = .domain (.audit a)) ∨ ∃ a, e = .storage a := by
  unfold auditCommitSection at h
  split at h
  · next a _ => exact .inl ⟨a, (Except.error.inj (Prod.mk.inj h).1).symm⟩
  · split at h
    · next a _ => exact .inr ⟨a, (Except.error.inj (Prod.mk.inj h).1).symm⟩
    · cases (Prod.mk.inj h).1

theorem harmless_requireHmacKey : Harmless E requireHmacKey :=
  harmless_bind (harmless_call .readHmacKey trivial) fun _ =>
    harmless_orThrow (e := .vaultSealed) (fun _ => nofun) _

theorem harmless_auditCommit (params : Audit.Writer.AppendParams) (key : Key) :
    Harmless E (auditCommit params key) := by
  intro s
  rw [auditCommit, wp_attempt]
  refine ⟨trivial, ?_⟩
  rintro r s' ⟨draw, fault, hx⟩
  refine ⟨auditCommitSection_same hx, fun c hc => ?_⟩
  cases r with
  | ok a => cases hc
  | error e =>
    obtain rfl : e = .crypto c := Except.error.inj hc
    rcases auditCommitSection_error hx with ⟨a, ha⟩ | ⟨a, ha⟩
    · cases ha
    · cases ha

theorem harmless_record (params : Audit.Writer.AppendParams) {x : Handler α} (hx : Harmless E x) :
    Harmless E (do
      let hmacKey ← requireHmacKey
      auditCommit params hmacKey
      x) :=
  harmless_bind harmless_requireHmacKey fun key =>
    harmless_bind (harmless_auditCommit params key) fun _ => hx

theorem harmless_refuse (cmd : RevealSecretCommand) (reason detail : String) :
    Harmless E (cmd.refuse reason detail : Handler α) :=
  harmless_record _ (harmless_throw fun _ => nofun)

theorem harmless_requireUnsealed : Harmless E requireUnsealed := by
  refine harmless_bind (harmless_call (.identity .isUnsealed) trivial) fun b => ?_
  cases b with
  | true => exact harmless_pure ()
  | false => exact harmless_throw fun _ => nofun

theorem harmless_loadSecret (handle : Handle) : Harmless E (loadSecret handle) := by
  refine harmless_bind (harmless_bind (harmless_query _) fun row => ?_) fun _ =>
    harmless_orThrow (e := .notFound) (fun _ => nofun) _
  cases row with
  | none => exact harmless_pure none
  | some row => exact harmless_bind (harmless_query _) fun _ => harmless_pure _

/-- Every check of an attestation fails with a denial. -/
def Denies {α : Type} (x : Except AppError α) : Prop := ∀ e c, x = .error e → id e ≠ .crypto c

theorem denies_bind {x : Except AppError α} {f : α → Except AppError β} (hx : Denies x)
    (hf : ∀ a, Denies (f a)) : Denies (x >>= f) := by
  cases x with
  | ok a => exact hf a
  | error e =>
    intro e' c he
    obtain rfl := Except.error.inj he
    exact hx e c rfl

theorem denies_orDenied (reason : String) (o : Option α) : Denies (orDenied reason o) := by
  intro e c he
  cases o with
  | some a => cases he
  | none =>
    rw [← Except.error.inj he]
    exact nofun

theorem denies_ensure (condition : Bool) (reason : String) : Denies (ensure condition reason) := by
  intro e c he
  unfold ensure at he
  split_ifs at he
  rw [← Except.error.inj he]
  exact nofun

theorem denies_verifyAttestation (flag : SignedConfigFlag) (challengeId : ChallengeId)
    (operatorPubkey : Key) (now : Rfc3339Timestamp) :
    Denies (verifyAttestation E flag challengeId operatorPubkey now) := by
  refine denies_bind (denies_orDenied _ _) fun parts => ?_
  refine denies_bind (denies_orDenied _ _) fun headerBytes => ?_
  refine denies_bind (denies_orDenied _ _) fun header => ?_
  refine denies_bind (denies_ensure _ _) fun _ => ?_
  refine denies_bind (denies_ensure _ _) fun _ => ?_
  refine denies_bind (denies_orDenied _ _) fun sigBytes => ?_
  refine denies_bind (denies_orDenied _ _) fun signature => ?_
  refine denies_bind (denies_ensure _ _) fun _ => ?_
  refine denies_bind (denies_orDenied _ _) fun payloadBytes => ?_
  refine denies_bind (denies_orDenied _ _) fun payload => ?_
  refine denies_bind (denies_ensure _ _) fun _ => ?_
  exact denies_bind (denies_ensure _ _) fun _ => denies_ensure _ _

theorem harmless_attest (cmd : RevealSecretCommand) : Harmless E (cmd.attest E) := by
  have hdenied : ∀ reason c, denied reason ≠ .crypto c := fun _ _ => nofun
  unfold RevealSecretCommand.attest
  split
  · exact harmless_pure ()
  · split_ifs
    · exact harmless_pure ()
    · refine harmless_bind (harmless_attempt (fun _ => hdenied _) trivial) fun pubkey => ?_
      refine harmless_bind (harmless_orThrow (hdenied _) _) fun key => ?_
      refine harmless_bind (harmless_orThrow (hdenied _) _) fun challengeId => ?_
      refine harmless_bind (harmless_port _) fun now => ?_
      exact harmless_ofExcept (denies_verifyAttestation _ _ _ _)

theorem harmless_effectiveConfirmation (cmd : RevealSecretCommand) :
    Harmless E (cmd.effectiveConfirmation E) := by
  have hdevice : Harmless E cmd.targetDevice := by
    unfold RevealSecretCommand.targetDevice
    split
    · exact harmless_pure _
    · refine harmless_bind (harmless_call .newUuid trivial) fun _ => ?_
      exact harmless_bind (harmless_call (.port .now) trivial) fun _ => harmless_pure _
  unfold RevealSecretCommand.effectiveConfirmation
  split_ifs
  · refine harmless_bind ?_ fun _ => harmless_pure _
    refine harmless_bind hdevice fun device => ?_
    refine harmless_bind (harmless_call .newUuid trivial) fun id => ?_
    refine harmless_bind (harmless_port _) fun _ => ?_
    refine harmless_bind (harmless_port _) fun nonce => ?_
    refine harmless_bind (harmless_port _) fun dispatched => ?_
    cases dispatched with
    | error e => exact harmless_refuse _ _ _
    | ok u =>
      refine harmless_bind (harmless_port _) fun resolution => ?_
      cases resolution with
      | error e => exact harmless_refuse _ _ _
      | ok resolution =>
        simp only
        split_ifs
        · exact harmless_refuse _ _ _
        · split
          · exact harmless_refuse _ _ _
          · exact harmless_pure ()
  · exact harmless_pure _

end Harmless

section Reveal

variable {E : Env} {k : Key} {s : AppState} {peer : PeerCredentials}

/-- A command that returns gives the value, and does not fail in decryption. -/
def Gives (value : List UInt8) (r : Except AppError Reply) : Prop :=
  (∀ reply, r = .ok reply → reply = .revealed value) ∧ ∀ c, r ≠ .error (.crypto c)

theorem gives_error {value : List UInt8} {e : AppError} (h : ∀ c, e ≠ .crypto c) :
    Gives value (.error e) :=
  ⟨fun _ h => absurd h error_ne_ok, fun c hc => h c (Except.error.inj hc)⟩

theorem wp_harmless_bind {α β : Type} {x : Handler α} {f : α → Handler β}
    {Q : AppState → Except AppError β → Prop} (hx : Harmless E x)
    (hf : ∀ s' a, SameVault s s' → Wp (agentRules E) (f a).run s' Q)
    (herr : ∀ s' e, (∀ c, e ≠ AppError.crypto c) → Q s' (.error e)) :
    Wp (agentRules E) (x >>= f).run s Q := by
  rw [wp_except_bind]
  refine (hx s).mono ?_
  rintro s' r ⟨hs, hc⟩
  cases r with
  | ok a => exact hf s' a hs
  | error e => exact herr s' e fun c h => hc c (by rw [h])

theorem release_returns {cmd : RevealSecretCommand} {row : SecretRow} {v : SecretVersion}
    {value : List UInt8} (hrow : s.store.selectSecretRow cmd.handle = some row)
    (hv : (loaded s.store row).activeVersion = some v)
    (hopen : decryptBlob E cmd.dekBytes v.blob = .ok value) :
    Wp (agentRules E) (cmd.release E).run s fun _ r => Gives value r := by
  unfold RevealSecretCommand.release
  rw [wp_except_bind]
  refine ((loadSecret_eq _).and (harmless_loadSecret _ s)).mono ?_
  rintro s' r ⟨⟨rfl, hr⟩, -, hc⟩
  cases r with
  | error e => exact ⟨(fun _ h => nomatch h), fun c h => hc c (by rw [Except.error.inj h])⟩
  | ok sec =>
    obtain ⟨row', hrow', rfl⟩ := hr sec rfl
    obtain rfl : row' = row := Option.some.inj (hrow'.symm.trans hrow)
    show Wp (agentRules E) (orThrow _ _ >>= _ : Handler Reply).run _ _
    rw [wp_except_bind, wp_orThrow, hv]
    refine ⟨fun v' hv' => ?_, fun h => nomatch h⟩
    obtain rfl := Option.some.inj hv'
    show Wp (agentRules E) (Lib.Program.ofExcept _ _ >>= _ : Handler Reply).run _ _
    rw [wp_except_bind, wp_ofExcept, hopen]
    refine ⟨fun plaintext hplain => ?_, fun e h => nomatch h⟩
    obtain rfl := Except.ok.inj hplain
    have hlast : Returns E (do
        let hmacKey ← requireHmacKey
        auditCommit cmd.allow hmacKey
        return .revealed value : Handler Reply) (· = .revealed value) :=
      returns_last fun _ => returns_last fun _ => returns_pure rfl
    exact ((hlast s').and (harmless_record _ (harmless_pure _) s')).mono fun _ _ h => ⟨h.1, h.2.2⟩

/-- A reveal of the version under its key. -/
theorem execute_returns {cmd : RevealSecretCommand} {row : SecretRow} {v : SecretVersion}
    {value : List UInt8} (hrow : s.store.selectSecretRow cmd.handle = some row)
    (hv : (loaded s.store row).activeVersion = some v)
    (hopen : decryptBlob E cmd.dekBytes v.blob = .ok value) :
    Wp (agentRules E) (cmd.execute E).run s fun _ r => Gives value r := by
  unfold RevealSecretCommand.execute
  refine wp_harmless_bind harmless_requireUnsealed (fun s₁ _ hs₁ => ?_) fun _ _ => gives_error
  refine wp_harmless_bind (harmless_attest cmd) (fun s₂ _ hs₂ => ?_) fun _ _ => gives_error
  refine wp_harmless_bind (harmless_effectiveConfirmation cmd) (fun s₃ c hs₃ => ?_)
    fun _ _ => gives_error
  have hs := (hs₁.trans hs₂).trans hs₃
  split
  · next reason _ =>
    have hnone : Returns E (cmd.refuse reason reason : Handler Reply) (· = .revealed value) :=
      returns_last fun _ => returns_last fun _ => returns_throw _
    exact ((hnone s₃).and (harmless_refuse cmd _ _ s₃)).mono fun _ _ h => ⟨h.1, h.2.2⟩
  · refine release_returns ((select_congr hs.secrets _).trans hrow) ?_ hopen
    rw [loaded_congr hs.versions]
    exact hv

/-- A reveal that returns gives the value, and none fails in decryption. -/
def Reveals (value : List UInt8) (r : Except Problem Response) : Prop :=
  (∀ response, r = .ok response → response.reply = .revealed value) ∧
    ∀ c, r ≠ .error (.app (.crypto c))

theorem reveals_error {value : List UInt8} {e : AppError} (h : ∀ c, e ≠ .crypto c) :
    Reveals value (.error (.app e)) :=
  ⟨(fun _ h => nomatch h), fun c hc => h c (Problem.app.inj (Except.error.inj hc))⟩

theorem wp_runApp_bind {α : Type} {x : Handler α} {f : α → SocketHandler Response}
    {value : List UInt8} (hx : Harmless E x)
    (hf : ∀ s' a, SameVault s s' → Wp (agentRules E) (f a).run s' fun _ r => Reveals value r) :
    Wp (agentRules E) (runApp x >>= f).run s fun _ r => Reveals value r := by
  rw [wp_except_bind, runApp, wp_withError]
  refine (hx s).mono ?_
  rintro s' r ⟨hs, hc⟩
  cases r with
  | ok a => exact hf s' a hs
  | error e => exact reveals_error fun c h => hc c (by rw [h])

theorem wp_check_bind {namespaceId : NamespaceId} {f : Unit → SocketHandler Response}
    {value : List UInt8} (hf : Wp (agentRules E) (f ()).run s fun _ r => Reveals value r) :
    Wp (agentRules E) (check namespaceId peer >>= f).run s fun _ r => Reveals value r := by
  unfold check
  rw [wp_except_bind, wp_except_bind, wp_call]
  refine ⟨trivial, ?_⟩
  rintro r _ ⟨rfl, -⟩
  match r with
  | .error e => exact reveals_error fun _ => nofun
  | .ok none => exact hf
  | .ok (some policy) =>
    show Wp (agentRules E) (Lib.Program.ofExcept id _ : SocketHandler Unit).run _ _
    rw [wp_ofExcept]
    refine ⟨fun _ _ => hf, fun e he => ?_⟩
    unfold enforceConsumerAllowlist at he
    split_ifs at he
    split at he
    · split_ifs at he
      obtain rfl := Except.error.inj he
      exact reveals_error fun _ => nofun
    · obtain rfl := Except.error.inj he
      exact reveals_error fun _ => nofun

theorem executeReveal_returns {handle : Handle} {namespaceId : NamespaceId}
    {sensitivity : Sensitivity} {oobChannel : OobChannel} {dek : Key} {row : SecretRow}
    {v : SecretVersion} {value : List UInt8} (hrow : s.store.selectSecretRow handle = some row)
    (hv : (loaded s.store row).activeVersion = some v)
    (hopen : decryptBlob E dek v.blob = .ok value) :
    Wp (agentRules E) (executeReveal E handle namespaceId sensitivity oobChannel dek).run s
      fun _ r => Reveals value r := by
  unfold executeReveal
  refine wp_runApp_bind (harmless_query _) fun s₁ policy hs₁ => ?_
  simp only
  split_ifs
  · exact reveals_error fun _ h => absurd h (by simp)
  · refine wp_runApp_bind (harmless_query _) fun s₂ devices hs₂ => ?_
    have hs := hs₁.trans hs₂
    rw [wp_except_bind, runApp, wp_withError]
    refine (execute_returns ((select_congr hs.secrets _).trans hrow)
      (by rw [loaded_congr hs.versions]; exact hv) hopen).mono ?_
    rintro s' r ⟨hok, hc⟩
    cases r with
    | error e => exact reveals_error fun c h => hc c (by rw [h])
    | ok reply =>
      show Wp (agentRules E) (call (.port .now) >>= _ : SocketHandler Response).run _ _
      rw [wp_except_bind, wp_call]
      refine ⟨trivial, fun now s'' _ => ⟨fun response hresponse => ?_, fun _ h => absurd h.symm error_ne_ok⟩⟩
      rw [← Except.ok.inj hresponse]
      exact hok reply rfl

/-- **A reveal gives what the handle holds.** -/
theorem reveal_returns {q : RevealRequest} {value : List UInt8} (hk : s.hmacKey = some k)
    (h : Holds E k q.handle value s) :
    Wp (agentRules E) (Handlers.reveal E peer q).run s fun _ r => Reveals value r := by
  unfold Handlers.reveal
  split_ifs
  · exact ⟨(fun _ h => nomatch h), fun _ h => nomatch h⟩
  · refine wp_runApp_bind harmless_requireUnsealed fun s₁ _ hs₁ => ?_
    obtain ⟨row, v, hrow, hv, hopen⟩ := h.same hs₁
    rw [wp_except_bind, runApp, wp_withError]
    refine ((loadSecret_eq _).and (harmless_loadSecret _ s₁)).mono ?_
    rintro s₂ r ⟨⟨rfl, hr⟩, -, hc⟩
    cases r with
    | error e => exact reveals_error fun c h => hc c (by rw [h])
    | ok sec =>
      obtain ⟨row', hrow', rfl⟩ := hr sec rfl
      obtain rfl : row' = row := Option.some.inj (hrow'.symm.trans hrow)
      show Wp (agentRules E) (check _ _ >>= _ : SocketHandler Response).run _ _
      refine wp_check_bind ?_
      unfold deriveDekBytes
      rw [wp_except_bind, wp_except_bind, runApp, wp_withError]
      refine (requireHmacKey_eq.and (harmless_requireHmacKey _)).mono ?_
      rintro s₃ r ⟨⟨rfl, hkey⟩, -, hc⟩
      cases r with
      | error e => exact reveals_error fun c h => hc c (by rw [h])
      | ok key =>
        obtain rfl : key = k := Option.some.inj ((hkey key rfl).symm.trans (hs₁.hmacKey.trans hk))
        exact executeReveal_returns hrow hv hopen

end Reveal

/-! ### Sequences of requests -/

/-- The states that a sequence of requests leads to, one after the other and from any peers, each
request under a condition on the state that it meets. -/
inductive Served (E : Env) (G : AppState → Request → Prop) (s₀ : AppState) : AppState → Prop
  | start : Served E G s₀ s₀
  | serve {s s' : AppState} {hist : List (Event Op)} {r : Except Problem Response}
      (h : Served E G s₀ s) (peer : PeerCredentials) (q : Request) (hg : G s q)
      (hr : Runs (exec E.toCrates) (q.serve E peer).run s hist r s') : Served E G s₀ s'

/-- Every stored version of every secret opens under the data key of the secret's namespace. -/
def KeysConsistent (E : Env) (k : Key) (s : AppState) : Prop :=
  ∀ row ∈ s.store.secrets, ∀ v ∈ s.store.versions, v.secretId = row.id → Opens E k row v

/-- After a rotation that answered success the handle holds the value that was sent, and a reveal of
it gives that value. -/
def RotationReveals (E : Env) (k : Key) (s : AppState) (q : RotateSecretRequest) : Prop :=
  ∀ peer hist response s', Runs (exec E.toCrates) (rotateSecret E peer q).run s hist (.ok response) s' →
    ∃ handle value, Handle.fromStr q.handleEncoded = some handle ∧
      payload E q.valueFormat (textBytes q.newValue) = some value ∧ Holds E k handle value s' ∧
      ∀ peer' (p : RevealRequest) hist' r s'', p.handle = handle →
        Runs (exec E.toCrates) (Handlers.reveal E peer' p).run s' hist' r s'' → Reveals value r

theorem vault_of_served {E : Env} {k : Key} {s₀ s : AppState} (hE : DecryptsEncrypted E)
    (h₀ : Vault E k s₀) (h : Served E NamespaceMatches s₀ s) : Vault E k s := by
  induction h with
  | start => exact h₀
  | serve _ peer q hg hr ih => exact wp_runs (Q := fun s' _ => Vault E k s') (serve_keeps hE ih q hg) hr

/-- **Stored ciphertexts open.**  From an empty store, in every sequence of requests whose rotations
name the namespace of the secret that they rotate, every stored version opens under the data key of
its secret's namespace, and a rotated value comes back. -/
theorem ciphertexts_open (E : Env) (hE : DecryptsEncrypted E) (k : Key) (s₀ s : AppState)
    (hk : s₀.hmacKey = some k) (hsecrets : s₀.store.secrets = []) (hversions : s₀.store.versions = [])
    (h : Served E NamespaceMatches s₀ s) :
    KeysConsistent E k s ∧ ∀ q, NamespaceMatches s (.rotate q) → RotationReveals E k s q := by
  have h₀ : Vault E k s₀ := by
    refine ⟨hk, ⟨?_, ?_, ?_⟩, ?_, ?_, ?_, ?_⟩ <;> simp [hsecrets, hversions]
  have hv := vault_of_served hE h₀ h
  refine ⟨hv.opens, fun q hq peer hist response s' hrot => ?_⟩
  obtain ⟨hv', hr⟩ := wp_runs (rotateSecret_keeps hE hv q hq) hrot
  obtain ⟨handle, value, hhandle, hvalue, hholds⟩ := hr response rfl
  refine ⟨handle, value, hhandle, hvalue, hholds, ?_⟩
  rintro peer' p hist' r s'' rfl hreveal
  exact wp_runs (Q := fun _ r => Reveals value r) (reveal_returns hv'.key hholds) hreveal

/-! ### Two namespaces -/

/-- A vault with the namespaces `prod` and `dev` and no secret. -/
def sampleSpaces : AppState := { sampleState with
  issued := [sampleUuid 0x72, sampleUuid 0x71]
  store := { Store.empty with namespaces :=
    [⟨⟨sampleUuid 0x71⟩, sampleLabel, none, 1, epoch⟩,
      ⟨⟨sampleUuid 0x72⟩, sampleDev, none, 1, epoch⟩] } }

/-- A put of a database secret. -/
def samplePut : PutSecretRequest where
  namespaceId := sampleUuid 0x71
  name := "postgres"
  category := "database"
  value := "abc"
  valueFormat := .utf8
  tags := []
  sensitivity := none
  description := none
  expose := false

/-- The secret's row in `prod`. -/
def sampleProd (current : UInt8) : SecretRow :=
  ⟨⟨sampleUuid 5⟩, ⟨sampleUuid 0x71⟩, sampleHandle, .database, .medium, [], ⟨none, false⟩, epoch,
    ⟨sampleUuid current⟩⟩

/-- A version of it, encrypted under the key of a namespace. -/
def sampleUnder (id : UInt8) (number : UInt32) (ns : UInt8) (value : List UInt8) : SecretVersion :=
  ⟨⟨sampleUuid id⟩, ⟨sampleUuid 5⟩, number,
    sampleBlob (namespaceDek sampleEnv sampleKey ⟨sampleUuid ns⟩) value, 1, epoch, none⟩

/-- The vault after the put. -/
def sampleFilled : AppState := { sampleSpaces with
  issued := [sampleUuid 5, sampleUuid 4, sampleUuid 3, sampleUuid 0x72, sampleUuid 0x71]
  store := { sampleSpaces.store with
    secrets := [sampleProd 4]
    versions := [sampleUnder 4 1 0x71 [97, 98, 99]] } }

/-- A client whose program is unknown. -/
def samplePeer : PeerCredentials := ⟨none⟩

/-- The put is stored; its entry meets a storage fault. -/
theorem sample_put : ∃ hist, Runs (exec sampleEnv.toCrates)
    (putSecret sampleEnv samplePeer samplePut).run sampleSpaces hist
    (.error (.app (.storage (.transient "busy")))) sampleFilled := by
  let s₁ : AppState := { sampleSpaces with issued := sampleUuid 3 :: sampleSpaces.issued }
  let s₂ : AppState := { s₁ with issued := sampleUuid 4 :: s₁.issued }
  let s₃ : AppState := { s₂ with issued := sampleUuid 5 :: s₂.issued }
  refine exists_runs_act rfl (.ok none) sampleSpaces ⟨rfl, none, rfl⟩ ?_
  refine exists_runs_act rfl (.ok (sampleSpaces.store.namespaces.head?)) sampleSpaces ⟨rfl, none, rfl⟩ ?_
  refine exists_runs_act rfl (some sampleKey) sampleSpaces ⟨rfl, rfl⟩ ?_
  refine exists_runs_act rfl true sampleSpaces rfl ?_
  refine exists_runs_act rfl (Vector.replicate 24 0) sampleSpaces rfl ?_
  refine exists_runs_act rfl (sampleUuid 3) s₁ ⟨by decide, rfl⟩ ?_
  refine exists_runs_act rfl (sampleUuid 4) s₂ ⟨by decide, rfl⟩ ?_
  refine exists_runs_act rfl epoch s₂ rfl ?_
  refine exists_runs_act rfl (sampleUuid 5) s₃ ⟨by decide, rfl⟩ ?_
  refine exists_runs_act rfl epoch s₃ rfl ?_
  refine exists_runs_act rfl (.ok ()) sampleFilled ⟨none, rfl⟩ ?_
  refine exists_runs_act rfl (some sampleKey) sampleFilled ⟨rfl, rfl⟩ ?_
  refine exists_runs_act rfl (.error (.storage (.transient "busy"))) sampleFilled
    ⟨(sampleCall 1).draw, some (.transient "busy"), rfl⟩ ?_
  exact exists_runs_ret rfl

/-- A rotation of the secret with the given namespace in its path. -/
def sampleRotation (ns : UInt8) : RotateSecretRequest :=
  ⟨sampleUuid ns, "vault://prod/database/postgres", "new", .utf8⟩

/-- The vault after such a rotation, up to its entry. -/
def sampleTurned (ns : UInt8) : AppState := { sampleFilled with
  issued := sampleUuid 6 :: sampleFilled.issued
  store := { sampleFilled.store with
    secrets := [sampleProd 6]
    versions := [setDeprecated epoch (sampleUnder 4 1 0x71 [97, 98, 99]),
      sampleUnder 6 2 ns [110, 101, 119]] } }

theorem sample_load_first : sampleFilled.store.loadVersionsForSecret ⟨sampleUuid 5⟩ =
    [sampleUnder 4 1 0x71 [97, 98, 99]] := by
  simp [Store.loadVersionsForSecret, sampleFilled, sampleUnder]

theorem sample_load_both (ns : UInt8) :
    (sampleTurned ns).store.loadVersionsForSecret ⟨sampleUuid 5⟩ =
      (sampleTurned ns).store.versions := by
  have hfilter : ((sampleTurned ns).store.versions.filter fun v => v.secretId = ⟨sampleUuid 5⟩) =
      (sampleTurned ns).store.versions := rfl
  rw [Store.loadVersionsForSecret, hfilter]
  refine List.mergeSort_of_pairwise ?_
  simp [sampleTurned, setDeprecated, sampleUnder]

/-- It answers success, whatever the namespace in its path. -/
theorem sample_rotation (ns : UInt8)
    (hns : NamespaceId.ofUuid (sampleUuid ns) = some ⟨sampleUuid ns⟩) :
    ∃ s' response hist, SameVault (sampleTurned ns) s' ∧ s'.identity = sampleState.identity ∧
      s'.store.policies = [] ∧ s'.store.companionDevices = [] ∧
      Runs (exec sampleEnv.toCrates) (rotateSecret sampleEnv samplePeer (sampleRotation ns)).run
        sampleFilled hist (.ok response) s' := by
  let s₁ : AppState := { sampleFilled with issued := sampleUuid 6 :: sampleFilled.issued }
  obtain ⟨s₂, hx, -⟩ := first_commit sampleCrates
    (rotated ⟨sampleUuid ns⟩ sampleHandle .medium) sampleKey (sampleCall 1).draw (sampleTurned ns) rfl
  have hs₂ := auditCommitSection_same hx
  have hload : s₂.store.loadVersionsForSecret ⟨sampleUuid 5⟩ = (sampleTurned ns).store.versions := by
    rw [← sample_load_both ns, Store.loadVersionsForSecret, hs₂.versions]
    rfl
  have hparse : parseHandleEncoded (sampleRotation ns).handleEncoded = .ok sampleHandle := by
    have hfrom : Handle.fromStr "vault://prod/database/postgres" = some sampleHandle := rfl
    rw [sampleRotation, parseHandleEncoded, hfrom]
  have hprog : rotateSecret sampleEnv samplePeer (sampleRotation ns) = (do
      let namespaceId ← pure ⟨sampleUuid ns⟩
      check namespaceId samplePeer
      let handle ← pure sampleHandle
      let dekBytes ← deriveDekBytes sampleEnv namespaceId
      let cmd : RotateSecretCommand := ⟨namespaceId, handle, textBytes "new", .utf8, 1, dekBytes⟩
      let reply ← runApp (cmd.execute sampleEnv)
      let versionsRetained ← secretVersionCount handle
      return ⟨reply, some handle, some (← call (.port .now)), some versionsRetained⟩) := by
    unfold rotateSecret
    rw [show (sampleRotation ns).namespaceId = sampleUuid ns from rfl, hns, hparse]
    rfl
  have hrun : ∃ hist, Runs (exec sampleEnv.toCrates)
      (rotateSecret sampleEnv samplePeer (sampleRotation ns)).run sampleFilled hist
      (.ok ⟨.rotated 2, some sampleHandle, some epoch, some 2⟩) s₂ := by
    rw [hprog]
    refine exists_runs_act rfl (.ok none) sampleFilled ⟨rfl, none, rfl⟩ ?_
    refine exists_runs_act rfl (some sampleKey) sampleFilled ⟨rfl, rfl⟩ ?_
    refine exists_runs_act rfl true sampleFilled rfl ?_
    refine exists_runs_act rfl (.ok (some (sampleProd 4))) sampleFilled ⟨rfl, none, rfl⟩ ?_
    refine exists_runs_act rfl (.ok [sampleUnder 4 1 0x71 [97, 98, 99]]) sampleFilled
      ⟨rfl, none, by rw [← sample_load_first]; rfl⟩ ?_
    refine exists_runs_act rfl (Vector.replicate 24 0) sampleFilled rfl ?_
    refine exists_runs_act rfl (sampleUuid 6) s₁ ⟨by decide, rfl⟩ ?_
    refine exists_runs_act rfl epoch s₁ rfl ?_
    refine exists_runs_act rfl epoch s₁ rfl ?_
    refine exists_runs_act rfl (.ok ()) (sampleTurned ns) ⟨none, rfl⟩ ?_
    refine exists_runs_act rfl (some sampleKey) (sampleTurned ns) ⟨rfl, rfl⟩ ?_
    refine exists_runs_act rfl (.ok ()) s₂ ⟨_, _, hx⟩ ?_
    refine exists_runs_act rfl (.ok (some (sampleProd 6))) s₂
      ⟨rfl, none, by rw [Query.answer, select_congr hs₂.secrets]; rfl⟩ ?_
    refine exists_runs_act rfl (.ok (sampleTurned ns).store.versions) s₂
      ⟨rfl, none, by rw [← hload]; rfl⟩ ?_
    refine exists_runs_act rfl epoch s₂ rfl ?_
    exact exists_runs_ret rfl
  obtain ⟨hist, hrun⟩ := hrun
  refine ⟨s₂, _, hist, hs₂, ?_, ?_, ?_, hrun⟩
  · rw [auditCommitSection_eq hx]
    rfl
  · rw [auditCommitSection_eq hx]
    rfl
  · rw [auditCommitSection_eq hx]
    rfl

theorem sample_decrypts : DecryptsEncrypted sampleEnv := by
  intro key nonce plaintext aad ciphertext h
  obtain rfl : key.toList ++ plaintext ++ List.replicate 16 0 = ciphertext := Except.ok.inj h
  show sampleDecrypt key nonce _ aad = .ok plaintext
  have hlen : key.toList.length = 32 := by simp
  have htotal : (key.toList ++ plaintext ++ List.replicate 16 0).length = plaintext.length + 48 := by
    rw [List.length_append, List.length_append, hlen, List.length_replicate]
    omega
  rw [sampleDecrypt, htotal, if_pos, List.append_assoc]
  · rw [List.drop_append_of_le_length hlen.ge, List.drop_of_length_le hlen.le, List.nil_append,
      Nat.add_sub_cancel, List.take_left]
  · refine ⟨?_, by omega⟩
    rw [List.append_assoc, List.take_append_of_le_length hlen.ge, List.take_of_length_le hlen.le]

/-- A put and a rotation that names the secret's namespace. -/
theorem matching_rotation_opens : ∃ s', sampleSpaces.hmacKey = some sampleKey ∧
    Served sampleEnv NamespaceMatches sampleSpaces s' ∧ s'.store.secrets = [sampleProd 6] ∧
    KeysConsistent sampleEnv sampleKey s' ∧
    ∀ q, NamespaceMatches s' (.rotate q) → RotationReveals sampleEnv sampleKey s' q := by
  obtain ⟨_, hput⟩ := sample_put
  obtain ⟨s', response, hist, hs', -, -, -, hrot⟩ := sample_rotation 0x71 (by decide)
  have h₁ : Served sampleEnv NamespaceMatches sampleSpaces sampleFilled :=
    .serve .start samplePeer (.put samplePut) trivial hput
  have hmatch : NamespaceMatches sampleFilled (.rotate (sampleRotation 0x71)) := by
    intro row hrow _
    rw [List.mem_singleton.mp hrow]
    rfl
  have h₂ : Served sampleEnv NamespaceMatches sampleSpaces s' :=
    .serve h₁ samplePeer (.rotate (sampleRotation 0x71)) hmatch hrot
  exact ⟨s', rfl, h₂, hs'.secrets,
    ciphertexts_open sampleEnv sample_decrypts sampleKey sampleSpaces s' rfl rfl rfl h₂⟩

/-- A reveal with a slash command. -/
def sampleRevealRequest : RevealRequest := ⟨sampleHandle, true, none⟩

/-- The same rotation with the other namespace in its path answers success as well, but its version
does not open under the key of the secret's namespace, and a reveal of the secret fails. -/
theorem mismatched_rotation_unreadable : ∃ s' response hist hist',
    DecryptsEncrypted sampleEnv ∧ sampleSpaces.hmacKey = some sampleKey ∧
    sampleSpaces.store.secrets = [] ∧ sampleSpaces.store.versions = [] ∧
    Served sampleEnv (fun _ _ => True) sampleSpaces sampleFilled ∧
    Runs (exec sampleEnv.toCrates) (rotateSecret sampleEnv samplePeer (sampleRotation 0x72)).run
      sampleFilled hist (.ok response) s' ∧
    ¬ KeysConsistent sampleEnv sampleKey s' ∧
    Runs (exec sampleEnv.toCrates) (Handlers.reveal sampleEnv samplePeer sampleRevealRequest).run
      s' hist' (.error (.app (.crypto .aeadVerifyFailed))) s' := by
  obtain ⟨_, hput⟩ := sample_put
  obtain ⟨s', response, hist, hs', hidentity, hpolicies, hdevices, hrot⟩ :=
    sample_rotation 0x72 (by decide)
  have hrow : s'.store.selectSecretRow sampleHandle = some (sampleProd 6) := by
    rw [select_congr hs'.secrets]
    rfl
  have hload : s'.store.loadVersionsForSecret ⟨sampleUuid 5⟩ = (sampleTurned 0x72).store.versions := by
    rw [← sample_load_both 0x72, Store.loadVersionsForSecret, hs'.versions]
    rfl
  have hpolicy : s'.store.getNamespacePolicy ⟨sampleUuid 0x71⟩ = none := by
    rw [Store.getNamespacePolicy, hpolicies]
    rfl
  have hunsealed : s'.identity.isUnsealed = true := by
    rw [hidentity]
    rfl
  have hselect : exec sampleEnv.toCrates (.query (.selectSecretRow sampleHandle)) s'
      (.ok (some (sampleProd 6))) s' := ⟨rfl, none, by rw [← hrow]; rfl⟩
  have hversions : exec sampleEnv.toCrates (.query (.loadVersionsForSecret ⟨sampleUuid 5⟩)) s'
      (.ok (sampleTurned 0x72).store.versions) s' := ⟨rfl, none, by rw [← hload]; rfl⟩
  have hnone : exec sampleEnv.toCrates (.query (.getNamespacePolicy ⟨sampleUuid 0x71⟩)) s'
      (.ok none) s' := ⟨rfl, none, by rw [← hpolicy]; rfl⟩
  have hlisted : [] = s'.store.listCompanionDevices := by
    rw [listCompanionDevices_of_sorted s'.store (by rw [hdevices]; exact .nil), hdevices]
  have hopen : exec sampleEnv.toCrates (.identity .isUnsealed) s' true s' := by
    rw [← hunsealed]
    rfl
  have hreveal : ∃ hist', Runs (exec sampleEnv.toCrates)
      (Handlers.reveal sampleEnv samplePeer sampleRevealRequest).run s' hist'
      (.error (.app (.crypto .aeadVerifyFailed))) s' := by
    refine exists_runs_act rfl true s' hopen ?_
    refine exists_runs_act rfl (.ok (some (sampleProd 6))) s' hselect ?_
    refine exists_runs_act rfl (.ok (sampleTurned 0x72).store.versions) s' hversions ?_
    refine exists_runs_act rfl (.ok none) s' hnone ?_
    refine exists_runs_act rfl (some sampleKey) s' ⟨hs'.hmacKey.symm, rfl⟩ ?_
    refine exists_runs_act rfl (.ok none) s' hnone ?_
    refine exists_runs_act rfl (.ok []) s' ⟨rfl, none, congrArg Except.ok hlisted⟩ ?_
    refine exists_runs_act rfl true s' hopen ?_
    refine exists_runs_act rfl (.ok (some (sampleProd 6))) s' hselect ?_
    refine exists_runs_act rfl (.ok (sampleTurned 0x72).store.versions) s' hversions ?_
    exact exists_runs_ret rfl
  obtain ⟨hist', hreveal⟩ := hreveal
  refine ⟨s', response, hist, hist', sample_decrypts, rfl, rfl, rfl,
    .serve .start samplePeer (.put samplePut) trivial hput, hrot, fun h => ?_, hreveal⟩
  obtain ⟨plaintext, hplain⟩ := h (sampleProd 6) (by rw [hs'.secrets]; exact List.mem_cons_self)
    (sampleUnder 6 2 0x72 [110, 101, 119])
    (by rw [hs'.versions]; exact List.mem_cons_of_mem _ List.mem_cons_self) rfl
  cases hplain

end MerkleVault.Socket.KeyConsistency

