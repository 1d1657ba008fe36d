import MerkleVault.App.Recovery

/-! # Key Material

The Vault Root Key is stored encrypted under the master key; the master key is in the keychain, and
once more encrypted under a key that Argon2id derives from a passphrase.  An unseal reads it by one of
the two routes.  What it reads is a function of the keychain.

* `rootKey`: the Vault Root Key that a keychain yields by a route;
* `fetch_yields`, `fetch_runs`: an unseal that fetches key material fetches that, and without a fault
  it does fetch it;
* `rootKey_keychain`, `rootKey_passphrase`: the keychains that yield a key. -/

namespace MerkleVault.App.KeyMaterial

open MerkleVault.Types MerkleVault.External MerkleVault.Lib.Program MerkleVault.Audit.Writer
open MerkleVault.App.Context MerkleVault.App.Lifecycle MerkleVault.App.Host MerkleVault.App.Restore

/-- The items of a keychain, by service and account. -/
abbrev Keychain := String × String → Option (List UInt8)

variable (W : World) (K : Keychain)

/-! ### What a keychain yields -/

/-- `nonce[24] || ciphertext`, decoded, opened under a key and of the length of a key. -/
def openKey (key : Key) (aad blob : List UInt8) : Option Key := do
  let wrapped ← (W.base64Decode blob).toOption
  let (nonce, ciphertext) ← splitNonce wrapped
  let bytes ← (W.aeadDecrypt key nonce ciphertext aad).toOption
  keyOfSlice bytes

/-- The master key by way of the passphrase. -/
def passphraseMaster (passphrase : String) : Option Key :=
  if passphrase.isEmpty then none else do
    let params ← (W.argon2ParamsOfJson (← K (keychainService, accountArgon2Params))).toOption
    let kdfKey ← (W.argon2id passphrase params).toOption
    openKey W kdfKey masterPassphraseAad (← K (keychainService, accountMasterPassphraseWrap))

/-- The master key by a route: the passphrase, or the keychain. -/
def masterKey : Option String → Option Key
  | some passphrase => passphraseMaster W K passphrase
  | none => (K (keychainService, accountMasterKey)).bind keyOfSlice

/-- The Vault Root Key by a route. -/
def rootKey (route : Option String) : Option Key := do
  openKey W (← masterKey W K route) vrkMasterAad (← K (keychainService, accountVrkMaster))

/-- The bytes `nonce || ciphertext`, as they are stored. -/
def wrapBlob (nonce : Vector UInt8 24) (ciphertext : List UInt8) : List UInt8 :=
  W.base64Encode (nonce.toList ++ ciphertext)

variable {W K}

theorem splitNonce_append (nonce : Vector UInt8 24) {ciphertext : List UInt8}
    (h : ciphertext ≠ []) : splitNonce (nonce.toList ++ ciphertext) = some (nonce, ciphertext) := by
  have hlen : nonce.toList.length = 24 := by simp
  have hpos : 0 < ciphertext.length := List.length_pos_iff.mpr h
  have htake : (nonce.toList ++ ciphertext).take 24 = nonce.toList :=
    List.take_left' hlen
  have hdrop : (nonce.toList ++ ciphertext).drop 24 = ciphertext :=
    List.drop_left' hlen
  have hlt : nonceLen < (nonce.toList ++ ciphertext).length := by
    rw [List.length_append, hlen, nonceLen]
    omega
  unfold splitNonce
  rw [dif_pos hlt]
  simp only [htake, hdrop]
  rfl

/-- **What was wrapped under a key is opened by it.** -/
theorem openKey_wrapBlob (hW : W.Lawful) {key value : Key} {nonce : Vector UInt8 24}
    {aad ciphertext : List UInt8} (h : W.aeadEncrypt key nonce value.toList aad = .ok ciphertext) :
    openKey W key aad (wrapBlob W nonce ciphertext) = some value := by
  unfold openKey wrapBlob
  rw [hW.base64]
  simp only [Except.toOption, Option.bind_eq_bind, Option.bind_some,
    splitNonce_append nonce (hW.aeadTag _ _ _ _ _ h), hW.aead _ _ _ _ _ h, keyOfSlice_toList]

/-- The keychain with a master key and the root key wrapped under it. -/
theorem rootKey_keychain (hW : W.Lawful) {master vrk : Key} {nonce : Vector UInt8 24}
    {ciphertext : List UInt8} (hmaster : K (keychainService, accountMasterKey) = some master.toList)
    (hvrk : K (keychainService, accountVrkMaster) = some (wrapBlob W nonce ciphertext))
    (h : W.aeadEncrypt master nonce vrk.toList vrkMasterAad = .ok ciphertext) :
    rootKey W K none = some vrk := by
  unfold rootKey masterKey
  rw [hmaster, hvrk, Option.bind_some, keyOfSlice_toList]
  exact openKey_wrapBlob hW h

/-- The master key wrapped under a passphrase. -/
structure Enrolled (W : World) (K : Keychain) (passphrase : String) (master : Key) : Prop where
  nonempty : passphrase.isEmpty = false
  wrap : ∃ params kdfKey nonce ciphertext, W.argon2id passphrase params = .ok kdfKey ∧
    W.aeadEncrypt kdfKey nonce master.toList masterPassphraseAad = .ok ciphertext ∧
    K (keychainService, accountArgon2Params) = some (W.argon2ParamsJson params) ∧
    K (keychainService, accountMasterPassphraseWrap) = some (wrapBlob W nonce ciphertext)

theorem Enrolled.master (hW : W.Lawful) {passphrase : String} {master : Key}
    (h : Enrolled W K passphrase master) : passphraseMaster W K passphrase = some master := by
  obtain ⟨params, kdfKey, nonce, ciphertext, hkdf, hwrap, hparams, hblob⟩ := h.wrap
  unfold passphraseMaster
  rw [if_neg (by rw [h.nonempty]; exact Bool.false_ne_true), hparams, hblob]
  simp only [Option.bind_eq_bind, Option.bind_some, hW.argon2Params, Except.toOption, hkdf]
  exact openKey_wrapBlob hW hwrap

/-- The two routes yield the same key when the passphrase wraps the master key of the keychain. -/
theorem rootKey_passphrase (hW : W.Lawful) {passphrase : String} {master : Key}
    (hmaster : K (keychainService, accountMasterKey) = some master.toList)
    (h : Enrolled W K passphrase master) : rootKey W K (some passphrase) = rootKey W K none := by
  have hpassphrase : masterKey W K (some passphrase) = some master := h.master hW
  have hkeychain : masterKey W K none = some master := by
    unfold masterKey
    rw [hmaster, Option.bind_some, keyOfSlice_toList]
  unfold rootKey
  rw [hpassphrase, hkeychain]

/-! ### What an unseal fetches -/

/-- At a position, reads of the keychain answer from it or fail, and Argon2id is a function. -/
structure ReadsKeychain (W : World) (K : Keychain) {M : Type} (R : Rules Op M) (m : M) : Prop where
  allowed : ∀ {β : Type} (p : Port β), R.allowed m (.port p)
  retrieve : ∀ service account r m', R.moves m (.port (.keychainRetrieve service account)) r m' →
    m' = m ∧ ∀ value, r = .ok value → K (service, account) = some value
  argon2id : ∀ passphrase params r m', R.moves m (.port (.argon2idDerive passphrase params)) r m' →
    m' = m ∧ r = W.argon2id passphrase params
  master : ∀ r m', R.moves m (.port .masterKeyKeychainRef) r m' →
    m' = m ∧ r = (keychainService, accountMasterKey)

section Fetch

variable {M : Type} {R : Rules Op M} {m : M}

theorem retrieve_yields (hR : ReadsKeychain W K R m) {f : KeychainError → AppError}
    (service account : String) :
    Yields R (attempt f (.port (.keychainRetrieve service account))) m fun m' value =>
      m' = m ∧ K (service, account) = some value := by
  refine yields_attempt (hR.allowed _) fun value m' hx => ?_
  obtain ⟨rfl, hvalue⟩ := hR.retrieve _ _ _ _ hx
  exact ⟨rfl, hvalue value rfl⟩

/-- The steps that open a stored key, and what goes on with its bytes. -/
theorem opened_yields {ε α : Type} {key : Key} {aad blob : List UInt8} {e₁ : String → ε} {e₂ : ε}
    {e₃ : CryptoError → ε} {f : List UInt8 → Cmd Op ε α} {P : M → α → Prop}
    (hf : ∀ bytes, (∀ value, keyOfSlice bytes = some value → openKey W key aad blob = some value) →
      Yields R (f bytes) m P) :
    Yields R (do
      let wrapped ← ofExcept e₁ (W.base64Decode blob)
      let (nonce, ciphertext) ← orThrow e₂ (splitNonce wrapped)
      let bytes ← ofExcept e₃ (W.aeadDecrypt key nonce ciphertext aad)
      f bytes : Cmd Op ε α) m P := by
  refine yields_bind (yields_ofExcept fun wrapped hwrapped => ⟨rfl, hwrapped⟩)
    (P := fun m' wrapped => m' = m ∧ W.base64Decode blob = .ok wrapped) ?_
  rintro m' wrapped ⟨rfl, hwrapped⟩
  refine yields_bind (yields_orThrow fun split hsplit => ⟨rfl, hsplit⟩)
    (P := fun m split => m = m' ∧ splitNonce wrapped = some split) ?_
  rintro m ⟨nonce, ciphertext⟩ ⟨rfl, hsplit⟩
  refine yields_bind (yields_ofExcept fun bytes hbytes => ⟨rfl, hbytes⟩)
    (P := fun m' bytes => m' = m ∧ W.aeadDecrypt key nonce ciphertext aad = .ok bytes) ?_
  rintro m' bytes ⟨rfl, hbytes⟩
  refine hf bytes fun value hvalue => ?_
  unfold openKey
  simp only [hwrapped, Except.toOption, Option.bind_eq_bind, Option.bind_some, hsplit, hbytes, hvalue]

theorem loadMasterViaPassphrase_yields (hR : ReadsKeychain W K R m) (passphrase : String) :
    Yields R (loadMasterViaPassphrase W.toEnv passphrase) m fun m' master =>
      m' = m ∧ passphraseMaster W K passphrase = some master := by
  unfold loadMasterViaPassphrase
  split_ifs with hempty
  · exact yields_throw _
  refine yields_bind (retrieve_yields hR _ _) ?_
  rintro m' json ⟨rfl, hjson⟩
  refine yields_bind (yields_ofExcept fun params hparams => ⟨rfl, hparams⟩)
    (P := fun m params => m = m' ∧ W.argon2ParamsOfJson json = .ok params) ?_
  rintro m params ⟨rfl, hparams⟩
  refine yields_bind (yields_attempt (hR.allowed _) fun kdfKey m' hx => ?_)
    (P := fun m' kdfKey => m' = m ∧ W.argon2id passphrase params = .ok kdfKey) ?_
  · obtain ⟨rfl, hkdf⟩ := hR.argon2id _ _ _ _ hx
    exact ⟨rfl, hkdf.symm⟩
  rintro m' kdfKey ⟨rfl, hkdf⟩
  refine yields_bind (retrieve_yields hR _ _) ?_
  rintro m blob ⟨rfl, hblob⟩
  refine opened_yields fun bytes hopen => yields_orThrow fun master hmaster => ⟨rfl, ?_⟩
  unfold passphraseMaster
  rw [if_neg hempty]
  simp only [hjson, hparams, Except.toOption, Option.bind_eq_bind, Option.bind_some, hkdf, hblob,
    hopen master hmaster]

theorem loadMasterKey_yields (hR : ReadsKeychain W K R m) (route : Option String) :
    Yields R (loadMasterKey W.toEnv route) m fun m' result =>
      m' = m ∧ masterKey W K route = some result.1 := by
  cases route with
  | some passphrase =>
    refine yields_bind (loadMasterViaPassphrase_yields hR passphrase) ?_
    rintro m' master ⟨rfl, hmaster⟩
    exact yields_pure ⟨rfl, hmaster⟩
  | none =>
    refine yields_bind (yields_call (hR.allowed _) fun ref m' hx => hR.master _ _ hx)
      (P := fun m' ref => m' = m ∧ ref = (keychainService, accountMasterKey)) ?_
    rintro m' _ ⟨rfl, rfl⟩
    refine yields_bind (retrieve_yields hR _ _) ?_
    rintro m bytes ⟨rfl, hbytes⟩
    refine yields_bind (yields_orThrow fun master hmaster => ⟨rfl, hmaster⟩)
      (P := fun m' master => m' = m ∧ keyOfSlice bytes = some master) ?_
    rintro m' master ⟨rfl, hmaster⟩
    refine yields_pure ⟨rfl, ?_⟩
    unfold masterKey
    rw [hbytes, Option.bind_some, hmaster]

/-- **An unseal fetches what the keychain yields.** -/
theorem fetch_yields (hR : ReadsKeychain W K R m) (route : Option String) :
    Yields R (fetchKeyMaterial W.toEnv route) m fun m' result =>
      m' = m ∧ rootKey W K route = some result.1 ∧
        result.2.1 = deriveAuditHmacKey W.toEnv result.1 := by
  refine yields_bind (loadMasterKey_yields hR route) ?_
  rintro m' ⟨master, method⟩ ⟨rfl, hmaster⟩
  refine yields_bind (retrieve_yields hR _ _) ?_
  rintro m blob ⟨rfl, hblob⟩
  refine opened_yields fun bytes hopen => ?_
  refine yields_bind (yields_orThrow fun vrk hvrk => ⟨rfl, hvrk⟩)
    (P := fun m' vrk => m' = m ∧ keyOfSlice bytes = some vrk) ?_
  rintro m' vrk ⟨rfl, hvrk⟩
  refine yields_pure ⟨rfl, ?_, rfl⟩
  unfold rootKey
  simp only [hmaster, hblob, Option.bind_eq_bind, Option.bind_some, hopen vrk hvrk]

end Fetch

/-- The actions of the context read the keychain of the node. -/
theorem readsKeychain_node (W : World) (n : Node) : ReadsKeychain W n.keychain (contextRules W) n where
  allowed _ := trivial
  retrieve service account r n' hx := by
    rcases hx with ⟨rfl, hr⟩ | ⟨rfl, e, -, rfl⟩
    · refine ⟨rfl, fun value hvalue => ?_⟩
      cases hitem : n'.keychain (service, account) with
      | none =>
        rw [hitem, hvalue] at hr
        cases hr
      | some value' =>
        rw [hitem, hvalue] at hr
        rw [Except.ok.inj hr]
    · exact ⟨rfl, fun _ h => nomatch h⟩
  argon2id _ _ _ _ hx := hx
  master _ _ hx := hx

/-! ### Fetching without a fault -/

section Live

variable {n : Node}

theorem toOption_eq_some {ε α : Type} {x : Except ε α} {a : α} (h : x.toOption = some a) :
    x = .ok a := by
  cases x with
  | error e => cases h
  | ok b =>
    obtain rfl := Option.some.inj h
    rfl

theorem openKey_eq_some {key value : Key} {aad blob : List UInt8}
    (h : openKey W key aad blob = some value) : ∃ wrapped nonce ciphertext bytes,
      W.base64Decode blob = .ok wrapped ∧ splitNonce wrapped = some (nonce, ciphertext) ∧
      W.aeadDecrypt key nonce ciphertext aad = .ok bytes ∧ keyOfSlice bytes = some value := by
  unfold openKey at h
  obtain ⟨wrapped, hwrapped, h⟩ := Option.bind_eq_some_iff.mp h
  obtain ⟨⟨nonce, ciphertext⟩, hsplit, h⟩ := Option.bind_eq_some_iff.mp h
  obtain ⟨bytes, hbytes, h⟩ := Option.bind_eq_some_iff.mp h
  exact ⟨wrapped, nonce, ciphertext, bytes, toOption_eq_some hwrapped, hsplit,
    toOption_eq_some hbytes, h⟩

theorem retrieve_runs {f : KeychainError → AppError} {service account : String} {value : List UInt8}
    (h : n.keychain (service, account) = some value) :
    Runs (appExec W) (attempt f (.port (.keychainRetrieve service account))).run n
      [⟨.port (.keychainRetrieve service account), .ok value⟩] (.ok value) n :=
  runs_attempt (.inl ⟨rfl, by rw [h]⟩)

theorem opened_runs {ε α : Type} {key value : Key} {aad blob : List UInt8} {e₁ : String → ε} {e₂ : ε}
    {e₃ : CryptoError → ε} {f : List UInt8 → Cmd Op ε α} {b : Except ε α}
    (h : openKey W key aad blob = some value)
    (hf : ∀ bytes, keyOfSlice bytes = some value → ∃ hist, Runs (appExec W) (f bytes).run n hist b n) :
    ∃ hist, Runs (appExec W) (do
      let wrapped ← ofExcept e₁ (W.base64Decode blob)
      let (nonce, ciphertext) ← orThrow e₂ (splitNonce wrapped)
      let bytes ← ofExcept e₃ (W.aeadDecrypt key nonce ciphertext aad)
      f bytes : Cmd Op ε α).run n hist b n := by
  obtain ⟨wrapped, nonce, ciphertext, bytes, hwrapped, hsplit, hbytes, hvalue⟩ := openKey_eq_some h
  refine exists_runs_ok_bind (runs_ofExcept hwrapped) ?_
  refine exists_runs_ok_bind (runs_orThrow hsplit) ?_
  exact exists_runs_ok_bind (runs_ofExcept hbytes) (hf bytes hvalue)

theorem loadMasterViaPassphrase_runs {passphrase : String} {master : Key}
    (h : passphraseMaster W n.keychain passphrase = some master) : ∃ hist,
      Runs (appExec W) (loadMasterViaPassphrase W.toEnv passphrase).run n hist (.ok master) n := by
  unfold passphraseMaster at h
  split_ifs at h with hempty
  obtain ⟨json, hjson, h⟩ := Option.bind_eq_some_iff.mp h
  obtain ⟨params, hparams, h⟩ := Option.bind_eq_some_iff.mp h
  obtain ⟨kdfKey, hkdf, h⟩ := Option.bind_eq_some_iff.mp h
  obtain ⟨blob, hblob, h⟩ := Option.bind_eq_some_iff.mp h
  unfold loadMasterViaPassphrase
  rw [if_neg hempty]
  refine exists_runs_ok_bind (retrieve_runs hjson) ?_
  refine exists_runs_ok_bind (runs_ofExcept (toOption_eq_some hparams)) ?_
  refine exists_runs_ok_bind (runs_attempt (r := .ok kdfKey) ⟨rfl, (toOption_eq_some hkdf).symm⟩) ?_
  refine exists_runs_ok_bind (retrieve_runs hblob) ?_
  exact opened_runs h fun bytes hvalue => ⟨[], runs_orThrow hvalue⟩

theorem loadMasterKey_runs {route : Option String} {master : Key}
    (h : masterKey W n.keychain route = some master) : ∃ hist method,
      Runs (appExec W) (loadMasterKey W.toEnv route).run n hist (.ok (master, method)) n := by
  cases route with
  | none =>
    obtain ⟨bytes, hbytes, hmaster⟩ := Option.bind_eq_some_iff.mp h
    exact ⟨_, _, runs_ok_bind (runs_call ⟨rfl, rfl⟩) (runs_ok_bind (retrieve_runs hbytes)
      (runs_ok_bind (runs_orThrow hmaster) runs_pure))⟩
  | some passphrase =>
    obtain ⟨hist, hrun⟩ := loadMasterViaPassphrase_runs h
    exact ⟨_, _, runs_ok_bind hrun runs_pure⟩

/-- **Without a fault an unseal fetches the key.** -/
theorem fetch_runs {route : Option String} {vrk : Key} (h : rootKey W n.keychain route = some vrk) :
    ∃ hist method, Runs (appExec W) (fetchKeyMaterial W.toEnv route).run n hist
      (.ok (vrk, deriveAuditHmacKey W.toEnv vrk, method)) n := by
  obtain ⟨master, hmaster, h⟩ := Option.bind_eq_some_iff.mp h
  obtain ⟨blob, hblob, h⟩ := Option.bind_eq_some_iff.mp h
  obtain ⟨hist, method, hrun⟩ := loadMasterKey_runs hmaster
  have hrest : ∃ hist, Runs (appExec W) (fetchKeyMaterial W.toEnv route).run n hist
      (.ok (vrk, deriveAuditHmacKey W.toEnv vrk, method)) n := by
    refine exists_runs_ok_bind hrun ?_
    refine exists_runs_ok_bind (retrieve_runs hblob) ?_
    exact opened_runs h fun bytes hvalue =>
      exists_runs_ok_bind (runs_orThrow hvalue) ⟨[], runs_pure⟩
  obtain ⟨hist', hrun'⟩ := hrest
  exact ⟨hist', method, hrun'⟩

end Live

end MerkleVault.App.KeyMaterial
