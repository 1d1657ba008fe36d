import MerkleVault.App.AuditDurability

/-! # The Sections of the Identity Lock

What the sections that change the lifecycle state leave: an unseal or a recovery that completes leaves
the vault unsealed with its root key, every other section keeps the state as it is or leaves the
unsealed one.

* `recoverIdentity_cases`: the two ends of the section of a recovery;
* `StaysOrLeaves`: the sections that do not unseal;
* `leavesKeys`: the actions that leave the state and the audit key. -/

namespace MerkleVault.App.IdentitySections

open MerkleVault.Types MerkleVault.Identity MerkleVault.Audit.Integrity MerkleVault.App.Context
open MerkleVault.App.Lifecycle MerkleVault.App.AuditDurability

/-! ### What they leave -/

theorem completeUnseal_ok {i i' : VaultIdentity} {vrk : Key} (h : i.completeUnseal vrk = .ok i') :
    i' = ⟨.unsealed, some vrk⟩ := by
  unfold VaultIdentity.completeUnseal at h
  split_ifs at h
  exact (Except.ok.inj h).symm

theorem beginUnseal_ok {i i' : VaultIdentity} {p : UnsealPreconditions}
    (h : i.beginUnseal p = .ok i') : i' = { i with state := .unsealing } := by
  unfold VaultIdentity.beginUnseal at h
  split_ifs at h
  split at h
  · cases h
  · exact (Except.ok.inj h).symm

theorem sealVault_ok {i i' : VaultIdentity} (h : i.sealVault = .ok i') : i' = ⟨.sealed, none⟩ := by
  unfold VaultIdentity.sealVault at h
  split_ifs at h
  exact (Except.ok.inj h).symm

/-- Reverting seals the vault or leaves it as it is. -/
theorem revertToSealed_getD (i : VaultIdentity) :
    i.revertToSealed.toOption.getD i = ⟨.sealed, none⟩ ∨
      i.revertToSealed.toOption.getD i = i := by
  unfold VaultIdentity.revertToSealed
  split_ifs
  · exact .inr rfl
  · exact .inl rfl

/-- A recovery ends unsealed with its key, or not unsealed. -/
theorem recoverIdentity_cases (i : VaultIdentity) (vrk : Key) :
    ((recoverIdentity i vrk).1.isOk = true ∧ (recoverIdentity i vrk).2 = ⟨.unsealed, some vrk⟩) ∨
      ((recoverIdentity i vrk).1.isOk = false ∧ (recoverIdentity i vrk).2.state ≠ .unsealed) := by
  unfold recoverIdentity
  split
  · next e he =>
    -- Sealing an unsealed vault cannot fail.
    split_ifs at he with hu
    have hst : i.state = .unsealed := by simpa [VaultIdentity.isUnsealed] using hu
    simp [VaultIdentity.sealVault, hst] at he
  · next sealed hs =>
    have hns : sealed.state ≠ .unsealed := by
      split_ifs at hs with hu
      · rw [sealVault_ok hs]
        decide
      · rw [← Except.ok.inj hs]
        simpa [VaultIdentity.isUnsealed] using hu
    split
    · exact .inr ⟨rfl, hns⟩
    · next unsealing hb =>
      have hub : unsealing.state = .unsealing := by rw [beginUnseal_ok hb]
      split
      · refine .inr ⟨rfl, ?_⟩
        show unsealing.state ≠ .unsealed
        rw [hub]
        decide
      · next unsealed hc => exact .inl ⟨rfl, completeUnseal_ok hc⟩

/-- The section keeps the identity or leaves the unsealed state. -/
def StaysOrLeaves (i i' : VaultIdentity) : Prop := i' = i ∨ i'.state ≠ .unsealed

theorem revertToSealed_staysOrLeaves (i : VaultIdentity) :
    StaysOrLeaves i (i.revertToSealed.toOption.getD i) := by
  rcases revertToSealed_getD i with h | h
  · exact .inr (by rw [h]; simp)
  · exact .inl h

theorem beginUnseal_staysOrLeaves (p : UnsealPreconditions) (i : VaultIdentity) :
    StaysOrLeaves i ((IdentityOp.beginUnseal p).apply i).2 := by
  simp only [IdentityOp.apply]
  split_ifs
  · exact .inl rfl
  · split
    · next i' hb =>
      refine .inr ?_
      show i'.state ≠ .unsealed
      rw [beginUnseal_ok hb]
      simp
    · exact .inl rfl

theorem rollbackUnsealing_staysOrLeaves (i : VaultIdentity) :
    StaysOrLeaves i (IdentityOp.rollbackUnsealing.apply i).2 := by
  simp only [IdentityOp.apply]
  split_ifs
  · exact revertToSealed_staysOrLeaves i
  · exact .inl rfl

theorem sealVault_staysOrLeaves (i : VaultIdentity) :
    StaysOrLeaves i (IdentityOp.sealVault.apply i).2 := by
  simp only [IdentityOp.apply]
  split
  · next i' hs =>
    refine .inr ?_
    show i'.state ≠ .unsealed
    rw [sealVault_ok hs]
    simp
  · exact .inl rfl

/-! ### The other actions -/

/-- Actions that change neither the lifecycle state nor the keys. -/
def leavesKeys {β : Type} : Op β → Prop
  | .identity .isUnsealed => True
  | .identity _ => False
  | .writeHmacKey _ => False
  | _ => True

theorem exec_leavesKeys {K : External.Crates} {β : Type} {op : Op β} {s s' : AppState} {r : β}
    (hop : leavesKeys op) (hx : exec K op s r s') :
    s'.identity = s.identity ∧ s'.hmacKey = s.hmacKey := by
  cases op with
  | identity o =>
    cases o with
    | isUnsealed =>
      obtain ⟨-, rfl⟩ := Prod.mk.inj hx
      exact ⟨rfl, rfl⟩
    | _ => exact hop.elim
  | writeHmacKey key => exact hop.elim
  | readHmacKey =>
    obtain ⟨-, rfl⟩ := hx
    exact ⟨rfl, rfl⟩
  | auditCommit params key =>
    obtain ⟨draw, fault, hx⟩ := hx
    exact auditCommitSection_frame hx
  | installHead p =>
    obtain rfl : s' = _ := hx
    exact ⟨rfl, rfl⟩
  | query q =>
    obtain ⟨rfl, -⟩ := hx
    exact ⟨rfl, rfl⟩
  | write w =>
    obtain ⟨fault, hx⟩ := hx
    rcases writeSection_eq hx with ⟨-, store, -, rfl⟩ | ⟨-, rfl⟩
    · exact ⟨rfl, rfl⟩
    · exact ⟨rfl, rfl⟩
  | newUuid =>
    obtain ⟨-, rfl⟩ := hx
    exact ⟨rfl, rfl⟩
  | registerUseToken key token =>
    obtain rfl : s' = _ := hx
    exact ⟨rfl, rfl⟩
  | consumeUseToken key handle =>
    obtain ⟨now, hx⟩ := hx
    rw [consumeUseTokenSection_eq hx]
    exact ⟨rfl, rfl⟩
  | port p =>
    obtain rfl : s' = _ := hx
    exact ⟨rfl, rfl⟩

/-! ### Sample functions of the ports -/

/-- A cipher that writes the key before the plaintext and an empty tag after it. -/
def sampleEncrypt (key : Key) (_ : Vector UInt8 24) (plaintext _ : List UInt8) :
    Except CryptoError (List UInt8) :=
  .ok (key.toList ++ plaintext ++ List.replicate 16 0)

/-- A ciphertext starts with its key. -/
def sampleDecrypt (key : Key) (_ : Vector UInt8 24) (ciphertext _ : List UInt8) :
    Except CryptoError (List UInt8) :=
  if ciphertext.take 32 = key.toList ∧ 48 ≤ ciphertext.length then
    .ok ((ciphertext.drop 32).take (ciphertext.length - 48))
  else .error .aeadVerifyFailed

/-- An environment that encrypts so. -/
def sampleEnv : Env where
  toCrates := sampleCrates
  aeadEncrypt := sampleEncrypt
  aeadDecrypt := sampleDecrypt
  ed25519Verify _ _ _ := .ok ()
  dalekVerify _ _ _ := true
  base64UrlDecode text := some text.toUTF8.data.toList
  base64UrlEncode bytes := String.ofList (External.hexBytes bytes)
  jwtHeader _ := some ⟨"EdDSA", ""⟩
  jwtPayload _ := none
  base64Encode bytes := bytes
  base64Decode bytes := .ok bytes
  decodeBackup _ := .error "not a backup"
  argon2ParamsOfJson _ := .error "no parameters"

/-- The sample ciphers over a log whose hashes do not repeat. -/
def chainEnv : Env := { sampleEnv with toCrates := chainCrates }

/-- An unseal by the keychain. -/
def sampleUnseal : UnsealVaultCommand := ⟨⟨.balanced, true, true, true⟩, none⟩

/-- The root key wrapped under the master key `sampleKey`. -/
def sampleWrap : List UInt8 :=
  List.replicate 24 0 ++ (sampleKey.toList ++ sampleKey.toList ++ List.replicate 16 0)

end MerkleVault.App.IdentitySections
